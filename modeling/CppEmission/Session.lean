import CppEmission.Context
import CppEmission.Script

namespace CppEmission

structure Session where
  context : Context
  writer : Writer

inductive Action
  | enterClass (c : Option Class)
  | enterMethod (m : Option Method)
  | write (text : Context → Script)

namespace Session

def enterClass (s : Session) (c : Option Class) : Session :=
  { s with context := { s.context with scope := .enterClass c } }

def enterMethod (s : Session) (m : Option Method) : Session :=
  { s with context := { s.context with scope := s.context.scope.enterMethod m } }

def perform (s : Session) (script : Script) : Session :=
  { s with writer := s.writer.perform script }

/-- The session after an action, and the fault that stopped it. -/
def step (s : Session) : Action → Session × Option EmitError
  | .enterClass c => (s.enterClass c, none)
  | .enterMethod m => (s.enterMethod m, none)
  | .write text => (s.perform (text s.context), (text s.context).fault)

def run (s : Session) : List Action → Session × Option EmitError
  | [] => (s, none)
  | a :: rest =>
    match s.step a with
    | (next, none) => next.run rest
    | (stopped, some e) => (stopped, some e)

end Session

end CppEmission
