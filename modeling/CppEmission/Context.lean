import CppEmission.Conversion
import CppEmission.Program

namespace CppEmission

structure Dialect where
  name : String := "cpp"
  stringOperators : Bool := true
  stringSwitch : Bool := false
  convert : Ty → Expr → Except Refusal Conversion := CppEmission.convert

namespace Dialect

def cpp : Dialect := {}

def plain : Dialect := { stringOperators := false }

def plainSwitch : Dialect := { plain with stringSwitch := true }

end Dialect

structure Scope where
  class? : Option Class := none
  method? : Option Method := none

namespace Scope

def enterClass (c : Option Class) : Scope := { class? := c }

def enterMethod (m : Option Method) (s : Scope) : Scope := { s with method? := m }

def isClass (s : Scope) (name : String) : Bool := s.class?.any (·.name == name)

def returnTy? (s : Scope) : Option Ty := s.method?.bind (·.returnTy)

def location (s : Scope) (span : Span) : Location :=
  .code (s.class?.map (·.name)) (s.method?.map (·.name)) span

end Scope

structure Context where
  dialect : Dialect := .cpp
  program : Program := {}
  scope : Scope := {}

namespace Context

def location (cx : Context) (span : Span) : Location := cx.scope.location span

def typeName (cx : Context) (t : Ty) : Except EmitError String :=
  (cx.location {}).attach t.spelling

def promotedName (cx : Context) (t : Ty) : Except EmitError String :=
  (cx.location {}).attach t.promoted

def qualified (cx : Context) (className name : String) : String :=
  if cx.scope.isClass className then name else className ++ "::" ++ name

end Context

end CppEmission
