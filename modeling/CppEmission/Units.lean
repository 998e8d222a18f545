import CppEmission.Declaration.Class
import CppEmission.Declaration.Resource
import CppEmission.Dependency
import CppEmission.Facility
import CppEmission.Session
import CppEmission.Settings
import CppEmission.Stmt.Script

namespace CppEmission

structure Units where
  interface : String
  implementation : String
  deriving DecidableEq

def Action.put (script : Script) : Action := .write fun _ => script

def blank : Script := .op .blankLine

def interfacePrologue (used : List Facility) : Script :=
  .line "#pragma once" ++
    match Header.needed used with
    | [] => {}
    | headers => blank ++ .lines (headers.map fun h => "#include <" ++ h ++ ">")

def implementationPrologue (settings : Settings) : Script :=
  .line ("#include \"" ++ settings.interfaceFile ++ "\"")

def openNamespace (name : String) : Script := .line ("namespace " ++ name ++ " \x7b")

def closeNamespace (name : String) : Script := .line ("\x7d  // namespace " ++ name)

def Settings.banners (s : Settings) : Script := .line (lineComment s.banner)

def Settings.enclose (s : Settings) (body : List Action) : List Action :=
  match s.enclosing with
  | none => body
  | some name =>
    .put (blank ++ openNamespace name) :: body ++ [.put (blank ++ closeNamespace name)]

namespace Member

def declare (c : Class) : Member → List Action
  | constructor => [.put (.line c.constructorLine)]
  | destructor => [.put (.line c.destructorLine)]
  | constant _ d => [.write fun cx => .after (cx.constantLine .member d) .line]
  | field _ f => [.write fun cx => .after (cx.fieldLine f) .line]
  | method _ m =>
    [.enterMethod (some m), .write fun cx => .after (cx.methodLine m) .line, .enterMethod none]

end Member

namespace Class

def declareGroups (c : Class) (access : Option String) : List VisibilityGroup → List Action
  | [] => []
  | g :: rest =>
    (if access = some g.visibility.access then [] else [.put (accessLabel g.visibility.access)]) ++
      g.members.flatMap (·.declare c) ++ c.declareGroups (some g.visibility.access) rest

def declare (c : Class) : List Action :=
  .put blank :: .enterClass (some c) :: .put (.openBlock c.header) ::
    c.declareGroups none c.groups ++ [.put closeClass, .enterClass none]

def defineConstructor (c : Class) : List Action :=
  match c.constructor with
  | none => []
  | some body =>
    [.write fun cx =>
      if c.isStatic then .fail (.refused .staticConstructor (cx.location c.span))
      else blank ++ .block c.constructorHeader (cx.emitAll body)]

def defineMethod (c : Class) (m : Method) : List Action :=
  if m.isAbstract then []
  else
    [.enterMethod (some m),
      .write fun cx =>
        match m.body with
        | none => .fail (.refused .bodilessMethod (cx.location m.span))
        | some body =>
          .after (cx.methodHeader c.name m) fun h => blank ++ .block h (cx.emit true body)]

def define (c : Class) : List Action :=
  .enterClass (some c) :: c.defineConstructor ++ c.methods.flatMap c.defineMethod ++
    [.enterClass none]

end Class

namespace Program

def forwardDeclarations (p : Program) : List Action :=
  if p.classes.isEmpty then [] else [.put (blank ++ .lines (p.classes.map (·.forwardLine)))]

def declareResources (resources : List Resource) : List Action :=
  if resources.isEmpty then []
  else [.put (blank ++ .concat (resources.map fun r =>
    .resourceDeclaration r.identifier r.bytes.length))]

def interface (p : Program) (settings : Settings) (order : List Class)
    (resources : List Resource) : List Action :=
  .put (settings.banners ++ interfacePrologue p.facilities) ::
    p.natives.map (fun text => .put (blank ++ .op (.raw text))) ++
    settings.enclose (p.forwardDeclarations ++
      p.enums.map (fun e => .put (blank ++ .line e.line)) ++
      order.flatMap (·.declare) ++ declareResources resources)

def implementation (p : Program) (settings : Settings) (resources : List Resource) :
    List Action :=
  .put (settings.banners ++ implementationPrologue settings) ::
    settings.enclose (p.classes.flatMap (·.define) ++
      resources.map fun r => .put (blank ++ .resourceDefinition r.identifier r.bytes))

end Program

/-- What generates a program's units, and where in the program it stands. -/
structure Generator where
  settings : Settings
  context : Context

namespace Generator

def unit (g : Generator) (actions : List Action) : Generator × Except EmitError String :=
  match Session.run ⟨g.context, g.settings.writer⟩ actions with
  | (s, none) => ({ g with context := s.context }, .ok s.writer.buffer)
  | (s, some e) => ({ g with context := s.context }, .error e)

/-- Both units. The order of the classes and the resources are settled before any text. -/
def run (g : Generator) : Generator × Except EmitError Units :=
  let p := g.context.program
  match p.dependencyOrder, p.embeddable with
  | .error e, _ => (g, .error e)
  | .ok _, .error e => (g, .error e)
  | .ok order, .ok resources =>
    match g.unit (p.interface g.settings order resources) with
    | (g, .error e) => (g, .error e)
    | (g, .ok interface) =>
      match g.unit (p.implementation g.settings resources) with
      | (g, .error e) => (g, .error e)
      | (g, .ok implementation) => (g, .ok ⟨interface, implementation⟩)

end Generator

def generate (dialect : Dialect) (settings : Settings) (p : Program) : Except EmitError Units :=
  (Generator.run ⟨settings, { dialect, program := p }⟩).2

end CppEmission
