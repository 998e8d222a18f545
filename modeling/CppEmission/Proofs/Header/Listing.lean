import CppEmission.Proofs.Surface.Emission
import CppEmission.Proofs.Units.Script

namespace CppEmission

open Grammar Surface

def unitWords : List String :=
  ["0", "auto", "break", "case", "class", "const", "constexpr", "continue", "default", "delete",
    "do", "else", "enum", "extern", "fallthrough", "final", "for", "if", "inline", "namespace",
    "override", "private", "protected", "public", "return", "static", "switch", "throw", "virtual",
    "void", "while"]

def wordRuns : List Char → List (List Char)
  | [] => [[]]
  | c :: cs =>
    match wordRuns cs with
    | [] => []
    | run :: runs => if isWordChar c then (c :: run) :: runs else [] :: run :: runs

def IsOwnText (text : String) : Prop :=
  ∀ run ∈ wordRuns text.toList, run ≠ [] → String.ofList run ∈ unitWords

instance (text : String) : Decidable (IsOwnText text) := inferInstanceAs (Decidable (∀ run ∈ _, _))

inductive Composed (ts : List (Term Name)) : String → Prop
  | own : IsOwnText text → Composed ts text
  | term : t ∈ ts → Spells text t → Composed ts text
  | append : Composed ts text → Composed ts text' → Composed ts (text ++ text')

/-- What is written is composed from the terms, unless it is a directive, a comment or text of the
target that the program passes on. -/
inductive Writer.Op.Draws (ts : List (Term Name)) : Op → Prop
  | line : Composed ts text → Draws ts (.line text)
  | outdentedLine : Composed ts text → Draws ts (.outdentedLine text)
  | openBlock : Composed ts text → Draws ts (.openBlock text)
  | closeBlockWith : Composed ts text → Draws ts (.closeBlockWith text)
  | directive : Draws ts (.line ("#" ++ text))
  | comment : Draws ts (.line ("//" ++ text))
  | raw : Draws ts (.raw text)
  | blankLine : Draws ts .blankLine
  | indent : Draws ts .indent
  | dedent : Draws ts .dedent

def nameTerm (x : String) : Term Name := .name (.plain x)

def typeTerm (t : Ty) : Term Name := .name (.type t)

namespace Context

def convertedTree (cx : Context) (target : Ty) (e : Expr) : Term Name :=
  (cx.part e).converted target

end Context

def Constant.terms (cx : Context) (c : Constant) : List (Term Name) :=
  match c.ty.ofConstant? with
  | none => []
  | some t => [typeTerm t, nameTerm (Keyword.escape c.name), cx.convertedTree t c.value]

def Context.labelTerm (cx : Context) (value label : Expr) : Term Name :=
  if value.ty.isString && !cx.dialect.stringSwitch then
    cx.comparisonTree .eq (cx.part value) (cx.part label)
  else cx.tree label

namespace Stmt

mutual

def terms (cx : Context) : Stmt → List (Term Name)
  | expr e => [cx.tree e]
  | block body => allTerms cx body
  | ifElse test thenDo elseDo => cx.tree test :: thenDo.terms cx ++ optTerms cx elseDo
  | whileLoop test body | doWhile body test => cx.tree test :: body.terms cx
  | forLoop init test advance body =>
    (init.toList ++ test.toList ++ advance.toList).map cx.tree ++ body.terms cx
  | foreach element value collection body =>
    cx.tree collection :: nameTerm (Keyword.escape element.name) ::
      (match value with
        | some v => [nameTerm (Keyword.escape v.name)]
        | none => if element.ty.isBoundByValue then [typeTerm element.ty] else []) ++
      body.terms cx
  | switch value cases default =>
    cx.tree value :: casesTerms cx value cases ++ defaultTerms cx default
  | ret none => []
  | ret (some e) =>
    match cx.scope.returnTy? with
    | some t => [cx.convertedTree t e]
    | none => [cx.tree e]
  | raise message =>
    [.calling (.library .runtimeError) [cx.convertedTree (.string .storage) message]]
  | constant c => c.terms cx
  | breakOut | continueLoop | native _ => []

def optTerms (cx : Context) : Option Stmt → List (Term Name)
  | none => []
  | some s => s.terms cx

def allTerms (cx : Context) : List Stmt → List (Term Name)
  | [] => []
  | s :: rest => s.terms cx ++ allTerms cx rest

def casesTerms (cx : Context) (value : Expr) : List (Case Stmt) → List (Term Name)
  | [] => []
  | ⟨values, body, _⟩ :: rest =>
    values.map (cx.labelTerm value) ++ allTerms cx body ++ casesTerms cx value rest

def defaultTerms (cx : Context) : Option (List Stmt) → List (Term Name)
  | none => []
  | some body => allTerms cx body

end

end Stmt

def Field.terms (cx : Context) (f : Field) : List (Term Name) :=
  [.declaration (.type f.ty) (.plain (Keyword.escape f.name)) (Part.initial f.ty (cx.part? f.value))]

def Param.terms (cx : Context) (p : Param) : List (Term Name) :=
  typeTerm p.ty :: nameTerm (Keyword.escape p.name) :: p.default.toList.map (cx.convertedTree p.ty)

namespace Context

def inClass (cx : Context) (c : Class) : Context := cx.entering (.enterClass (some c))

def inMethod (cx : Context) (m : Method) : Context :=
  cx.entering (cx.scope.enterMethod (some m))

end Context

def Method.headTerms (cx : Context) (m : Method) : List (Term Name) :=
  m.returnTy.toList.map typeTerm ++ nameTerm (Keyword.escape m.name) ::
    m.params.flatMap (·.terms cx)

def Method.terms (cx : Context) (m : Method) : List (Term Name) :=
  m.headTerms (cx.inMethod m) ++ Stmt.optTerms (cx.inMethod m) m.body

def Class.terms (cx : Context) (c : Class) : List (Term Name) :=
  let cx := cx.inClass c
  nameTerm c.name :: c.base.toList.map nameTerm ++ c.constants.flatMap (·.terms cx) ++
    c.fields.flatMap (·.terms cx) ++ (c.constructor.map (Stmt.allTerms cx)).getD [] ++
    c.methods.flatMap (·.terms cx)

def EnumConstant.terms (c : EnumConstant) : List (Term Name) :=
  nameTerm (Keyword.escape c.name) :: c.value.toList.map fun v => .literal (Int.repr v.toInt)

def Enum.terms (e : Enum) : List (Term Name) := nameTerm e.name :: e.constants.flatMap (·.terms)

def Resource.terms (r : Resource) : List (Term Name) :=
  typeTerm (.int .u8) :: nameTerm r.identifier :: .literal (Nat.repr r.bytes.length) ::
    r.bytes.map fun b => .literal (byteText b)

/-- What either unit of the program is written with, beginning at `cx`. -/
def Program.terms (p : Program) (settings : Settings) (cx : Context) : List (Term Name) :=
  settings.enclosing.toList.map nameTerm ++ p.classes.flatMap (·.terms cx) ++
    p.enums.flatMap (·.terms) ++ p.resources.flatMap (·.terms)

end CppEmission
