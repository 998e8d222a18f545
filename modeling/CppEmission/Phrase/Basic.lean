import CppEmission.Context
import CppEmission.Keyword

namespace CppEmission

structure Phrase where
  text : String
  level : Priority := .primary
  groupedIn : List Priority := []
  deriving DecidableEq

namespace Phrase

def IsGrouped (p : Phrase) (parent : Priority) : Prop := parent ∈ p.groupedIn ∨ p.level < parent

instance (p : Phrase) (parent : Priority) : Decidable (p.IsGrouped parent) :=
  inferInstanceAs (Decidable (_ ∨ _))

def within (p : Phrase) (parent : Priority) : String :=
  if p.IsGrouped parent then "(" ++ p.text ++ ")" else p.text

@[simp] theorem within_primary (text : String) (parent : Priority) :
    (Phrase.mk text .primary []).within parent = text := by
  have h : ¬ Priority.primary < parent := by
    cases parent <;> decide
  simp [within, IsGrouped, h]

end Phrase

structure Operand where
  expr : Expr
  within : Priority → Except EmitError String

namespace Operand

def isStringLiteral (o : Operand) : Bool := o.expr.isLiteral && o.expr.ty.isString

def access (o : Operand) : String :=
  if o.expr.isSelf || o.expr.ty.handle?.isSome then "->" else "."

def member (o : Operand) (name : String) : Except EmitError String := do
  let receiver ← o.within .primary
  return receiver ++ o.access ++ name

end Operand

/-- A text, as contexts ask for it, with the tokens of the conversion around it. -/
def Conversion.around (c : Conversion) (text : Priority → Except EmitError String)
    (parent : Priority) : Except EmitError String :=
  match c.operandPriority?, c.resultPriority? with
  | some operand, some result => do
    let inner ← text operand
    return Phrase.within ⟨c.apply inner, result, []⟩ parent
  | _, _ => text parent

def joined (texts : List String) : String := String.intercalate ", " texts

namespace Context

def coercedWithin (cx : Context) (target : Ty) (o : Operand) (parent : Priority) :
    Except EmitError String := do
  let c ← (cx.location o.expr.span).attach (cx.dialect.convert target o.expr)
  c.around o.within parent

def items (cx : Context) (elem : Option Ty) : List Operand → Except EmitError (List String)
  | [] => .ok []
  | o :: rest => do
    let text ← match elem with
      | some t => cx.coercedWithin t o .statement
      | none => o.within .statement
    return text :: (← cx.items elem rest)

def arguments (cx : Context) : List Ty → List Operand → Except EmitError (List String)
  | _, [] => .ok []
  | [], o :: rest => do
    let text ← o.within .statement
    return text :: (← cx.arguments [] rest)
  | t :: params, o :: rest => do
    let text ← cx.coercedWithin t o .statement
    return text :: (← cx.arguments params rest)

def declared (cx : Context) (name : String) (ty : Ty) (value : Option Operand) :
    Except EmitError String := do
  let typeName ← cx.typeName ty
  let head := typeName ++ " " ++ Keyword.escape name
  match value with
  | some o => return head ++ " = " ++ (← cx.coercedWithin ty o .assign)
  | none => return head ++ ty.initializer

end Context

end CppEmission
