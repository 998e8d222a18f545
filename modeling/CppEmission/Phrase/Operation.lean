import CppEmission.Phrase.Basic

namespace CppEmission

def PrefixOp.sign? : PrefixOp → Option Char
  | neg | decrement => some '-'
  | plus | increment => some '+'
  | complement | not => none

/-- A sign in front of an operand that starts with the same sign would read as one token. -/
def PrefixOp.needsSpace (op : PrefixOp) (operand : String) : Bool :=
  op.sign?.isSome && operand.toList.head? = op.sign?

namespace Operand

def prefixed (op : PrefixOp) (o : Operand) (parent : Priority) : Except EmitError String := do
  let inner ← o.within .unary
  let space := if op.needsSpace inner then " " else ""
  return Phrase.within ⟨op.spelling ++ space ++ inner, .unary, []⟩ parent

def postfixed (op : PostfixOp) (o : Operand) : Except EmitError String := do
  let inner ← o.within .primary
  return inner ++ op.spelling

def between (op : BinaryOp) (l r : Operand) (parent : Priority) : Except EmitError String := do
  let left ← l.within op.leftPriority
  let right ← r.within op.rightPriority
  let text := left ++ " " ++ op.spelling ++ " " ++ right
  return Phrase.within ⟨text, op.priority, op.groupedIn⟩ parent

def indexed (l r : Operand) : Except EmitError String := do
  let array ← l.within BinaryOp.index.leftPriority
  let index ← r.within BinaryOp.index.rightPriority
  return array ++ "[" ++ index ++ "]"

def comparedAsView (op : BinaryOp) (l r : Operand) (parent : Priority) :
    Except EmitError String := do
  let left ← l.within .statement
  let right ← r.within op.rightPriority
  let text := "std::string_view(" ++ left ++ ") " ++ op.spelling ++ " " ++ right
  return Phrase.within ⟨text, op.priority, []⟩ parent

def appendedAsText (l r : Operand) (parent : Priority) : Except EmitError String := do
  let left ← l.within .condOr
  let right ← r.within .statement
  return Phrase.within ⟨left ++ " += std::to_string(" ++ right ++ ")", .assign, []⟩ parent

def asOwned (o : Operand) : Except EmitError String := do
  return "std::string(" ++ (← o.within .statement) ++ ")"

def asNumberText (o : Operand) : Except EmitError String := do
  return "std::to_string(" ++ (← o.within .statement) ++ ")"

def leadingSummand (o : Operand) : Except EmitError String :=
  match o.expr.ty with
  | .string .storage => o.within BinaryOp.add.leftPriority
  | .string .view => o.asOwned
  | _ => o.asNumberText

def trailingSummand (o : Operand) : Except EmitError String :=
  match o.expr.ty with
  | .string .storage => o.within BinaryOp.add.rightPriority
  | .string .view => if o.expr.isLiteral then o.within BinaryOp.add.rightPriority else o.asOwned
  | _ => o.asNumberText

def stringSum (l r : Operand) (parent : Priority) : Except EmitError String := do
  let left ← l.leadingSummand
  let right ← r.trailingSummand
  return Phrase.within ⟨left ++ " + " ++ right, .additive, []⟩ parent

end Operand

namespace Context

def compared (cx : Context) (op : BinaryOp) (l r : Operand) (parent : Priority) :
    Except EmitError String :=
  if cx.dialect.stringOperators && l.isStringLiteral then l.comparedAsView op r parent
  else l.between op r parent

def assignedAsIs (cx : Context) (op : BinaryOp) (l r : Operand) (parent : Priority) :
    Except EmitError String := do
  let value ← if op = .assign then cx.coercedWithin l.expr.ty r op.rightPriority
    else r.within op.rightPriority
  let target ← l.within op.leftPriority
  return Phrase.within ⟨target ++ " " ++ op.spelling ++ " " ++ value, .assign, []⟩ parent

def assigned (cx : Context) (op : BinaryOp) (l r : Operand) (parent : Priority) :
    Except EmitError String :=
  if cx.dialect.stringOperators && op = .addAssign && l.expr.ty.isString && !r.expr.ty.isString then
    l.appendedAsText r parent
  else cx.assignedAsIs op l r parent

def concatenated (cx : Context) (l r : Operand) (parent : Priority) : Except EmitError String :=
  if cx.dialect.stringOperators then l.stringSum r parent else l.between .add r parent

def binary (cx : Context) (ty : Ty) (op : BinaryOp) (l r : Operand) (parent : Priority) :
    Except EmitError String :=
  if op.isAssignment then cx.assigned op l r parent
  else if op.isEquality || op.isComparison then cx.compared op l r parent
  else if op = .add && ty.isString then cx.concatenated l r parent
  else if op = .index then l.indexed r
  else l.between op r parent

def conditional (cx : Context) (ty : Ty) (test onTrue onFalse : Operand) (parent : Priority) :
    Except EmitError String := do
  let test ← test.within .condOr
  let onTrue ← cx.coercedWithin ty onTrue .cond
  let onFalse ← cx.coercedWithin ty onFalse .cond
  return Phrase.within ⟨test ++ " ? " ++ onTrue ++ " : " ++ onFalse, .cond, []⟩ parent

end Context

/-! An operation as a phrase is its text where nothing groups it, with the levels at which contexts
do. -/

def Operand.infixed (op : BinaryOp) (l r : Operand) : Except EmitError Phrase := do
  return ⟨← l.between op r .statement, op.priority, op.groupedIn⟩

namespace Context

def comparison (cx : Context) (op : BinaryOp) (l r : Operand) : Except EmitError Phrase := do
  let asView := cx.dialect.stringOperators && l.isStringLiteral
  return ⟨← cx.compared op l r .statement, op.priority, if asView then [] else op.groupedIn⟩

def plainAssignment (cx : Context) (op : BinaryOp) (l r : Operand) : Except EmitError Phrase := do
  return ⟨← cx.assignedAsIs op l r .statement, .assign, []⟩

def assignment (cx : Context) (op : BinaryOp) (l r : Operand) : Except EmitError Phrase := do
  return ⟨← cx.assigned op l r .statement, .assign, []⟩

def concatenation (cx : Context) (l r : Operand) : Except EmitError Phrase := do
  return ⟨← cx.concatenated l r .statement, .additive, []⟩

end Context

end CppEmission
