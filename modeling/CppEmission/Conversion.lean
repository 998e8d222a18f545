import CppEmission.Spelling

namespace CppEmission

inductive Conversion
  | keep
  | prepend (token : String)
  | append (suffix : String)
  | call (callee : String)
  deriving DecidableEq

namespace Conversion

def operandPriority? : Conversion → Option Priority
  | keep => none
  | prepend _ => some .unary
  | append _ => some .primary
  | call _ => some .statement

def resultPriority? : Conversion → Option Priority
  | keep => none
  | prepend _ => some .unary
  | append _ | call _ => some .primary

def apply : Conversion → String → String
  | keep, value => value
  | prepend token, value => token ++ value
  | append suffix, value => value ++ suffix
  | call callee, value => callee ++ "(" ++ value ++ ")"

def cast (typeName : String) : Conversion := call ("static_cast<" ++ typeName ++ ">")

end Conversion

/-- An object reached through `target`. What is shared can be lent, and what may be changed may be
looked at; nothing else becomes shared, and no borrow becomes stronger. -/
def Ownership.toHandle : Ownership → Handle → Except Refusal Conversion
  | .value, .readOnly | .value, .mutable => .ok (.prepend "&")
  | .ptr .shared, .readOnly | .ptr .shared, .mutable => .ok (.append ".get()")
  | .ptr .mutable, .readOnly | .ptr .mutable, .mutable | .ptr .shared, .shared => .ok .keep
  | source, target => .error (.objectConversion source target)

def ArrayShape.toHandle : ArrayShape → Handle → Except Refusal Conversion
  | .storage _, .readOnly | .storage _, .mutable => .ok (.append ".data()")
  | .pointer .shared, .readOnly | .pointer .shared, .mutable => .ok (.append ".get()")
  | .pointer .mutable, .readOnly => .ok .keep
  | source@(.pointer h), target =>
    if h = target then .ok .keep else .error (.arrayConversion source target)
  | source, target => .error (.arrayConversion source target)

def Expr.isPromoted : Expr → Bool
  | .binary _ op _ _ => op.isArithmetic
  | .prefixed _ op _ => op = .neg || op = .plus || op = .complement
  | _ => false

/-- The kind that an integer expression has in the target, where arithmetic on narrow integers
yields `int`. -/
def Expr.arithmeticKind (e : Expr) (k : IntKind) : IntKind :=
  if e.isPromoted && k.isNarrow then .i32 else k

/-- The conversion by which `e` can stand where `target` is expected. A literal takes the type of
its place, and a value of unrelated type is left for the compiler of the target to judge. -/
def convert (target : Ty) (e : Expr) : Except Refusal Conversion :=
  if e.ty = target ∨ e.ty = .null then .ok .keep
  else match target, e.ty with
    | .int k, .int l =>
      .ok (if e.isLiteral || (e.arithmeticKind l).widens k then .keep else .cast k.spelling)
    | .int k, .float | .int k, .double | .int k, .enum _ => .ok (.cast k.spelling)
    | .enum n, .int _ | .enum n, .float | .enum n, .double | .enum n, .enum _ => .ok (.cast n)
    | .float, .double => .ok (if e.isLiteral then .keep else .cast "float")
    | .string .storage, .string .view =>
      .ok (if e.isLiteral then .keep else .call "std::string")
    | .object _ (.ptr h), .object _ held => held.toHandle h
    | .object _ .value, .object _ (.ptr _) => .ok (.prepend "*")
    | .array _ (.pointer h), .array _ shape => shape.toHandle h
    | _, _ => .ok .keep

theorem convert_self (e : Expr) : convert e.ty e = .ok .keep := by simp [convert]

theorem convert_null {target : Ty} {e : Expr} (h : e.ty = .null) : convert target e = .ok .keep := by
  simp [convert, h]

end CppEmission
