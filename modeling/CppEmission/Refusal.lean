import CppEmission.Expr

namespace CppEmission

inductive Refusal
  | nullType
  | baseOutsideCall
  | fieldThroughBase
  | unknownResource (name : String)
  | noReceiver (callee : Intrinsic)
  | wrongArity (callee : Intrinsic) (given expected : Nat)
  | tooManyArguments (callee : Intrinsic) (given : Nat)
  | noLength
  | construction (ty : Ty)
  | foreachOverPointer
  | objectConversion (source : Ownership) (target : Handle)
  | arrayConversion (source : ArrayShape) (target : Handle)
  | loweredFallthrough
  | loweredBreak
  | nonLiteralConstant (name : String) (ty : Ty)
  | staticConstructor
  | bodilessMethod
  | emptyResource (name : String)
  | sharedIdentifier (first second identifier : String)
  | nonFinite (value : Decimal.Binary64)
  deriving DecidableEq

namespace Refusal

def text : Refusal → String
  | nullType => "`null` as a declared type"
  | baseOutsideCall => "`base` outside a method-call receiver"
  | fieldThroughBase => "field access through `base`"
  | unknownResource name => "reference to unknown resource `" ++ name ++ "`"
  | noReceiver f => f.name ++ " without a receiver"
  | wrongArity f given expected =>
    f.name ++ " with " ++ Nat.repr given ++ " arguments (expected " ++ Nat.repr expected ++ ")"
  | tooManyArguments f given => f.name ++ " with " ++ Nat.repr given ++ " arguments"
  | noLength => "shared array construction without a length"
  | construction ty => "construction of `" ++ ty.display ++ "`"
  | foreachOverPointer => "foreach over an array pointer (length unknown)"
  | objectConversion source target =>
    "conversion from " ++ source.name ++ " to " ++ target.name ++ " class reference"
  | arrayConversion source target =>
    "conversion from " ++ source.name ++ " array to " ++ target.name ++ " array reference"
  | loweredFallthrough => "fallthrough in a lowered string switch"
  | loweredBreak => "non-trailing `break` in a lowered string switch"
  | nonLiteralConstant name ty =>
    "constant `" ++ name ++ "` of non-literal type `" ++ ty.display ++ "`"
  | staticConstructor => "constructor body in a static class"
  | bodilessMethod => "non-abstract method without a body"
  | emptyResource name => "empty resource `" ++ name ++ "`"
  | sharedIdentifier first second identifier =>
    "resources `" ++ first ++ "` and `" ++ second ++ "` share identifier `" ++ identifier ++ "`"
  | nonFinite value => value.nonFiniteName

end Refusal

/-- Where emission stood: at a span inside a class, a method or neither, or at a resource. A rule
that sees no surroundings knows nowhere. -/
inductive Location
  | nowhere
  | code (className methodName : Option String) (span : Span)
  | resource (name : String)
  deriving DecidableEq

def Location.scopeText (className methodName : Option String) : String :=
  let outer := className.getD ""
  match methodName with
  | none => outer
  | some m => if outer.isEmpty then m else outer ++ "::" ++ m

def Location.text : Location → String
  | nowhere => ""
  | code className methodName span =>
    let scope := scopeText className methodName
    if scope.isEmpty then span.display else scope ++ " at " ++ span.display
  | resource name => name

inductive EmitError
  | refused (why : Refusal) (location : Location)
  | circularDependency (className : String)
  deriving DecidableEq

inductive Diagnostic
  | unsupported (construct location : String)
  | circularDependency (className : String)
  | unrepresentableLiteral (literal location : String)
  deriving DecidableEq

namespace Diagnostic

def message : Diagnostic → String
  | unsupported construct location =>
    "unsupported construct: " ++ construct ++ " (at " ++ location ++ ")"
  | circularDependency className =>
    "circular dependency: class `" ++ className ++
      "` depends on itself through its base class or by-value fields"
  | unrepresentableLiteral literal location =>
    "unrepresentable literal `" ++ literal ++ "` (at " ++ location ++ ")"

def code : Diagnostic → String
  | unsupported .. => "ember::emit::unsupported"
  | circularDependency .. => "ember::emit::circular_dependency"
  | unrepresentableLiteral .. => "ember::emit::unrepresentable_literal"

def help : Diagnostic → String
  | unsupported .. =>
    "the active backend cannot translate this construct; rewrite it or use a native block"
  | circularDependency .. =>
    "break the cycle by holding one of the classes through a pointer instead of by value"
  | unrepresentableLiteral .. => "compute the value at runtime instead"

end Diagnostic

namespace EmitError

def diagnostic : EmitError → Diagnostic
  | refused (.nonFinite value) location =>
    .unrepresentableLiteral value.nonFiniteName location.text
  | refused why location => .unsupported why.text location.text
  | circularDependency className => .circularDependency className

def message (e : EmitError) : String := e.diagnostic.message

end EmitError

/-- A refusal becomes an error once its place is known. -/
def Location.attach {α : Type} (location : Location) : Except Refusal α → Except EmitError α
  | .ok a => .ok a
  | .error why => .error (.refused why location)

@[simp] theorem Location.attach_ok {α : Type} (l : Location) (a : α) :
    l.attach (.ok a) = .ok a := rfl

@[simp] theorem Location.attach_error {α : Type} (l : Location) (why : Refusal) :
    l.attach (.error why : Except Refusal α) = .error (.refused why l) := rfl

end CppEmission
