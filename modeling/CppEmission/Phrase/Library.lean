import CppEmission.Phrase.Basic

namespace CppEmission

namespace Intrinsic

def takesReceiver : Intrinsic → Bool
  | mathMin | mathMax | mathAbs | consoleWriteLine => false
  | _ => true

def arity : Intrinsic → Nat
  | stringLength | listClear | listCount | mapClear => 0
  | stringContains | stringStartsWith | stringEndsWith | listAdd | listRemoveAt | listContains
  | mapContainsKey | mapRemove | mathAbs | consoleWriteLine => 1
  | stringSubstring | listInsert | mathMin | mathMax => 2

def misuse (f : Intrinsic) (hasReceiver : Bool) (given : Nat) : Refusal :=
  if f.takesReceiver && !hasReceiver then .noReceiver f
  else if f = consoleWriteLine then .tooManyArguments f given
  else .wrongArity f given f.arity

end Intrinsic

namespace Operand

def stringReceiver (o : Operand) : Except EmitError String :=
  if o.expr.isLiteral then do return "std::string_view(" ++ (← o.within .statement) ++ ")"
  else o.within .primary

/-- An operand of an output stream. A narrow integer could print as a character and is widened. -/
def printable (o : Operand) : Except EmitError String :=
  match o.expr.ty with
  | .int k =>
    if k.isNarrow then do return "static_cast<int>(" ++ (← o.within .statement) ++ ")"
    else o.within .additive
  | _ => o.within .additive

def methodCall (receiver method : String) (args : List String) : String :=
  receiver ++ "." ++ method ++ "(" ++ joined args ++ ")"

end Operand

namespace Context

def refuse (cx : Context) {α : Type} (span : Span) (why : Refusal) : Except EmitError α :=
  .error (.refused why (cx.location span))

def element (cx : Context) (receiver value : Operand) : Except EmitError String :=
  match receiver.expr.ty with
  | .list elem => cx.coercedWithin elem value .statement
  | _ => value.within .statement

def stringCall (method : String) (r : Operand) (args : List Operand) :
    Except EmitError String := do
  let receiver ← r.stringReceiver
  let args ← args.mapM (·.within .statement)
  return Operand.methodCall receiver method args

def containerCall (method : String) (r : Operand) (args : List Operand) :
    Except EmitError String := do
  let receiver ← r.within .primary
  let args ← args.mapM (·.within .statement)
  return Operand.methodCall receiver method args

def countCall (cx : Context) (note : Note) (method : String) (r : Operand) :
    Except EmitError String := do
  let typeName ← cx.typeName note.ty
  let receiver ← r.stringReceiver
  return "static_cast<" ++ typeName ++ ">(" ++ receiver ++ "." ++ method ++ "())"

def extremum (cx : Context) (note : Note) (function : String) (a b : Operand) :
    Except EmitError String := do
  let typeName ← cx.typeName note.ty
  let first ← cx.coercedWithin note.ty a .statement
  let second ← cx.coercedWithin note.ty b .statement
  return function ++ "<" ++ typeName ++ ">(" ++ joined [first, second] ++ ")"

/-- A call of a library method. A search is written as the comparison of its result and an output
with its operators, and both are parenthesized by their contexts. -/
def libraryCall (cx : Context) (note : Note) (f : Intrinsic) (receiver : Option Operand)
    (args : List Operand) : Priority → Except EmitError String :=
  match f, receiver, args with
  | .stringContains, some r, [a] => fun parent => do
    let text ← r.stringReceiver
    let part ← a.within .statement
    let found := text ++ ".find(" ++ part ++ ") != std::string::npos"
    return Phrase.within ⟨found, .equality, []⟩ parent
  | .stringStartsWith, some r, [a] => fun _ => stringCall "starts_with" r [a]
  | .stringEndsWith, some r, [a] => fun _ => stringCall "ends_with" r [a]
  | .stringSubstring, some r, [a] => fun _ => stringCall "substr" r [a]
  | .stringSubstring, some r, [a, b] => fun _ => stringCall "substr" r [a, b]
  | .stringLength, some r, [] => fun _ => cx.countCall note "length" r
  | .listCount, some r, [] => fun _ => cx.countCall note "size" r
  | .listAdd, some r, [a] => fun _ => do
    let list ← r.within .primary
    let value ← cx.element r a
    return Operand.methodCall list "push_back" [value]
  | .listInsert, some r, [a, b] => fun _ => do
    let list ← r.within .primary
    let index ← a.within .multiplicative
    let value ← cx.element r b
    return Operand.methodCall list "insert" [list ++ ".begin() + " ++ index, value]
  | .listRemoveAt, some r, [a] => fun _ => do
    let list ← r.within .primary
    let index ← a.within .multiplicative
    return Operand.methodCall list "erase" [list ++ ".begin() + " ++ index]
  | .listClear, some r, [] => fun _ => containerCall "clear" r []
  | .mapClear, some r, [] => fun _ => containerCall "clear" r []
  | .listContains, some r, [a] => fun parent => do
    let list ← r.within .primary
    let value ← cx.element r a
    let found := "std::find(" ++ joined [list ++ ".begin()", list ++ ".end()", value] ++ ") != " ++
      list ++ ".end()"
    return Phrase.within ⟨found, .equality, []⟩ parent
  | .mapContainsKey, some r, [a] => fun _ => containerCall "contains" r [a]
  | .mapRemove, some r, [a] => fun _ => containerCall "erase" r [a]
  | .mathMin, _, [a, b] => fun _ => cx.extremum note "std::min" a b
  | .mathMax, _, [a, b] => fun _ => cx.extremum note "std::max" a b
  | .mathAbs, _, [a] => fun _ => do
    let value ← a.within .statement
    return "std::abs(" ++ value ++ ")"
  | .consoleWriteLine, _, [] => fun parent =>
    .ok (Phrase.within ⟨"std::cout << '\\n'", .shift, []⟩ parent)
  | .consoleWriteLine, _, [a] => fun parent => do
    let value ← a.printable
    return Phrase.within ⟨"std::cout << " ++ value ++ " << '\\n'", .shift, []⟩ parent
  | f, receiver, args => fun _ => cx.refuse note.span (f.misuse receiver.isSome args.length)

def construction (cx : Context) (note : Note) (length : Option Operand) :
    Except EmitError String :=
  match note.ty, length with
  | .object c (.ptr .shared), _ => .ok ("std::make_shared<" ++ c ++ ">()")
  | .object c .value, _ => .ok (c ++ "()")
  | .array elem (.pointer .shared), some n => do
    let typeName ← cx.typeName elem
    let count ← n.within .statement
    return "std::make_shared<" ++ typeName ++ "[]>(" ++ count ++ ")"
  | .array _ (.pointer .shared), none => cx.refuse note.span .noLength
  | .array _ (.storage _), _ => do
    return (← cx.typeName note.ty) ++ "\x7b\x7d"
  | .list _, _ | .map _ _, _ => do
    return (← cx.typeName note.ty) ++ "()"
  | t, _ => cx.refuse note.span (.construction t)

end Context

end CppEmission
