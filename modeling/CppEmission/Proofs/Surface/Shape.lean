import CppEmission.Proofs.Surface.Name

namespace CppEmission

open Surface

def Surface.Term.calling (x : Name) (args : List (Term Name)) : Term Name :=
  .call (.name x) (.items args)

def Surface.Term.calls (receiver : Term Name) (method : String) (args : List (Term Name)) :
    Term Name :=
  .call (.member receiver "." (.plain method)) (.items args)

structure Part where
  expr : Expr
  tree : Term Name

namespace Conversion

def callee : Ty → Name
  | .string _ => .library .string
  | t => .cast t

def tree (target : Ty) (t : Term Name) : Conversion → Term Name
  | keep => t
  | prepend token => .before token t
  | append suffix => t.calls (if suffix = ".get()" then "get" else "data") []
  | call _ => .calling (callee target) [t]

end Conversion

namespace Part

def converted (target : Ty) (x : Part) : Term Name :=
  match convert target x.expr with
  | .ok c => c.tree target x.tree
  | .error _ => x.tree

def items (elem : Option Ty) (xs : List Part) : List (Term Name) :=
  xs.map fun x => (elem.map x.converted).getD x.tree

def arguments : List Ty → List Part → List (Term Name)
  | _, [] => []
  | [], x :: rest => x.tree :: arguments [] rest
  | t :: params, x :: rest => x.converted t :: arguments params rest

def initial (ty : Ty) : Option Part → Term Name
  | some x => x.converted ty
  | none => if ty.needsInitializer then .list .nothing else .nothing

def member (x : Part) (name : Name) : Term Name :=
  .member x.tree (if x.expr.isSelf || x.expr.ty.handle?.isSome then "->" else ".") name

def asView (x : Part) : Term Name := .calling (.library .stringView) [x.tree]

def asOwned (x : Part) : Term Name := .calling (.library .string) [x.tree]

def asNumberText (x : Part) : Term Name := .calling (.library .toString) [x.tree]

def leadingSummand (x : Part) : Term Name :=
  match x.expr.ty with
  | .string .storage => x.tree
  | .string .view => x.asOwned
  | _ => x.asNumberText

def trailingSummand (x : Part) : Term Name :=
  match x.expr.ty with
  | .string .storage => x.tree
  | .string .view => if x.expr.isLiteral then x.tree else x.asOwned
  | _ => x.asNumberText

def stringReceiver (x : Part) : Term Name := if x.expr.isLiteral then x.asView else x.tree

def printable (x : Part) : Term Name :=
  match x.expr.ty with
  | .int k => if k.isNarrow then .calling .widen [x.tree] else x.tree
  | _ => x.tree

def element (receiver value : Part) : Term Name :=
  match receiver.expr.ty with
  | .list elem => value.converted elem
  | _ => value.tree

end Part

def Literal.tree (ty : Ty) : Literal → Term Name
  | null => .literal "nullptr"
  | bool b => .literal (if b then "true" else "false")
  | int v =>
    if v = Int64.minValue then .name (.library .leastInteger)
    else if v < 0 then .before "-" (.literal (Nat.repr v.toInt.natAbs))
    else .literal (Nat.repr v.toInt.natAbs)
  | float v =>
    let magnitude := v.shortest.text Decimal.literalLayout ++ if ty = .float then "f" else ""
    if v.isNegative then .before "-" (.literal magnitude) else .literal magnitude
  | string s => .literal (Quoted.quote s)

namespace Context

def ownName (cx : Context) (className x : String) : Name :=
  if cx.scope.isClass className then .plain x else .qualified className x

def symbolTree (cx : Context) (left : Option Part) (s : Symbol) : Term Name :=
  let x := Keyword.escape s.name
  match s.kind, left with
  | .localVar, _ | .parameter, _ | .constant none, _ | .field _ false, none => .name (.plain x)
  | .field c true, none | .constant (some c), none => .name (cx.ownName c x)
  | .field c true, some _ | .constant (some c), some _ => .name (.qualified c x)
  | .field _ false, some receiver => receiver.member (.plain x)
  | .enumConstant e, _ => .name (.qualified e x)

def comparisonTree (cx : Context) (op : BinaryOp) (l r : Part) : Term Name :=
  .between op.spelling
    (if cx.dialect.stringOperators && (l.expr.isLiteral && l.expr.ty.isString) then l.asView
      else l.tree) r.tree

def assignmentTree (cx : Context) (op : BinaryOp) (l r : Part) : Term Name :=
  if cx.dialect.stringOperators && op = .addAssign && l.expr.ty.isString && !r.expr.ty.isString then
    .between "+=" l.tree r.asNumberText
  else .between op.spelling l.tree (if op = .assign then r.converted l.expr.ty else r.tree)

def concatenationTree (cx : Context) (l r : Part) : Term Name :=
  if cx.dialect.stringOperators then .between "+" l.leadingSummand r.trailingSummand
  else .between "+" l.tree r.tree

def binaryTree (cx : Context) (ty : Ty) (op : BinaryOp) (l r : Part) : Term Name :=
  if op.isAssignment then cx.assignmentTree op l r
  else if op.isEquality || op.isComparison then cx.comparisonTree op l r
  else if op = .add && ty.isString then cx.concatenationTree l r
  else if op = .index then .index l.tree r.tree
  else .between op.spelling l.tree r.tree

def calleeTree (cx : Context) (f : Signature) (receiver : Option Part) : Term Name :=
  let x := Keyword.escape f.name
  match receiver with
  | none => .name (if f.isStatic then cx.ownName f.className x else .plain x)
  | some r =>
    if f.isStatic || r.expr.isBase then .name (.qualified f.className x) else r.member (.plain x)

def refused : Term Name := .literal "nullptr"

def libraryTree (note : Note) (f : Intrinsic) (receiver : Option Part) (args : List Part) :
    Term Name :=
  match f, receiver, args with
  | .stringContains, some r, [a] =>
    .between "!=" (r.stringReceiver.calls "find" [a.tree]) (.name (.library .npos))
  | .stringStartsWith, some r, [a] => r.stringReceiver.calls "starts_with" [a.tree]
  | .stringEndsWith, some r, [a] => r.stringReceiver.calls "ends_with" [a.tree]
  | .stringSubstring, some r, args => r.stringReceiver.calls "substr" (args.map (·.tree))
  | .stringLength, some r, [] => .calling (.cast note.ty) [r.stringReceiver.calls "length" []]
  | .listCount, some r, [] => .calling (.cast note.ty) [r.stringReceiver.calls "size" []]
  | .listAdd, some r, [a] => r.tree.calls "push_back" [r.element a]
  | .listInsert, some r, [a, b] =>
    r.tree.calls "insert" [.between "+" (r.tree.calls "begin" []) a.tree, r.element b]
  | .listRemoveAt, some r, [a] =>
    r.tree.calls "erase" [.between "+" (r.tree.calls "begin" []) a.tree]
  | .listClear, some r, [] | .mapClear, some r, [] => r.tree.calls "clear" []
  | .listContains, some r, [a] =>
    .between "!="
      (.calling (.library .find) [r.tree.calls "begin" [], r.tree.calls "end" [], r.element a])
      (r.tree.calls "end" [])
  | .mapContainsKey, some r, [a] => r.tree.calls "contains" [a.tree]
  | .mapRemove, some r, [a] => r.tree.calls "erase" [a.tree]
  | .mathMin, _, [a, b] => .calling (.min note.ty) [a.converted note.ty, b.converted note.ty]
  | .mathMax, _, [a, b] => .calling (.max note.ty) [a.converted note.ty, b.converted note.ty]
  | .mathAbs, _, [a] => .calling (.library .abs) [a.tree]
  | .consoleWriteLine, _, [] => .between "<<" (.name (.library .cout)) (.literal "'\\n'")
  | .consoleWriteLine, _, [a] =>
    .between "<<" (.between "<<" (.name (.library .cout)) a.printable) (.literal "'\\n'")
  | _, _, _ => refused

def constructionTree (ty : Ty) (length : Option Part) : Term Name :=
  match ty, length with
  | .object c (.ptr .shared), _ => .calling (.makeShared c) []
  | .array elem (.pointer .shared), some n => .calling (.makeSharedArray elem) [n.tree]
  | .array elem (.storage n), _ => .braces (.type (.array elem (.storage n)))
  | .object c .value, _ => .calling (.type (.object c .value)) []
  | .list elem, _ => .calling (.type (.list elem)) []
  | .map key value, _ => .calling (.type (.map key value)) []
  | _, _ => refused

mutual

def tree (cx : Context) : Expr → Term Name
  | .literal note l => l.tree note.ty
  | .symbol _ left s => cx.symbolTree (cx.part? left) s
  | .self _ => .literal "this"
  | .base _ => refused
  | .prefixed _ op e => .before op.spelling (cx.tree e)
  | .postfixed _ op e => .after op.spelling (cx.tree e)
  | .binary note op l r => cx.binaryTree note.ty op ⟨l, cx.tree l⟩ ⟨r, cx.tree r⟩
  | .conditional note c t f =>
    .conditional (cx.tree c) (Part.converted note.ty ⟨t, cx.tree t⟩)
      (Part.converted note.ty ⟨f, cx.tree f⟩)
  | .collection note es => .list (.items (Part.items note.ty.elem? (cx.parts es)))
  | .varDecl _ x ty value =>
    .declaration (.type ty) (.plain (Keyword.escape x)) (Part.initial ty (cx.part? value))
  | .call _ f receiver args =>
    .call (cx.calleeTree f (cx.part? receiver)) (.items (Part.arguments f.params (cx.parts args)))
  | .intrinsic note f receiver args => libraryTree note f (cx.part? receiver) (cx.parts args)
  | .new note length => constructionTree note.ty (cx.part? length)
  | .resource _ name => .name (.plain (resourceIdentifier name))

def part? (cx : Context) : Option Expr → Option Part
  | none => none
  | some e => some ⟨e, cx.tree e⟩

def parts (cx : Context) : List Expr → List Part
  | [] => []
  | e :: rest => ⟨e, cx.tree e⟩ :: cx.parts rest

end

def part (cx : Context) (e : Expr) : Part := ⟨e, cx.tree e⟩

end Context

end CppEmission
