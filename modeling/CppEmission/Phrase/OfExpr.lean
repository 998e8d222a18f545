import CppEmission.Phrase.Library
import CppEmission.Phrase.Operation

namespace CppEmission

def resourceIdentifier (name : String) : String :=
  String.ofList (name.toList.map fun c => if c.isAlphanum then c else '_')

/-- A literal that starts with a minus sign binds like a negation. -/
def Literal.level (l : Literal) : Priority := if l.isNegative then .unary else .primary

namespace Context

/-- A name. Static fields and constants are reached through their class even where the source
goes through an object. -/
def symbolText (cx : Context) (note : Note) (left : Option Operand) (s : Symbol) :
    Except EmitError String :=
  let name := Keyword.escape s.name
  match s.kind, left with
  | .localVar, _ | .parameter, _ | .constant none, _ | .field _ false, none => .ok name
  | .field c true, none | .constant (some c), none => .ok (cx.qualified c name)
  | .field c true, some _ | .constant (some c), some _ => .ok (c ++ "::" ++ name)
  | .field _ false, some receiver =>
    if receiver.expr.isBase then cx.refuse note.span .fieldThroughBase else receiver.member name
  | .enumConstant e, _ => .ok (e ++ "::" ++ name)

def calleeText (cx : Context) (f : Signature) (receiver : Option Operand) :
    Except EmitError String :=
  let name := Keyword.escape f.name
  match receiver with
  | none => .ok (if f.isStatic then cx.qualified f.className name else name)
  | some r =>
    if f.isStatic || r.expr.isBase then .ok (f.className ++ "::" ++ name) else r.member name

def methodCall (cx : Context) (f : Signature) (receiver : Option Operand) (args : List Operand) :
    Except EmitError String := do
  let args ← cx.arguments f.params args
  let callee ← cx.calleeText f receiver
  return callee ++ "(" ++ joined args ++ ")"

def resourceText (cx : Context) (note : Note) (name : String) : Except EmitError String :=
  if cx.program.hasResource name then .ok (resourceIdentifier name)
  else cx.refuse note.span (.unknownResource name)

def literal (cx : Context) (note : Note) (l : Literal) (parent : Priority) :
    Except EmitError String := do
  let text ← (cx.location note.span).attach (l.text note.ty)
  return Phrase.within ⟨text, l.level, []⟩ parent

def collection (cx : Context) (note : Note) (items : List Operand) : Except EmitError String := do
  let texts ← cx.items note.ty.elem? items
  return "\x7b" ++ joined texts ++ "\x7d"

mutual

/-- The text of an expression in a context that binds at `parent`. -/
def render (cx : Context) : Expr → Priority → Except EmitError String
  | .literal note l => cx.literal note l
  | .symbol note left s => fun _ => cx.symbolText note (cx.operand? left) s
  | .self _ => fun _ => .ok "this"
  | .base note => fun _ => cx.refuse note.span .baseOutsideCall
  | .prefixed _ op e => Operand.prefixed op ⟨e, cx.render e⟩
  | .postfixed _ op e => fun _ => Operand.postfixed op ⟨e, cx.render e⟩
  | .binary note op l r => cx.binary note.ty op ⟨l, cx.render l⟩ ⟨r, cx.render r⟩
  | .conditional note c t f =>
    cx.conditional note.ty ⟨c, cx.render c⟩ ⟨t, cx.render t⟩ ⟨f, cx.render f⟩
  | .collection note es => fun _ => cx.collection note (cx.operands es)
  | .varDecl _ name ty value => fun _ => cx.declared name ty (cx.operand? value)
  | .call _ f receiver args => fun _ =>
    cx.methodCall f (cx.operand? receiver) (cx.operands args)
  | .intrinsic note f receiver args =>
    cx.libraryCall note f (cx.operand? receiver) (cx.operands args)
  | .new note length => fun _ => cx.construction note (cx.operand? length)
  | .resource note name => fun _ => cx.resourceText note name

def operand? (cx : Context) : Option Expr → Option Operand
  | none => none
  | some e => some ⟨e, cx.render e⟩

def operands (cx : Context) : List Expr → List Operand
  | [] => []
  | e :: rest => ⟨e, cx.render e⟩ :: cx.operands rest

end

def operand (cx : Context) (e : Expr) : Operand := ⟨e, cx.render e⟩

/-- The text of an expression where a value of type `target` is expected. -/
def coerce (cx : Context) (target : Ty) (e : Expr) (parent : Priority) :
    Except EmitError String :=
  cx.coercedWithin target (cx.operand e) parent

end Context

end CppEmission
