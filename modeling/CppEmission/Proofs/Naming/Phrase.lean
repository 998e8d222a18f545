import CppEmission.Proofs.Naming.Escaped
import CppEmission.Proofs.Outcome

namespace CppEmission

open Keyword (escape)

theorem Repeats.attach (l l' : Location) (x : Except Refusal α) :
    Repeats (l'.attach x) (l.attach x) := by
  cases x with
  | ok a => exact .refl _
  | error why => exact .error _ _

def Scope.escaped (s : Scope) : Scope := ⟨s.class?.map (·.escaped), s.method?.map (·.escaped)⟩

def Context.escaped (cx : Context) : Context :=
  { cx with program := cx.program.escaped, scope := cx.scope.escaped }

structure Operand.Escapes (o' o : Operand) : Prop where
  expr : o'.expr = o.expr.escaped
  within : ∀ parent, Repeats (o'.within parent) (o.within parent)

namespace Operand.Escapes

variable {o o' l l' r r' : Operand} {parent : Priority}

theorem ty (h : Escapes o' o) : o'.expr.ty = o.expr.ty := by rw [h.expr, Expr.ty_escaped]

theorem isLiteral (h : Escapes o' o) : o'.expr.isLiteral = o.expr.isLiteral := by
  rw [h.expr, Expr.isLiteral_escaped]

theorem access (h : Escapes o' o) : o'.access = o.access := by
  rw [Operand.access, Operand.access, h.expr, Expr.isSelf_escaped, Expr.ty_escaped]

theorem member (h : Escapes o' o) (name : String) : Repeats (o'.member name) (o.member name) := by
  rw [Operand.member, Operand.member, h.access]
  exact (h.within _).bind fun _ => .refl _

theorem prefixed (op : PrefixOp) (h : Escapes o' o) :
    Repeats (prefixed op o' parent) (prefixed op o parent) :=
  (h.within _).bind fun _ => .refl _

theorem postfixed (op : PostfixOp) (h : Escapes o' o) :
    Repeats (postfixed op o') (postfixed op o) :=
  (h.within _).bind fun _ => .refl _

theorem between (op : BinaryOp) (hl : Escapes l' l) (hr : Escapes r' r) :
    Repeats (between op l' r' parent) (between op l r parent) :=
  (hl.within _).bind fun _ => (hr.within _).bind fun _ => .refl _

theorem indexed (hl : Escapes l' l) (hr : Escapes r' r) :
    Repeats (indexed l' r') (indexed l r) :=
  (hl.within _).bind fun _ => (hr.within _).bind fun _ => .refl _

theorem comparedAsView (op : BinaryOp) (hl : Escapes l' l) (hr : Escapes r' r) :
    Repeats (comparedAsView op l' r' parent) (comparedAsView op l r parent) :=
  (hl.within _).bind fun _ => (hr.within _).bind fun _ => .refl _

theorem appendedAsText (hl : Escapes l' l) (hr : Escapes r' r) :
    Repeats (appendedAsText l' r' parent) (appendedAsText l r parent) :=
  (hl.within _).bind fun _ => (hr.within _).bind fun _ => .refl _

theorem asOwned (h : Escapes o' o) : Repeats o'.asOwned o.asOwned :=
  (h.within _).bind fun _ => .refl _

theorem asNumberText (h : Escapes o' o) : Repeats o'.asNumberText o.asNumberText :=
  (h.within _).bind fun _ => .refl _

theorem leadingSummand (h : Escapes o' o) : Repeats o'.leadingSummand o.leadingSummand := by
  rw [Operand.leadingSummand, Operand.leadingSummand, h.ty]
  split
  · exact h.within _
  · exact h.asOwned
  · exact h.asNumberText

theorem trailingSummand (h : Escapes o' o) : Repeats o'.trailingSummand o.trailingSummand := by
  rw [Operand.trailingSummand, Operand.trailingSummand, h.ty, h.isLiteral]
  split
  · exact h.within _
  · split
    · exact h.within _
    · exact h.asOwned
  · exact h.asNumberText

theorem stringSum (hl : Escapes l' l) (hr : Escapes r' r) :
    Repeats (stringSum l' r' parent) (stringSum l r parent) :=
  hl.leadingSummand.bind fun _ => hr.trailingSummand.bind fun _ => .refl _

theorem stringReceiver (h : Escapes o' o) : Repeats o'.stringReceiver o.stringReceiver := by
  rw [Operand.stringReceiver, Operand.stringReceiver, h.isLiteral]
  split
  · exact (h.within _).bind fun _ => .refl _
  · exact h.within _

theorem printable (h : Escapes o' o) : Repeats o'.printable o.printable := by
  rw [Operand.printable, Operand.printable, h.ty]
  split
  · split
    · exact (h.within _).bind fun _ => .refl _
    · exact h.within _
  · exact h.within _

theorem texts {os' os : List Operand} (h : List.Forall₂ Escapes os' os) (parent : Priority) :
    Repeats (os'.mapM (·.within parent)) (os.mapM (·.within parent)) :=
  .mapM (h.imp fun _ _ h => h.within parent)

end Operand.Escapes

namespace Context

open Operand (Escapes)

variable {cx : Context} {o o' l l' r r' : Operand} {parent : Priority}

theorem typeName_escaped (t : Ty) : Repeats (cx.escaped.typeName t) (cx.typeName t) :=
  .attach _ _ _

theorem isClass_escaped (name : String) :
    cx.escaped.scope.isClass name = cx.scope.isClass name := by
  cases within : cx.scope.class? <;> simp [escaped, Scope.escaped, Scope.isClass, within, Class.escaped]

theorem qualified_escaped (c name : String) : cx.escaped.qualified c name = cx.qualified c name := by
  rw [qualified, qualified, isClass_escaped]

theorem returnTy?_escaped : cx.escaped.scope.returnTy? = cx.scope.returnTy? := by
  cases within : cx.scope.method? <;>
    simp [escaped, Scope.escaped, Scope.returnTy?, within, Method.escaped]

theorem compared_escaped (op : BinaryOp) (hl : Escapes l' l) (hr : Escapes r' r) :
    Repeats (cx.escaped.compared op l' r' parent) (cx.compared op l r parent) := by
  have literal : l'.isStringLiteral = l.isStringLiteral := by
    rw [Operand.isStringLiteral, Operand.isStringLiteral, hl.isLiteral, hl.ty]
  rw [compared, compared, literal]
  exact .ite (hl.comparedAsView op hr) (hl.between op hr)

theorem concatenated_escaped (hl : Escapes l' l) (hr : Escapes r' r) :
    Repeats (cx.escaped.concatenated l' r' parent) (cx.concatenated l r parent) :=
  .ite (hl.stringSum hr) (hl.between _ hr)

theorem stringCall_escaped (method : String) (hr : Escapes r' r) {os os' : List Operand}
    (h : List.Forall₂ Escapes os' os) : Repeats (stringCall method r' os') (stringCall method r os) :=
  hr.stringReceiver.bind fun _ => (Escapes.texts h _).bind fun _ => .refl _

theorem containerCall_escaped (method : String) (hr : Escapes r' r) {os os' : List Operand}
    (h : List.Forall₂ Escapes os' os) :
    Repeats (containerCall method r' os') (containerCall method r os) :=
  (hr.within _).bind fun _ => (Escapes.texts h _).bind fun _ => .refl _

theorem countCall_escaped (note : Note) (method : String) (hr : Escapes r' r) :
    Repeats (cx.escaped.countCall note method r') (cx.countCall note method r) :=
  (typeName_escaped _).bind fun _ => hr.stringReceiver.bind fun _ => .refl _

theorem construction_escaped (note : Note) {length length' : Option Operand}
    (h : Option.Rel Escapes length' length) :
    Repeats (cx.escaped.construction note length') (cx.construction note length) := by
  obtain ⟨ty, span⟩ := note
  rw [construction.eq_def cx]
  dsimp only
  split
  case h_1 | h_2 => exact .refl _
  case h_3 =>
    rcases h with ⟨h⟩
    exact (typeName_escaped _).bind fun _ => (h.within _).bind fun _ => .refl _
  case h_5 | h_6 | h_7 => exact (typeName_escaped _).bind fun _ => .refl _
  case h_4 | h_8 => exact .error _ _

theorem symbolText_escaped (note : Note) (s : Symbol) {left left' : Option Operand}
    (h : Option.Rel Escapes left' left) :
    Repeats (cx.escaped.symbolText note left' { s with name := escape s.name })
      (cx.symbolText note left s) := by
  obtain ⟨name, kind⟩ := s
  unfold symbolText
  simp only [Keyword.escape_escape, qualified_escaped]
  cases kind with
  | localVar | parameter | enumConstant => exact .refl _
  | field c isStatic =>
    cases isStatic with
    | true => cases h <;> exact .refl _
    | false =>
      cases h with
      | none => exact .refl _
      | some h =>
        simp only [h.expr, Expr.isBase_escaped]
        exact .ite (.error _ _) (h.member _)
  | constant c =>
    cases c with
    | none => exact .refl _
    | some c => cases h <;> exact .refl _

theorem calleeText_escaped (f : Signature) {receiver receiver' : Option Operand}
    (h : Option.Rel Escapes receiver' receiver) :
    Repeats (cx.escaped.calleeText { f with name := escape f.name } receiver')
      (cx.calleeText f receiver) := by
  unfold calleeText
  simp only [Keyword.escape_escape, qualified_escaped]
  cases h with
  | none => exact .refl _
  | some h =>
    simp only [h.expr, Expr.isBase_escaped]
    exact .ite (.refl _) (h.member _)

theorem resourceText_escaped (note : Note) (name : String) :
    Repeats (cx.escaped.resourceText note name) (cx.resourceText note name) :=
  .ite (.refl _) (.error _ _)

theorem around_escaped (c : Conversion) {x y : Priority → Except EmitError String}
    (h : ∀ parent, Repeats (y parent) (x parent)) (parent : Priority) :
    Repeats (c.around y parent) (c.around x parent) := by
  cases c with
  | keep => exact h parent
  | prepend | append | call => exact (h _).bind fun _ => .refl _

section Conversions

variable (hcx : cx.dialect.convert = convert)

include hcx

theorem coercedWithin_escaped (t : Ty) (h : Escapes o' o) (parent : Priority) :
    Repeats (cx.escaped.coercedWithin t o' parent) (cx.coercedWithin t o parent) := by
  have convert : cx.escaped.dialect.convert t o'.expr = cx.dialect.convert t o.expr := by
    show cx.dialect.convert t o'.expr = _
    rw [hcx, h.expr, convert_escaped]
  rw [coercedWithin, coercedWithin, convert]
  exact (Repeats.attach _ _ _).bind fun c => around_escaped c h.within parent

theorem items_escaped (elem : Option Ty) {os os' : List Operand}
    (h : List.Forall₂ Escapes os' os) : Repeats (cx.escaped.items elem os') (cx.items elem os) := by
  induction h with
  | nil => exact .refl _
  | cons h _ ih =>
    cases elem with
    | none => exact (h.within _).bind fun _ => ih.bind fun _ => .refl _
    | some t => exact (coercedWithin_escaped hcx t h _).bind fun _ => ih.bind fun _ => .refl _

theorem arguments_escaped (params : List Ty) {os os' : List Operand}
    (h : List.Forall₂ Escapes os' os) :
    Repeats (cx.escaped.arguments params os') (cx.arguments params os) := by
  induction h generalizing params with
  | nil => cases params <;> exact .refl _
  | cons h _ ih =>
    cases params with
    | nil =>
      rw [arguments, arguments]
      exact (h.within _).bind fun _ => (ih []).bind fun _ => .refl _
    | cons t params =>
      rw [arguments, arguments]
      exact (coercedWithin_escaped hcx t h _).bind fun _ => (ih params).bind fun _ => .refl _

theorem declared_escaped (name : String) (ty : Ty) {value value' : Option Operand}
    (h : Option.Rel Escapes value' value) :
    Repeats (cx.escaped.declared (escape name) ty value') (cx.declared name ty value) := by
  rw [declared, declared, Keyword.escape_escape]
  refine (typeName_escaped ty).bind fun _ => ?_
  cases h with
  | none => exact .refl _
  | some h => exact (coercedWithin_escaped hcx ty h _).bind fun _ => .refl _

theorem assignedAsIs_escaped (op : BinaryOp) (hl : Escapes l' l) (hr : Escapes r' r) :
    Repeats (cx.escaped.assignedAsIs op l' r' parent) (cx.assignedAsIs op l r parent) := by
  rw [assignedAsIs, assignedAsIs, hl.ty]
  by_cases plain : op = .assign
  · rw [if_pos plain, if_pos plain]
    exact (coercedWithin_escaped hcx _ hr _).bind fun _ => (hl.within _).bind fun _ => .refl _
  · rw [if_neg plain, if_neg plain]
    exact (hr.within _).bind fun _ => (hl.within _).bind fun _ => .refl _

theorem assigned_escaped (op : BinaryOp) (hl : Escapes l' l) (hr : Escapes r' r) :
    Repeats (cx.escaped.assigned op l' r' parent) (cx.assigned op l r parent) := by
  rw [assigned, assigned, hl.ty, hr.ty]
  exact .ite (hl.appendedAsText hr) (assignedAsIs_escaped hcx op hl hr)

theorem binary_escaped (ty : Ty) (op : BinaryOp) (hl : Escapes l' l) (hr : Escapes r' r) :
    Repeats (cx.escaped.binary ty op l' r' parent) (cx.binary ty op l r parent) :=
  .ite (assigned_escaped hcx op hl hr) (.ite (compared_escaped op hl hr)
    (.ite (concatenated_escaped hl hr) (.ite (hl.indexed hr) (hl.between op hr))))

theorem conditional_escaped (ty : Ty) (h : Escapes o' o) (hl : Escapes l' l) (hr : Escapes r' r) :
    Repeats (cx.escaped.conditional ty o' l' r' parent) (cx.conditional ty o l r parent) :=
  (h.within _).bind fun _ => (coercedWithin_escaped hcx ty hl _).bind fun _ =>
    (coercedWithin_escaped hcx ty hr _).bind fun _ => .refl _

theorem element_escaped (hr : Escapes r' r) (h : Escapes o' o) :
    Repeats (cx.escaped.element r' o') (cx.element r o) := by
  rw [element, element, hr.ty]
  split
  · exact coercedWithin_escaped hcx _ h _
  · exact h.within _

theorem extremum_escaped (note : Note) (function : String) (hl : Escapes l' l)
    (hr : Escapes r' r) :
    Repeats (cx.escaped.extremum note function l' r') (cx.extremum note function l r) :=
  (typeName_escaped _).bind fun _ => (coercedWithin_escaped hcx _ hl _).bind fun _ =>
    (coercedWithin_escaped hcx _ hr _).bind fun _ => .refl _

-- the branches in the order of the definition; in the last one there is nothing to repeat
theorem libraryCall_escaped (note : Note) (f : Intrinsic) {receiver receiver' : Option Operand}
    {args args' : List Operand} (hr : Option.Rel Escapes receiver' receiver)
    (ha : List.Forall₂ Escapes args' args) :
    Repeats (cx.escaped.libraryCall note f receiver' args' parent)
      (cx.libraryCall note f receiver args parent) := by
  rw [libraryCall.eq_def cx]
  split
  case h_1 =>
    rcases hr with ⟨hr⟩
    rcases ha with _ | ⟨ha, _ | _⟩
    exact hr.stringReceiver.bind fun _ => (ha.within _).bind fun _ => .refl _
  case h_2 | h_3 | h_4 =>
    rcases hr with ⟨hr⟩
    rcases ha with _ | ⟨ha, _ | _⟩
    exact stringCall_escaped _ hr (.cons ha .nil)
  case h_5 =>
    rcases hr with ⟨hr⟩
    rcases ha with _ | ⟨ha, _ | ⟨hb, _ | _⟩⟩
    exact stringCall_escaped _ hr (.cons ha (.cons hb .nil))
  case h_6 | h_7 =>
    rcases hr with ⟨hr⟩
    rcases ha with _ | _
    exact countCall_escaped note _ hr
  case h_8 =>
    rcases hr with ⟨hr⟩
    rcases ha with _ | ⟨ha, _ | _⟩
    exact (hr.within _).bind fun _ => (element_escaped hcx hr ha).bind fun _ => .refl _
  case h_9 =>
    rcases hr with ⟨hr⟩
    rcases ha with _ | ⟨ha, _ | ⟨hb, _ | _⟩⟩
    exact (hr.within _).bind fun _ => (ha.within _).bind fun _ =>
      (element_escaped hcx hr hb).bind fun _ => .refl _
  case h_10 =>
    rcases hr with ⟨hr⟩
    rcases ha with _ | ⟨ha, _ | _⟩
    exact (hr.within _).bind fun _ => (ha.within _).bind fun _ => .refl _
  case h_11 | h_12 =>
    rcases hr with ⟨hr⟩
    rcases ha with _ | _
    exact containerCall_escaped _ hr .nil
  case h_13 =>
    rcases hr with ⟨hr⟩
    rcases ha with _ | ⟨ha, _ | _⟩
    exact (hr.within _).bind fun _ => (element_escaped hcx hr ha).bind fun _ => .refl _
  case h_14 | h_15 =>
    rcases hr with ⟨hr⟩
    rcases ha with _ | ⟨ha, _ | _⟩
    exact containerCall_escaped _ hr (.cons ha .nil)
  case h_16 | h_17 =>
    rcases ha with _ | ⟨ha, _ | ⟨hb, _ | _⟩⟩
    exact extremum_escaped hcx note _ ha hb
  case h_18 =>
    rcases ha with _ | ⟨ha, _ | _⟩
    exact (ha.within _).bind fun _ => .refl _
  case h_19 =>
    rcases ha with _ | _
    exact .refl _
  case h_20 =>
    rcases ha with _ | ⟨ha, _ | _⟩
    exact ha.printable.bind fun _ => .refl _
  case h_21 => exact .error _ _

theorem methodCall_escaped (f : Signature) {receiver receiver' : Option Operand}
    {args args' : List Operand} (hr : Option.Rel Escapes receiver' receiver)
    (ha : List.Forall₂ Escapes args' args) :
    Repeats (cx.escaped.methodCall { f with name := escape f.name } receiver' args')
      (cx.methodCall f receiver args) :=
  (arguments_escaped hcx f.params ha).bind fun _ => (calleeText_escaped f hr).bind fun _ => .refl _

end Conversions

mutual

-- along the recursion of `render`
theorem renders_escaped (hcx : cx.dialect.convert = convert) : ∀ (e : Expr) (parent : Priority),
    Repeats (cx.escaped.render e.escaped parent) (cx.render e parent)
  | .literal .., _ => (Repeats.attach _ _ _).bind fun _ => .refl _
  | .symbol note left s, _ => symbolText_escaped note s (operand?_escaped hcx left)
  | .self _, _ => .refl _
  | .base _, _ => .error _ _
  | .prefixed _ op e, _ => Escapes.prefixed op ⟨rfl, renders_escaped hcx e⟩
  | .postfixed _ op e, _ => Escapes.postfixed op ⟨rfl, renders_escaped hcx e⟩
  | .binary note op l r, _ =>
    binary_escaped hcx note.ty op ⟨rfl, renders_escaped hcx l⟩ ⟨rfl, renders_escaped hcx r⟩
  | .conditional note c t f, _ =>
    conditional_escaped hcx note.ty ⟨rfl, renders_escaped hcx c⟩ ⟨rfl, renders_escaped hcx t⟩
      ⟨rfl, renders_escaped hcx f⟩
  | .collection _ es, _ => (items_escaped hcx _ (operands_escaped hcx es)).bind fun _ => .refl _
  | .varDecl _ name ty value, _ => declared_escaped hcx name ty (operand?_escaped hcx value)
  | .call _ f receiver args, _ =>
    methodCall_escaped hcx f (operand?_escaped hcx receiver) (operands_escaped hcx args)
  | .intrinsic note f receiver args, _ =>
    libraryCall_escaped hcx note f (operand?_escaped hcx receiver) (operands_escaped hcx args)
  | .new note length, _ => construction_escaped note (operand?_escaped hcx length)
  | .resource note name, _ => resourceText_escaped note name

theorem operand?_escaped (hcx : cx.dialect.convert = convert) : ∀ o : Option Expr,
    Option.Rel Escapes (cx.escaped.operand? (Expr.optEscaped o)) (cx.operand? o)
  | none => .none
  | some e => .some ⟨rfl, renders_escaped hcx e⟩

theorem operands_escaped (hcx : cx.dialect.convert = convert) : ∀ es : List Expr,
    List.Forall₂ Escapes (cx.escaped.operands (Expr.allEscaped es)) (cx.operands es)
  | [] => .nil
  | e :: rest => .cons ⟨rfl, renders_escaped hcx e⟩ (operands_escaped hcx rest)

end

section Rendering

variable (hcx : cx.dialect.convert = convert)

include hcx

theorem operand_escaped (e : Expr) : Escapes (cx.escaped.operand e.escaped) (cx.operand e) :=
  ⟨rfl, renders_escaped hcx e⟩

theorem render_escaped (e : Expr) (parent : Priority) :
    Repeats (cx.escaped.render e.escaped parent) (cx.render e parent) :=
  (operand_escaped hcx e).within parent

theorem coerce_escaped (t : Ty) (e : Expr) (parent : Priority) :
    Repeats (cx.escaped.coerce t e.escaped parent) (cx.coerce t e parent) :=
  coercedWithin_escaped hcx t (operand_escaped hcx e) parent

end Rendering

end Context

end CppEmission
