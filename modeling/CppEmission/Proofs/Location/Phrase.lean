import CppEmission.Phrase.OfExpr
import CppEmission.Proofs.Phrase.Alike

namespace CppEmission

def Expr.namedTypes : Expr → List Ty
  | varDecl _ _ ty _ => [ty]
  | intrinsic note f _ _ => if f.namesType then [note.ty] else []
  | new note length =>
    match note.ty, length with
    | .array elem (.pointer .shared), some _ => [elem]
    | .array _ (.storage _), _ | .list _, _ | .map _ _, _ => [note.ty]
    | _, _ => []
  | _ => []

namespace Context

def IsHere (cx : Context) (e : EmitError) : Prop :=
  ∃ why span, e = .refused why (cx.location span)

def IsAt (cx : Context) (allows : Refusal → Span → Prop) (e : EmitError) : Prop :=
  ∃ why span, e = .refused why (cx.location span) ∧ allows why span

structure Admits (cx : Context) (allows : Refusal → Span → Prop) (e : Expr) : Prop where
  own : ∀ why, why ≠ .nullType → allows why e.span
  converted : ∀ t why, cx.dialect.convert t e = .error why → allows why e.span
  named : ∀ t ∈ e.namedTypes, ∀ why, t.spelling = .error why → allows why {}

theorem isAt_true (cx : Context) : cx.IsAt (fun _ _ => True) = cx.IsHere := by
  funext e
  simp only [IsAt, IsHere, and_true]

theorem admits_true (cx : Context) (e : Expr) : cx.Admits (fun _ _ => True) e :=
  ⟨fun _ _ => trivial, fun _ _ _ => trivial, fun _ _ _ _ => trivial⟩

end Context

theorem FailsOnly.attach {cx : Context} {allows : Refusal → Span → Prop} {span : Span}
    {x : Except Refusal α} (h : ∀ why, x = .error why → allows why span) :
    FailsOnly (cx.IsAt allows) ((cx.location span).attach x) := by
  cases x with
  | ok a => exact .ok a
  | error why => exact .error ⟨why, span, rfl, h why rfl⟩

theorem Literal.text_refused {l : Literal} {t : Ty} {why : Refusal}
    (h : l.text t = .error why) : why ≠ .nullType := by
  cases l with
  | float v =>
    by_cases finite : v.isFinite
    · simp [Literal.text, finite] at h
    · simp only [Literal.text, finite] at h
      cases h
      rintro ⟨⟩
  | _ => cases h

theorem Intrinsic.misuse_ne_nullType (f : Intrinsic) (hasReceiver : Bool) (given : Nat) :
    f.misuse hasReceiver given ≠ .nullType := by
  unfold misuse
  split
  · exact nofun
  · split <;> exact nofun

def Operand.Fails (p : EmitError → Prop) (o : Operand) : Prop :=
  ∀ parent, FailsOnly p (o.within parent)

namespace Operand.Fails

variable {p : EmitError → Prop} {o l r : Operand} {parent : Priority}

theorem within (h : o.Fails p) (parent : Priority) : FailsOnly p (o.within parent) := h parent

theorem around (h : o.Fails p) (c : Conversion) (parent : Priority) :
    FailsOnly p (c.around o.within parent) := by
  cases c with
  | keep => exact h parent
  | prepend | append | call => exact (h _).bind fun _ => .ok _

theorem member (h : o.Fails p) (name : String) : FailsOnly p (o.member name) :=
  (h.within _).bind fun _ => .ok _

theorem prefixed (op : PrefixOp) (h : o.Fails p) : FailsOnly p (prefixed op o parent) :=
  (h.within _).bind fun _ => .ok _

theorem postfixed (op : PostfixOp) (h : o.Fails p) : FailsOnly p (postfixed op o) :=
  (h.within _).bind fun _ => .ok _

theorem between (op : BinaryOp) (hl : l.Fails p) (hr : r.Fails p) :
    FailsOnly p (between op l r parent) :=
  (hl.within _).bind fun _ => (hr.within _).bind fun _ => .ok _

theorem indexed (hl : l.Fails p) (hr : r.Fails p) : FailsOnly p (indexed l r) :=
  (hl.within _).bind fun _ => (hr.within _).bind fun _ => .ok _

theorem comparedAsView (op : BinaryOp) (hl : l.Fails p) (hr : r.Fails p) :
    FailsOnly p (comparedAsView op l r parent) :=
  (hl.within _).bind fun _ => (hr.within _).bind fun _ => .ok _

theorem appendedAsText (hl : l.Fails p) (hr : r.Fails p) :
    FailsOnly p (appendedAsText l r parent) :=
  (hl.within _).bind fun _ => (hr.within _).bind fun _ => .ok _

theorem asOwned (h : o.Fails p) : FailsOnly p o.asOwned := (h.within _).bind fun _ => .ok _

theorem asNumberText (h : o.Fails p) : FailsOnly p o.asNumberText :=
  (h.within _).bind fun _ => .ok _

theorem leadingSummand (h : o.Fails p) : FailsOnly p o.leadingSummand := by
  unfold Operand.leadingSummand
  split
  · exact h.within _
  · exact h.asOwned
  · exact h.asNumberText

theorem trailingSummand (h : o.Fails p) : FailsOnly p o.trailingSummand := by
  unfold Operand.trailingSummand
  split
  · exact h.within _
  · split
    · exact h.within _
    · exact h.asOwned
  · exact h.asNumberText

theorem stringSum (hl : l.Fails p) (hr : r.Fails p) : FailsOnly p (stringSum l r parent) :=
  hl.leadingSummand.bind fun _ => hr.trailingSummand.bind fun _ => .ok _

theorem stringReceiver (h : o.Fails p) : FailsOnly p o.stringReceiver := by
  unfold Operand.stringReceiver
  split
  · exact (h.within _).bind fun _ => .ok _
  · exact h.within _

theorem printable (h : o.Fails p) : FailsOnly p o.printable := by
  unfold Operand.printable
  split
  · split
    · exact (h.within _).bind fun _ => .ok _
    · exact h.within _
  · exact h.within _

theorem texts {os : List Operand} (h : ∀ o ∈ os, o.Fails p) (parent : Priority) :
    FailsOnly p (os.mapM (·.within parent)) :=
  .mapM fun o ho => (h o ho).within parent

theorem compared {cx : Context} (op : BinaryOp) (hl : l.Fails p) (hr : r.Fails p) :
    FailsOnly p (cx.compared op l r parent) := by
  unfold Context.compared
  split
  · exact hl.comparedAsView op hr
  · exact hl.between op hr

theorem concatenated {cx : Context} (hl : l.Fails p) (hr : r.Fails p) :
    FailsOnly p (cx.concatenated l r parent) := by
  unfold Context.concatenated
  split
  · exact hl.stringSum hr
  · exact hl.between _ hr

theorem stringCall (method : String) (hr : r.Fails p) {args : List Operand}
    (ha : ∀ o ∈ args, o.Fails p) : FailsOnly p (Context.stringCall method r args) :=
  hr.stringReceiver.bind fun _ => (texts ha _).bind fun _ => .ok _

theorem containerCall (method : String) (hr : r.Fails p) {args : List Operand}
    (ha : ∀ o ∈ args, o.Fails p) : FailsOnly p (Context.containerCall method r args) :=
  (hr.within _).bind fun _ => (texts ha _).bind fun _ => .ok _

end Operand.Fails

structure Operand.FailsAt (cx : Context) (allows : Refusal → Span → Prop) (o : Operand) :
    Prop where
  text : o.Fails (cx.IsAt allows)
  converted : ∀ t why, cx.dialect.convert t o.expr = .error why → allows why o.expr.span

namespace Context

variable {cx : Context} {allows : Refusal → Span → Prop} {o l r : Operand} {parent : Priority}

theorem refuse_failsAt {span : Span} {why : Refusal} (h : allows why span) :
    FailsOnly (cx.IsAt allows) (cx.refuse span why : Except EmitError α) :=
  .error ⟨why, span, rfl, h⟩

theorem typeName_failsAt {t : Ty} (h : ∀ why, t.spelling = .error why → allows why {}) :
    FailsOnly (cx.IsAt allows) (cx.typeName t) := .attach h

theorem coercedWithin_failsAt (t : Ty) (ho : o.FailsAt cx allows) (parent : Priority) :
    FailsOnly (cx.IsAt allows) (cx.coercedWithin t o parent) :=
  (FailsOnly.attach (ho.converted t)).bind fun c => ho.text.around c parent

theorem items_failsAt (elem : Option Ty) {os : List Operand}
    (ho : ∀ o ∈ os, o.FailsAt cx allows) : FailsOnly (cx.IsAt allows) (cx.items elem os) := by
  induction os with
  | nil => exact .ok []
  | cons o os ih =>
    obtain ⟨ho, hos⟩ := List.forall_mem_cons.1 ho
    cases elem with
    | none => exact (ho.text.within _).bind fun _ => (ih hos).bind fun _ => .ok _
    | some t => exact (coercedWithin_failsAt t ho _).bind fun _ => (ih hos).bind fun _ => .ok _

theorem arguments_failsAt (params : List Ty) {os : List Operand}
    (ho : ∀ o ∈ os, o.FailsAt cx allows) :
    FailsOnly (cx.IsAt allows) (cx.arguments params os) := by
  induction os generalizing params with
  | nil => cases params <;> exact .ok []
  | cons o os ih =>
    obtain ⟨ho, hos⟩ := List.forall_mem_cons.1 ho
    cases params with
    | nil => exact (ho.text.within _).bind fun _ => (ih [] hos).bind fun _ => .ok _
    | cons t params =>
      exact (coercedWithin_failsAt t ho _).bind fun _ => (ih params hos).bind fun _ => .ok _

theorem declared_failsAt (name : String) {t : Ty} {value : Option Operand}
    (ht : ∀ why, t.spelling = .error why → allows why {})
    (hv : ∀ o ∈ value, o.FailsAt cx allows) :
    FailsOnly (cx.IsAt allows) (cx.declared name t value) := by
  refine (typeName_failsAt ht).bind fun _ => ?_
  cases value with
  | none => exact .ok _
  | some o => exact (coercedWithin_failsAt t (hv o rfl) _).bind fun _ => .ok _

theorem assigned_failsAt (op : BinaryOp) (hl : l.FailsAt cx allows) (hr : r.FailsAt cx allows) :
    FailsOnly (cx.IsAt allows) (cx.assigned op l r parent) := by
  unfold assigned
  split
  · exact hl.text.appendedAsText hr.text
  · unfold assignedAsIs
    split
    · exact (coercedWithin_failsAt _ hr _).bind fun _ => (hl.text.within _).bind fun _ => .ok _
    · exact (hr.text.within _).bind fun _ => (hl.text.within _).bind fun _ => .ok _

theorem binary_failsAt (t : Ty) (op : BinaryOp) (hl : l.FailsAt cx allows)
    (hr : r.FailsAt cx allows) : FailsOnly (cx.IsAt allows) (cx.binary t op l r parent) := by
  unfold binary
  split
  · exact assigned_failsAt op hl hr
  split
  · exact hl.text.compared op hr.text
  split
  · exact hl.text.concatenated hr.text
  split
  · exact hl.text.indexed hr.text
  · exact hl.text.between op hr.text

theorem conditional_failsAt (t : Ty) (ho : o.Fails (cx.IsAt allows)) (hl : l.FailsAt cx allows)
    (hr : r.FailsAt cx allows) : FailsOnly (cx.IsAt allows) (cx.conditional t o l r parent) :=
  (ho.within _).bind fun _ => (coercedWithin_failsAt t hl _).bind fun _ =>
    (coercedWithin_failsAt t hr _).bind fun _ => .ok _

theorem element_failsAt (ho : o.FailsAt cx allows) :
    FailsOnly (cx.IsAt allows) (cx.element r o) := by
  unfold element
  split
  · exact coercedWithin_failsAt _ ho _
  · exact ho.text.within _

theorem methodCall_failsAt (f : Signature) {receiver : Option Operand} {args : List Operand}
    (hr : ∀ o ∈ receiver, o.FailsAt cx allows) (ha : ∀ o ∈ args, o.FailsAt cx allows) :
    FailsOnly (cx.IsAt allows) (cx.methodCall f receiver args) := by
  have callee : FailsOnly (cx.IsAt allows) (cx.calleeText f receiver) := by
    unfold calleeText
    dsimp only
    split
    · exact .ok _
    · split
      · exact .ok _
      · exact (hr _ rfl).text.member _
  exact (arguments_failsAt _ ha).bind fun _ => callee.bind fun _ => .ok _

section Noted

variable {note : Note}

section Named

variable (named : ∀ why, note.ty.spelling = .error why → allows why {})

include named

theorem countCall_failsAt (method : String) (hr : r.Fails (cx.IsAt allows)) :
    FailsOnly (cx.IsAt allows) (cx.countCall note method r) :=
  (typeName_failsAt named).bind fun _ => hr.stringReceiver.bind fun _ => .ok _

theorem extremum_failsAt (function : String) (hl : l.FailsAt cx allows) (hr : r.FailsAt cx allows) :
    FailsOnly (cx.IsAt allows) (cx.extremum note function l r) :=
  (typeName_failsAt named).bind fun _ => (coercedWithin_failsAt _ hl _).bind fun _ =>
    (coercedWithin_failsAt _ hr _).bind fun _ => .ok _

end Named

variable (own : ∀ why, why ≠ .nullType → allows why note.span)

include own

theorem symbolText_failsAt {left : Option Operand} (s : Symbol)
    (hl : ∀ o ∈ left, o.FailsAt cx allows) :
    FailsOnly (cx.IsAt allows) (cx.symbolText note left s) := by
  unfold symbolText
  dsimp only
  split
  case h_9 =>
    split
    · exact refuse_failsAt (own _ nofun)
    · exact (hl _ rfl).text.member _
  all_goals exact .ok _

theorem resourceText_failsAt (name : String) :
    FailsOnly (cx.IsAt allows) (cx.resourceText note name) := by
  rw [resourceText]
  split
  · exact .ok _
  · exact refuse_failsAt (own _ (by rintro ⟨⟩))

theorem libraryCall_failsAt (f : Intrinsic) {receiver : Option Operand} {args : List Operand}
    (named : f.namesType → ∀ why, note.ty.spelling = .error why → allows why {})
    (hr : ∀ o ∈ receiver, o.FailsAt cx allows) (ha : ∀ o ∈ args, o.FailsAt cx allows) :
    FailsOnly (cx.IsAt allows) (cx.libraryCall note f receiver args parent) := by
  have texts : ∀ o ∈ args, o.Fails (cx.IsAt allows) := fun o ho => (ha o ho).text
  unfold libraryCall
  split
  -- the branches in the order of the definition
  case h_1 =>
    exact (hr _ rfl).text.stringReceiver.bind fun _ =>
      ((texts _ List.mem_cons_self).within _).bind fun _ => .ok _
  case h_2 | h_3 | h_4 | h_5 => exact (hr _ rfl).text.stringCall _ texts
  case h_6 | h_7 => exact countCall_failsAt (named rfl) _ (hr _ rfl).text
  case h_8 =>
    exact ((hr _ rfl).text.within _).bind fun _ =>
      (element_failsAt (ha _ List.mem_cons_self)).bind fun _ => .ok _
  case h_9 =>
    obtain ⟨ha, hb⟩ := List.forall_mem_cons.1 ha
    exact ((hr _ rfl).text.within _).bind fun _ => (ha.text.within _).bind fun _ =>
      (element_failsAt (hb _ List.mem_cons_self)).bind fun _ => .ok _
  case h_10 =>
    exact ((hr _ rfl).text.within _).bind fun _ =>
      ((texts _ List.mem_cons_self).within _).bind fun _ => .ok _
  case h_13 =>
    exact ((hr _ rfl).text.within _).bind fun _ =>
      (element_failsAt (ha _ List.mem_cons_self)).bind fun _ => .ok _
  case h_11 | h_12 | h_14 | h_15 => exact (hr _ rfl).text.containerCall _ texts
  case h_16 | h_17 =>
    obtain ⟨ha, hb⟩ := List.forall_mem_cons.1 ha
    exact extremum_failsAt (named rfl) _ ha (hb _ List.mem_cons_self)
  case h_18 => exact ((texts _ List.mem_cons_self).within _).bind fun _ => .ok _
  case h_19 => exact .ok _
  case h_20 => exact (texts _ List.mem_cons_self).printable.bind fun _ => .ok _
  case h_21 => exact refuse_failsAt (own _ (Intrinsic.misuse_ne_nullType _ _ _))

end Noted

theorem construction_failsAt {note : Note} {length : Option Expr}
    (h : cx.Admits allows (.new note length))
    (hl : ∀ o ∈ cx.operand? length, o.FailsAt cx allows) :
    FailsOnly (cx.IsAt allows) (cx.construction note (cx.operand? length)) := by
  obtain ⟨ty, span⟩ := note
  obtain ⟨own, -, named⟩ := h
  cases ty with
  | object c held =>
    rcases held with _ | _ | _ | _
    case value | ptr.shared => exact .ok _
    case ptr.readOnly | ptr.mutable => exact refuse_failsAt (own _ nofun)
  | array elem shape =>
    rcases shape with n | _ | _ | _
    case storage => exact (typeName_failsAt (named _ List.mem_cons_self)).bind fun _ => .ok _
    case pointer.readOnly | pointer.mutable => exact refuse_failsAt (own _ nofun)
    case pointer.shared =>
      cases length with
      | none => exact refuse_failsAt (own _ nofun)
      | some n =>
        exact (typeName_failsAt (named _ List.mem_cons_self)).bind fun _ =>
          ((hl _ rfl).text.within _).bind fun _ => .ok _
  | list elem | map key value =>
    exact (typeName_failsAt (named _ List.mem_cons_self)).bind fun _ => .ok _
  | _ => exact refuse_failsAt (own _ nofun)

mutual

-- along the recursion of `render`
theorem render_failsAt : ∀ (e : Expr), e.Throughout (cx.Admits allows) → ∀ parent,
    FailsOnly (cx.IsAt allows) (cx.render e parent)
  | .literal _ _, h, _ =>
    (FailsOnly.attach fun why refused => h.here.own why (Literal.text_refused refused)).bind
      fun _ => .ok _
  | .symbol _ left s, h, _ =>
    symbolText_failsAt h.here.own s (operand?_failsAt left fun _ hc => h.child hc)
  | .self _, _, _ => .ok _
  | .base _, h, _ => refuse_failsAt (h.here.own _ nofun)
  | .prefixed _ op e, h, _ => (operand_failsAt e (h.child List.mem_cons_self)).text.prefixed op
  | .postfixed _ op e, h, _ => (operand_failsAt e (h.child List.mem_cons_self)).text.postfixed op
  | .binary note op l r, h, _ =>
    binary_failsAt note.ty op (operand_failsAt l (h.child (by simp [Expr.children])))
      (operand_failsAt r (h.child (by simp [Expr.children])))
  | .conditional note c t f, h, _ =>
    conditional_failsAt note.ty (operand_failsAt c (h.child (by simp [Expr.children]))).text
      (operand_failsAt t (h.child (by simp [Expr.children])))
      (operand_failsAt f (h.child (by simp [Expr.children])))
  | .collection _ es, h, _ =>
    (items_failsAt _ (operands_failsAt es fun _ hc => h.child hc)).bind fun _ => .ok _
  | .varDecl _ name _ value, h, _ =>
    declared_failsAt name (h.here.named _ List.mem_cons_self)
      (operand?_failsAt value fun _ hc => h.child hc)
  | .call _ f receiver args, h, _ =>
    methodCall_failsAt f (operand?_failsAt receiver fun _ hc => h.child (List.mem_append_left _ hc))
      (operands_failsAt args fun _ hc => h.child (List.mem_append_right _ hc))
  | .intrinsic note f receiver args, h, _ =>
    libraryCall_failsAt h.here.own f
      (fun names => h.here.named note.ty (by simp [Expr.namedTypes, names]))
      (operand?_failsAt receiver fun _ hc => h.child (List.mem_append_left _ hc))
      (operands_failsAt args fun _ hc => h.child (List.mem_append_right _ hc))
  | .new _ length, h, _ => construction_failsAt h.here (operand?_failsAt length fun _ hc => h.child hc)
  | .resource _ name, h, _ => resourceText_failsAt h.here.own name

theorem operand_failsAt (e : Expr) (h : e.Throughout (cx.Admits allows)) :
    (cx.operand e).FailsAt cx allows := ⟨render_failsAt e h, h.here.converted⟩

theorem operand?_failsAt : ∀ (e : Option Expr),
    (∀ c ∈ e.toList, c.Throughout (cx.Admits allows)) → ∀ o ∈ cx.operand? e, o.FailsAt cx allows
  | none, _, _, ho => nomatch ho
  | some e, h, _, rfl => operand_failsAt e (h e List.mem_cons_self)

theorem operands_failsAt : ∀ (es : List Expr), (∀ c ∈ es, c.Throughout (cx.Admits allows)) →
    ∀ o ∈ cx.operands es, o.FailsAt cx allows
  | [], _, _, ho => nomatch ho
  | e :: rest, h, o, ho => by
    obtain ⟨first, others⟩ := List.forall_mem_cons.1 h
    rcases List.mem_cons.1 ho with rfl | ho
    · exact operand_failsAt e first
    · exact operands_failsAt rest others o ho

end

theorem refuse_here (span : Span) (why : Refusal) :
    FailsOnly cx.IsHere (cx.refuse span why : Except EmitError α) := .error ⟨why, span, rfl⟩

theorem typeName_here (t : Ty) : FailsOnly cx.IsHere (cx.typeName t) :=
  cx.isAt_true ▸ typeName_failsAt fun _ _ => trivial

theorem operand_here (e : Expr) : (cx.operand e).FailsAt cx fun _ _ => True :=
  operand_failsAt e fun sub _ => cx.admits_true sub

theorem declared_here (name : String) (t : Ty) (value : Option Expr) :
    FailsOnly cx.IsHere (cx.declared name t (cx.operand? value)) :=
  cx.isAt_true ▸ declared_failsAt name (fun _ _ => trivial)
    (operand?_failsAt value fun _ _ sub _ => cx.admits_true sub)

theorem compared_here (op : BinaryOp) (l r : Expr) (parent : Priority) :
    FailsOnly cx.IsHere (cx.compared op (cx.operand l) (cx.operand r) parent) :=
  cx.isAt_true ▸ (operand_here l).text.compared op (operand_here r).text

theorem render_here (e : Expr) (parent : Priority) : FailsOnly cx.IsHere (cx.render e parent) :=
  cx.isAt_true ▸ (operand_here e).text.within parent

theorem coerce_here (t : Ty) (e : Expr) (parent : Priority) :
    FailsOnly cx.IsHere (cx.coerce t e parent) :=
  cx.isAt_true ▸ coercedWithin_failsAt t (operand_here e) parent

end Context

end CppEmission
