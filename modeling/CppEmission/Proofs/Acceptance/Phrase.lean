import CppEmission.Proofs.Acceptance.WellFormed
import CppEmission.Proofs.Outcome

namespace CppEmission

theorem Succeeds.attach {x : Except Refusal α} (hx : Succeeds x) (l : Location) :
    Succeeds (l.attach x) := by
  obtain ⟨a, rfl⟩ := hx
  exact .ok a

theorem Ty.IsNullFree.spelling {t : Ty} (h : t.IsNullFree) : Succeeds t.spelling := by
  induction t with
  | null => exact h.elim
  | bool | int | float | double | object | enum => exact .ok _
  | string shape => cases shape <;> exact .ok _
  | array elem shape ih | list elem ih => exact (ih h).map _
  | map key value ihk ihv =>
    rw [Ty.spelling]
    split
    · exact (ihv h.2).bind fun _ => .ok _
    · exact (ihk h.1).bind fun _ => (ihv h.2).bind fun _ => .ok _

theorem Literal.IsFinite.text {l : Literal} (h : l.IsFinite) (ty : Ty) : Succeeds (l.text ty) := by
  cases l with
  | float v =>
    have finite : v.isFinite = true := h
    rw [Literal.text, if_pos finite]
    exact .ok _
  | _ => exact .ok _

namespace Expr

variable {p : Program} {e : Expr}

theorem WellFormed.isBase (h : e.WellFormed p) : e.isBase = false := by
  cases e with
  | base => exact h.elim
  | _ => rfl

theorem isBase_or_wellFormed (h : receiverWellFormed p (some e)) : e.isBase ∨ e.WellFormed p := by
  cases e with
  | base => exact .inl rfl
  | _ => exact .inr h

theorem wellFormed_of_opt {e? : Option Expr} (h : optWellFormed p e?) (he : e? = some e) :
    e.WellFormed p := by
  subst he
  exact h

theorem wellFormed_of_all {es : List Expr} (h : allWellFormed p es) (he : e ∈ es) :
    e.WellFormed p := by
  induction es with
  | nil => cases he
  | cons e' es ih =>
    rcases List.mem_cons.1 he with rfl | he
    · exact h.1
    · exact ih h.2 he

end Expr

def Operand.IsRendered (o : Operand) : Prop := ∀ parent, Succeeds (o.within parent)

namespace Operand.IsRendered

variable {o l r : Operand} {parent : Priority}

theorem within (h : o.IsRendered) (parent : Priority) : Succeeds (o.within parent) := h parent

theorem member (h : o.IsRendered) (name : String) : Succeeds (o.member name) :=
  (h.within _).bind fun _ => .ok _

theorem prefixed (op : PrefixOp) (h : o.IsRendered) : Succeeds (prefixed op o parent) :=
  (h.within _).bind fun _ => .ok _

theorem postfixed (op : PostfixOp) (h : o.IsRendered) : Succeeds (postfixed op o) :=
  (h.within _).bind fun _ => .ok _

theorem between (op : BinaryOp) (hl : l.IsRendered) (hr : r.IsRendered) :
    Succeeds (between op l r parent) :=
  (hl.within _).bind fun _ => (hr.within _).bind fun _ => .ok _

theorem indexed (hl : l.IsRendered) (hr : r.IsRendered) : Succeeds (indexed l r) :=
  (hl.within _).bind fun _ => (hr.within _).bind fun _ => .ok _

theorem comparedAsView (op : BinaryOp) (hl : l.IsRendered) (hr : r.IsRendered) :
    Succeeds (comparedAsView op l r parent) :=
  (hl.within _).bind fun _ => (hr.within _).bind fun _ => .ok _

theorem appendedAsText (hl : l.IsRendered) (hr : r.IsRendered) :
    Succeeds (appendedAsText l r parent) :=
  (hl.within _).bind fun _ => (hr.within _).bind fun _ => .ok _

theorem asOwned (h : o.IsRendered) : Succeeds o.asOwned := (h.within _).bind fun _ => .ok _

theorem asNumberText (h : o.IsRendered) : Succeeds o.asNumberText :=
  (h.within _).bind fun _ => .ok _

theorem leadingSummand (h : o.IsRendered) : Succeeds o.leadingSummand := by
  unfold Operand.leadingSummand
  split
  · exact h.within _
  · exact h.asOwned
  · exact h.asNumberText

theorem trailingSummand (h : o.IsRendered) : Succeeds o.trailingSummand := by
  unfold Operand.trailingSummand
  split
  · exact h.within _
  · split
    · exact h.within _
    · exact h.asOwned
  · exact h.asNumberText

theorem stringSum (hl : l.IsRendered) (hr : r.IsRendered) : Succeeds (stringSum l r parent) :=
  hl.leadingSummand.bind fun _ => hr.trailingSummand.bind fun _ => .ok _

theorem stringReceiver (h : o.IsRendered) : Succeeds o.stringReceiver := by
  unfold Operand.stringReceiver
  split
  · exact (h.within _).bind fun _ => .ok _
  · exact h.within _

theorem printable (h : o.IsRendered) : Succeeds o.printable := by
  unfold Operand.printable
  split
  · split
    · exact (h.within _).bind fun _ => .ok _
    · exact h.within _
  · exact h.within _

end Operand.IsRendered

namespace Context

variable {cx : Context} {o l r : Operand} {t : Ty} {parent : Priority}

theorem typeName_succeeds (ht : t.IsNullFree) : Succeeds (cx.typeName t) := ht.spelling.attach _

theorem compared_succeeds (op : BinaryOp) (hl : l.IsRendered) (hr : r.IsRendered) :
    Succeeds (cx.compared op l r parent) := by
  unfold compared
  split
  · exact hl.comparedAsView op hr
  · exact hl.between op hr

theorem concatenated_succeeds (hl : l.IsRendered) (hr : r.IsRendered) :
    Succeeds (cx.concatenated l r parent) := by
  unfold concatenated
  split
  · exact hl.stringSum hr
  · exact hl.between _ hr

theorem texts_succeed {os : List Operand} (h : ∀ o ∈ os, o.IsRendered) (parent : Priority) :
    Succeeds (os.mapM (·.within parent)) :=
  .mapM fun o ho => (h o ho).within parent

theorem stringCall_succeeds (method : String) (hr : r.IsRendered) {args : List Operand}
    (ha : ∀ o ∈ args, o.IsRendered) : Succeeds (stringCall method r args) :=
  hr.stringReceiver.bind fun _ => (texts_succeed ha _).bind fun _ => .ok _

theorem containerCall_succeeds (method : String) (hr : r.IsRendered) {args : List Operand}
    (ha : ∀ o ∈ args, o.IsRendered) : Succeeds (containerCall method r args) :=
  (hr.within _).bind fun _ => (texts_succeed ha _).bind fun _ => .ok _

theorem countCall_succeeds {note : Note} (hn : note.ty.IsNullFree) (method : String)
    (hr : r.IsRendered) : Succeeds (cx.countCall note method r) :=
  (typeName_succeeds hn).bind fun _ => hr.stringReceiver.bind fun _ => .ok _

theorem construction_succeeds {note : Note} {length : Option Operand} (hn : note.ty.IsNullFree)
    (h : note.ty.IsConstructible length.isSome) (hl : ∀ o ∈ length, o.IsRendered) :
    Succeeds (cx.construction note length) := by
  have whole (ending : String) : Succeeds (do
      return (← cx.typeName note.ty) ++ ending : Except EmitError String) :=
    (typeName_succeeds hn).bind fun _ => .ok _
  unfold construction
  split
  case h_1 | h_2 => exact .ok _
  case h_3 elem n hty =>
    rw [hty] at hn
    exact (typeName_succeeds (t := elem) hn).bind fun _ => ((hl n rfl).within _).bind fun _ =>
      .ok _
  case h_4 hty =>
    rw [hty] at h
    cases h
  case h_5 | h_6 | h_7 => exact whole _
  case h_8 other =>
    revert h
    unfold Ty.IsConstructible
    split <;> simp_all [Option.isSome_iff_exists]

theorem symbolText_succeeds (note : Note) {left : Option Operand} (s : Symbol)
    (base : ∀ o ∈ left, o.expr.isBase = false) (hl : ∀ o ∈ left, o.IsRendered) :
    Succeeds (cx.symbolText note left s) := by
  unfold symbolText
  dsimp only
  split
  case h_9 receiver _ =>
    rw [base receiver rfl]
    exact (hl receiver rfl).member _
  all_goals exact .ok _

theorem calleeText_succeeds (f : Signature) {receiver : Option Operand}
    (h : ∀ o ∈ receiver, o.expr.isBase ∨ o.IsRendered) : Succeeds (cx.calleeText f receiver) := by
  unfold calleeText
  dsimp only
  split
  · exact .ok _
  next o =>
    split
    · exact .ok _
    next virtual =>
      rw [Bool.or_eq_true, not_or] at virtual
      exact ((h o rfl).resolve_left virtual.2).member _

theorem resourceText_succeeds {note : Note} {name : String} (h : cx.program.hasResource name) :
    Succeeds (cx.resourceText note name) := by
  rw [resourceText, if_pos h]
  exact .ok _

theorem literal_succeeds (note : Note) {l : Literal} (h : l.IsFinite) :
    Succeeds (cx.literal note l parent) :=
  ((h.text _).attach _).bind fun _ => .ok _

@[simp] theorem operand_expr (e : Expr) : (cx.operand e).expr = e := rfl

@[simp] theorem operand?_eq_map (e : Option Expr) : cx.operand? e = e.map cx.operand := by
  cases e <;> rfl

@[simp] theorem operands_eq_map (es : List Expr) : cx.operands es = es.map cx.operand := by
  induction es with
  | nil => rfl
  | cons e es ih => exact congrArg (cx.operand e :: ·) ih

theorem arguments_accepted {params : List Ty} {es : List Expr}
    (h : ∀ a ∈ params.zip es, a.1.Accepts a.2) :
    ∀ a ∈ params.zip (cx.operands es), a.1.Accepts a.2.expr := by
  rw [operands_eq_map, List.zip_map_right]
  exact List.forall_mem_map.2 h

theorem around_succeeds (c : Conversion) {text : Priority → Except EmitError String}
    (h : ∀ parent, Succeeds (text parent)) (parent : Priority) : Succeeds (c.around text parent) := by
  cases c with
  | keep => exact h parent
  | prepend | append | call => exact (h _).bind fun _ => .ok _

section Cpp

variable (hcx : cx.dialect = .cpp)

include hcx

theorem coercedWithin_succeeds (ht : t.Accepts o.expr) (ho : o.IsRendered) (parent : Priority) :
    Succeeds (cx.coercedWithin t o parent) := by
  have conversion : Succeeds (cx.dialect.convert t o.expr) := by
    rw [hcx]
    exact ht
  exact (conversion.attach _).bind fun c => around_succeeds c ho parent

theorem items_succeed {elem : Option Ty} {os : List Operand}
    (he : ∀ t ∈ elem, ∀ o ∈ os, t.Accepts o.expr) (ho : ∀ o ∈ os, o.IsRendered) :
    Succeeds (cx.items elem os) := by
  induction os with
  | nil => exact .ok []
  | cons o os ih =>
    obtain ⟨ho, hos⟩ := List.forall_mem_cons.1 ho
    have rest := ih (fun t ht o h => he t ht o (List.mem_cons_of_mem _ h)) hos
    cases elem with
    | none => exact (ho.within _).bind fun _ => rest.bind fun _ => .ok _
    | some t =>
      have accepts := he t rfl o List.mem_cons_self
      exact (coercedWithin_succeeds hcx accepts ho _).bind fun _ => rest.bind fun _ => .ok _

theorem arguments_succeed {params : List Ty} {os : List Operand}
    (hp : ∀ a ∈ params.zip os, a.1.Accepts a.2.expr) (ho : ∀ o ∈ os, o.IsRendered) :
    Succeeds (cx.arguments params os) := by
  induction os generalizing params with
  | nil => cases params <;> exact .ok []
  | cons o os ih =>
    obtain ⟨ho, hos⟩ := List.forall_mem_cons.1 ho
    cases params with
    | nil => exact (ho.within _).bind fun _ => (ih hp hos).bind fun _ => .ok _
    | cons t params =>
      obtain ⟨accepts, hp⟩ := List.forall_mem_cons.1 hp
      exact (coercedWithin_succeeds hcx accepts ho _).bind fun _ =>
        (ih hp hos).bind fun _ => .ok _

theorem declared_succeeds (name : String) (ht : t.IsNullFree) {value : Option Operand}
    (accepts : ∀ o ∈ value, t.Accepts o.expr) (hv : ∀ o ∈ value, o.IsRendered) :
    Succeeds (cx.declared name t value) := by
  refine (typeName_succeeds ht).bind fun _ => ?_
  cases value with
  | none => exact .ok _
  | some o =>
    exact (coercedWithin_succeeds hcx (accepts o rfl) (hv o rfl) _).bind fun _ => .ok _

theorem assignedAsIs_succeeds {op : BinaryOp} (accepts : op = .assign → l.expr.ty.Accepts r.expr)
    (hl : l.IsRendered) (hr : r.IsRendered) : Succeeds (cx.assignedAsIs op l r parent) := by
  unfold assignedAsIs
  split
  next assign =>
    exact (coercedWithin_succeeds hcx (accepts assign) hr _).bind fun _ =>
      (hl.within _).bind fun _ => .ok _
  · exact (hr.within _).bind fun _ => (hl.within _).bind fun _ => .ok _

theorem assigned_succeeds {op : BinaryOp} (accepts : op = .assign → l.expr.ty.Accepts r.expr)
    (hl : l.IsRendered) (hr : r.IsRendered) : Succeeds (cx.assigned op l r parent) := by
  unfold assigned
  split
  · exact hl.appendedAsText hr
  · exact assignedAsIs_succeeds hcx accepts hl hr

theorem binary_succeeds (ty : Ty) {op : BinaryOp}
    (accepts : op = .assign → l.expr.ty.Accepts r.expr) (hl : l.IsRendered) (hr : r.IsRendered) :
    Succeeds (cx.binary ty op l r parent) := by
  unfold binary
  split
  · exact assigned_succeeds hcx accepts hl hr
  split
  · exact compared_succeeds op hl hr
  split
  · exact concatenated_succeeds hl hr
  split
  · exact hl.indexed hr
  · exact hl.between op hr

theorem conditional_succeeds {test : Operand} (htest : test.IsRendered)
    (accepts : t.Accepts l.expr) (hl : l.IsRendered) (accepts' : t.Accepts r.expr)
    (hr : r.IsRendered) : Succeeds (cx.conditional t test l r parent) :=
  (htest.within _).bind fun _ => (coercedWithin_succeeds hcx accepts hl _).bind fun _ =>
    (coercedWithin_succeeds hcx accepts' hr _).bind fun _ => .ok _

theorem methodCall_succeeds (f : Signature) {receiver : Option Operand}
    (hr : ∀ o ∈ receiver, o.expr.isBase ∨ o.IsRendered) {args : List Operand}
    (accepts : ∀ a ∈ f.params.zip args, a.1.Accepts a.2.expr) (ha : ∀ o ∈ args, o.IsRendered) :
    Succeeds (cx.methodCall f receiver args) :=
  (arguments_succeed hcx accepts ha).bind fun _ => (calleeText_succeeds f hr).bind fun _ => .ok _

theorem element_succeeds (accepts : ∀ t ∈ r.expr.ty.listElem?, t.Accepts o.expr)
    (ho : o.IsRendered) : Succeeds (cx.element r o) := by
  unfold element
  split
  next elem hty =>
    rw [hty] at accepts
    exact coercedWithin_succeeds hcx (accepts elem rfl) ho _
  · exact ho.within _

theorem extremum_succeeds {note : Note} (hn : note.ty.IsNullFree) (function : String)
    (accepts : note.ty.Accepts l.expr) (hl : l.IsRendered) (accepts' : note.ty.Accepts r.expr)
    (hr : r.IsRendered) : Succeeds (cx.extremum note function l r) :=
  (typeName_succeeds hn).bind fun _ => (coercedWithin_succeeds hcx accepts hl _).bind fun _ =>
    (coercedWithin_succeeds hcx accepts' hr _).bind fun _ => .ok _

theorem libraryCall_succeeds {note : Note} {f : Intrinsic} {receiver : Option Operand}
    {args : List Operand}
    (accepts : f.Accepts note.ty (receiver.map (·.expr)) (args.map (·.expr)))
    (hr : ∀ o ∈ receiver, o.IsRendered) (ha : ∀ o ∈ args, o.IsRendered) :
    Succeeds (cx.libraryCall note f receiver args parent) := by
  obtain ⟨called, count, hn, fit⟩ := accepts
  rw [List.length_map] at count
  rw [Option.isSome_map, Option.isSome_iff_exists] at called
  have zero (h : f.argumentCounts = [0]) : args = [] :=
    List.length_eq_zero_iff.1 (by simpa [h] using count)
  have one (h : f.argumentCounts = [1]) : ∃ a, args = [a] :=
    List.length_eq_one_iff.1 (by simpa [h] using count)
  have two (h : f.argumentCounts = [2]) : ∃ a b, args = [a, b] :=
    List.length_eq_two.1 (by simpa [h] using count)
  cases f with
  | stringContains =>
    obtain ⟨r, rfl⟩ := called rfl
    obtain ⟨a, rfl⟩ := one rfl
    exact (hr r rfl).stringReceiver.bind fun _ =>
      ((ha a List.mem_cons_self).within _).bind fun _ => .ok _
  | stringStartsWith | stringEndsWith =>
    obtain ⟨r, rfl⟩ := called rfl
    obtain ⟨a, rfl⟩ := one rfl
    exact stringCall_succeeds _ (hr r rfl) ha
  | stringSubstring =>
    obtain ⟨r, rfl⟩ := called rfl
    rcases List.mem_pair.1 count with count | count
    · obtain ⟨a, rfl⟩ := List.length_eq_one_iff.1 count
      exact stringCall_succeeds _ (hr r rfl) ha
    · obtain ⟨a, b, rfl⟩ := List.length_eq_two.1 count
      exact stringCall_succeeds _ (hr r rfl) ha
  | stringLength | listCount =>
    obtain ⟨r, rfl⟩ := called rfl
    obtain rfl := zero rfl
    exact countCall_succeeds (hn rfl) _ (hr r rfl)
  | listAdd =>
    obtain ⟨r, rfl⟩ := called rfl
    obtain ⟨a, rfl⟩ := one rfl
    have element := element_succeeds hcx (fun t ht => fit t ht _ List.mem_cons_self)
      (ha a List.mem_cons_self)
    exact ((hr r rfl).within _).bind fun _ => element.bind fun _ => .ok _
  | listInsert =>
    obtain ⟨r, rfl⟩ := called rfl
    obtain ⟨a, b, rfl⟩ := two rfl
    obtain ⟨ha, hb⟩ : a.IsRendered ∧ b.IsRendered := by simpa using ha
    have element := element_succeeds hcx (fun t ht => fit t ht _ List.mem_cons_self) hb
    exact ((hr r rfl).within _).bind fun _ => (ha.within _).bind fun _ =>
      element.bind fun _ => .ok _
  | listRemoveAt =>
    obtain ⟨r, rfl⟩ := called rfl
    obtain ⟨a, rfl⟩ := one rfl
    exact ((hr r rfl).within _).bind fun _ =>
      ((ha a List.mem_cons_self).within _).bind fun _ => .ok _
  | listClear | mapClear =>
    obtain ⟨r, rfl⟩ := called rfl
    obtain rfl := zero rfl
    exact containerCall_succeeds _ (hr r rfl) ha
  | listContains =>
    obtain ⟨r, rfl⟩ := called rfl
    obtain ⟨a, rfl⟩ := one rfl
    have element := element_succeeds hcx (fun t ht => fit t ht _ List.mem_cons_self)
      (ha a List.mem_cons_self)
    exact ((hr r rfl).within _).bind fun _ => element.bind fun _ => .ok _
  | mapContainsKey | mapRemove =>
    obtain ⟨r, rfl⟩ := called rfl
    obtain ⟨a, rfl⟩ := one rfl
    exact containerCall_succeeds _ (hr r rfl) ha
  | mathMin | mathMax =>
    obtain ⟨a, b, rfl⟩ := two rfl
    obtain ⟨ha, hb⟩ : a.IsRendered ∧ b.IsRendered := by simpa using ha
    obtain ⟨fita, fitb⟩ : note.ty.Accepts a.expr ∧ note.ty.Accepts b.expr := by
      simpa [Intrinsic.values] using fit note.ty rfl
    exact extremum_succeeds hcx (hn rfl) _ fita ha fitb hb
  | mathAbs =>
    obtain ⟨a, rfl⟩ := one rfl
    exact ((ha a List.mem_cons_self).within _).bind fun _ => .ok _
  | consoleWriteLine =>
    rcases List.mem_pair.1 count with count | count
    · obtain rfl := List.length_eq_zero_iff.1 count
      exact .ok _
    · obtain ⟨a, rfl⟩ := List.length_eq_one_iff.1 count
      exact (ha a List.mem_cons_self).printable.bind fun _ => .ok _

end Cpp

mutual

-- along the recursion of `render`
theorem renders_succeed (hcx : cx.dialect = .cpp) : ∀ (e : Expr), e.WellFormed cx.program →
    ∀ parent, Succeeds (cx.render e parent)
  | .literal note l, h, _ => literal_succeeds note h
  | .symbol note left s, h, _ =>
    symbolText_succeeds note s (by simpa using fun e he => (Expr.wellFormed_of_opt h he).isBase)
      (operand?_succeeds hcx left h)
  | .self _, _, _ => .ok _
  | .base _, h, _ => h.elim
  | .prefixed _ op e, h, _ => Operand.IsRendered.prefixed op (renders_succeed hcx e h)
  | .postfixed _ op e, h, _ => Operand.IsRendered.postfixed op (renders_succeed hcx e h)
  | .binary note op l r, h, _ =>
    binary_succeeds hcx note.ty h.2.2 (renders_succeed hcx l h.1) (renders_succeed hcx r h.2.1)
  | .conditional note c t f, h, _ =>
    conditional_succeeds hcx (renders_succeed hcx c h.1) h.2.1.2 (renders_succeed hcx t h.2.1.1)
      h.2.2.2 (renders_succeed hcx f h.2.2.1)
  | .collection note es, h, _ =>
    (items_succeed hcx (by simpa using h.2) (operands_succeed hcx es h.1)).bind fun _ => .ok _
  | .varDecl _ name ty value, h, _ =>
    declared_succeeds hcx name h.1 (by simpa using h.2.2) (operand?_succeeds hcx value h.2.1)
  | .call _ f receiver args, h, _ =>
    methodCall_succeeds hcx f (receiver_succeeds hcx receiver h.1)
      (arguments_accepted h.2.2) (operands_succeed hcx args h.2.1)
  | .intrinsic note f receiver args, h, _ =>
    libraryCall_succeeds hcx (by simpa [Function.comp_def] using h.2.2)
      (operand?_succeeds hcx receiver h.1) (operands_succeed hcx args h.2.1)
  | .new note length, h, _ =>
    construction_succeeds h.2.1 (by simpa using h.2.2) (operand?_succeeds hcx length h.1)
  | .resource note name, h, _ => resourceText_succeeds h

theorem operand?_succeeds (hcx : cx.dialect = .cpp) : ∀ (e : Option Expr),
    Expr.optWellFormed cx.program e → ∀ o ∈ cx.operand? e, o.IsRendered
  | none, _, _, h => nomatch h
  | some e, h, _, rfl => renders_succeed hcx e h

theorem receiver_succeeds (hcx : cx.dialect = .cpp) : ∀ (e : Option Expr),
    Expr.receiverWellFormed cx.program e → ∀ o ∈ cx.operand? e, o.expr.isBase ∨ o.IsRendered
  | none, _, _, h => nomatch h
  | some e, h, _, rfl => by
    rcases Expr.isBase_or_wellFormed h with base | h
    · exact .inl base
    · exact .inr (renders_succeed hcx e h)

theorem operands_succeed (hcx : cx.dialect = .cpp) : ∀ (es : List Expr),
    Expr.allWellFormed cx.program es → ∀ o ∈ cx.operands es, o.IsRendered
  | [], _, _, h => nomatch h
  | e :: rest, h, o, ho => by
    rcases List.mem_cons.1 ho with rfl | ho
    · exact renders_succeed hcx e h.1
    · exact operands_succeed hcx rest h.2 o ho

end

theorem operand_isRendered (hcx : cx.dialect = .cpp) {e : Expr} (h : e.WellFormed cx.program) :
    (cx.operand e).IsRendered :=
  renders_succeed hcx e h

theorem render_succeeds (hcx : cx.dialect = .cpp) {e : Expr} (h : e.WellFormed cx.program)
    (parent : Priority) : Succeeds (cx.render e parent) :=
  (operand_isRendered hcx h).within parent

theorem coerce_succeeds (hcx : cx.dialect = .cpp) {e : Expr} (h : e.WellFormed cx.program)
    (accepts : t.Accepts e) (parent : Priority) : Succeeds (cx.coerce t e parent) :=
  coercedWithin_succeeds hcx accepts (operand_isRendered hcx h) parent

end Context

end CppEmission
