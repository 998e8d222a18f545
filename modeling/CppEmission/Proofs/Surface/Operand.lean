import CppEmission.Proofs.Surface.Shape
import CppEmission.Proofs.Surface.Writing

namespace CppEmission

open Surface

inductive Conversion.LeadsTo (target : Ty) : Conversion → Prop
  | keep : LeadsTo target .keep
  | address : LeadsTo target (.prepend "&")
  | object : LeadsTo target (.prepend "*")
  | get : LeadsTo target (.append ".get()")
  | data : LeadsTo target (.append ".data()")
  | call : LeadsTo target (.call (Conversion.callee target).text)

theorem Ownership.toHandle_leadsTo (target : Ty) (held : Ownership) (h : Handle) :
    Yields (Conversion.LeadsTo target) (held.toHandle h) := by
  unfold toHandle
  split
  case h_1 | h_2 => exact .ok .address
  case h_3 | h_4 => exact .ok .get
  case h_5 | h_6 | h_7 => exact .ok .keep
  case h_8 => exact .error _

theorem ArrayShape.toHandle_leadsTo (target : Ty) (shape : ArrayShape) (h : Handle) :
    Yields (Conversion.LeadsTo target) (shape.toHandle h) := by
  unfold toHandle
  split
  case h_1 | h_2 => exact .ok .data
  case h_3 | h_4 => exact .ok .get
  case h_5 => exact .ok .keep
  case h_6 =>
    split
    · exact .ok .keep
    · exact .error _
  case h_7 => exact .error _

theorem convert_leadsTo (target : Ty) (e : Expr) :
    Yields (Conversion.LeadsTo target) (convert target e) := by
  unfold convert
  split
  · exact .ok .keep
  split
  case h_1 | h_9 | h_10 =>
    split
    · exact .ok .keep
    · exact .ok .call
  case h_2 | h_3 | h_4 | h_5 | h_6 | h_7 | h_8 => exact .ok .call
  case h_11 => exact Ownership.toHandle_leadsTo _ _ _
  case h_12 => exact .ok .object
  case h_13 => exact ArrayShape.toHandle_leadsTo _ _ _
  case h_14 => exact .ok .keep

structure Operand.Denotes (o : Operand) (x : Part) : Prop where
  expr : o.expr = x.expr
  writes : ∀ p, Yields (Renders · p x.tree) (o.within p)
  value : x.tree.isReference = false
  present : x.tree ≠ .nothing

theorem Surface.Writes.calling {text : String} {t : Term Name} (x : Name)
    (h : Written text .statement t) (present : t ≠ .nothing) :
    Writes ⟨x.text ++ "(" ++ text ++ ")", .primary, []⟩ (.calling x [t]) := by
  exact Writes.call ((Writes.name x).everywhere _) rfl h present

theorem Surface.Writes.calls {text : String} {t : Term Name} (h : Written text .primary t)
    (value : t.isReference = false) (method : String) :
    Writes ⟨text ++ "." ++ method ++ "()", .primary, []⟩ (t.calls method []) := by
  have callee := Writes.member (a := ".") (by decide) h value (.plain method)
  exact Writes.callEmpty (callee.everywhere _) rfl

theorem leads_apart : ∀ op ∈ ["&", "*"], (Grammar.extensions op).all (!leads ·) := by decide

theorem Conversion.LeadsTo.writes {target : Ty} {c : Conversion} (hc : c.LeadsTo target)
    {text : Priority → Except EmitError String} {t : Term Name}
    (h : ∀ p, Yields (Renders · p t) (text p)) (value : t.isReference = false) (present : t ≠ .nothing)
    (p : Priority) : Yields (Renders · p (c.tree target t)) (c.around text p) := by
  have free {op : String} (hop : op ∈ ["&", "*"]) (d : Char) (lead : leads d) :
      d ∉ Grammar.extensions op := by
    intro mem
    simpa [lead] using List.all_eq_true.1 (leads_apart op hop) d mem
  have method {suffix m : String} (ending : suffix = "." ++ m ++ "()") :
      Yields (Renders · p (t.calls m [])) ((Conversion.append suffix).around text p) := by
    subst ending
    refine (h _).bind fun inner renders => .ok (Writes.renders ?_ p)
    simpa only [Conversion.apply, String.append_assoc] using Writes.calls renders.written value m
  cases hc with
  | keep => exact h p
  | address =>
    exact (h _).bind fun inner renders => .ok <| Writes.renders (p := p) <|
      Writes.before (by decide) renders.written value fun d _ => free (by decide) d
  | object =>
    exact (h _).bind fun inner renders => .ok <| Writes.renders (p := p) <|
      Writes.before (by decide) renders.written value fun d _ => free (by decide) d
  | get => exact method (by decide)
  | data => exact method (by decide)
  | call =>
    exact (h _).bind fun inner renders => .ok <| Writes.renders (p := p) <|
      Writes.calling _ renders.written present

theorem Conversion.tree_ne_nothing (c : Conversion) (target : Ty) {t : Term Name}
    (h : t ≠ .nothing) : c.tree target t ≠ .nothing := by
  cases c with
  | keep => exact h
  | _ => exact nofun

theorem Part.converted_ne_nothing (target : Ty) {x : Part} (h : x.tree ≠ .nothing) :
    x.converted target ≠ .nothing := by
  rw [converted]
  split
  · exact Conversion.tree_ne_nothing _ target h
  · exact h

theorem Part.element_ne_nothing (receiver : Part) {x : Part} (h : x.tree ≠ .nothing) :
    receiver.element x ≠ .nothing := by
  rw [element]
  split
  · exact converted_ne_nothing _ h
  · exact h

variable {o l r : Operand} {x y z : Part} {cx : Context}

namespace Operand.Denotes

theorem within (h : o.Denotes x) (p : Priority) : Yields (Written · p x.tree) (o.within p) :=
  (h.writes p).imp fun _ renders => renders.written

theorem whole (h : o.Denotes x) : Yields (Written · .assign x.tree) (o.within .statement) :=
  (h.writes .statement).imp fun _ renders => renders.whole

theorem coerced (hcx : cx.dialect.convert = convert) (target : Ty) (h : o.Denotes x)
    (p : Priority) : Yields (Renders · p (x.converted target)) (cx.coercedWithin target o p) := by
  intro text htext
  obtain ⟨c, hc, htext⟩ := bind_eq_ok.1 htext
  rw [hcx, h.expr] at hc
  rw [Part.converted]
  cases converted : convert target x.expr with
  | error why =>
    rw [converted] at hc
    cases hc
  | ok c' =>
    rw [converted] at hc
    cases hc
    exact (convert_leadsTo target x.expr _ converted).writes h.writes h.value h.present p _ htext

theorem coercedWithin (hcx : cx.dialect.convert = convert) (target : Ty) (h : o.Denotes x)
    (p : Priority) :
    Yields (Written · p (x.converted target)) (cx.coercedWithin target o p) :=
  (h.coerced hcx target p).imp fun _ renders => renders.written

theorem coercedWhole (hcx : cx.dialect.convert = convert) (target : Ty) (h : o.Denotes x) :
    Yields (Written · .assign (x.converted target)) (cx.coercedWithin target o .statement) :=
  (h.coerced hcx target .statement).imp fun _ renders => renders.whole

theorem prefixed (op : PrefixOp) (h : o.Denotes x) (p : Priority) :
    Yields (Renders · p (.before op.spelling x.tree)) (Operand.prefixed op o p) := by
  have fits : op.spelling ∈ prefixes ∧ (Grammar.extensions op.spelling).all
      fun c => !leads c || some c == op.sign? := by cases op <;> decide
  refine (h.within _).bind fun inner written => .ok (Writes.renders ?_ p)
  by_cases space : op.needsSpace inner
  · rw [if_pos space]
    exact Writes.before_space fits.1 written
  · rw [if_neg space, String.append_empty]
    refine Writes.before fits.1 written h.value fun c hc lead mem => space ?_
    have sign := List.all_eq_true.1 fits.2 c mem
    simp_all [PrefixOp.needsSpace]

theorem postfixed (op : PostfixOp) (h : o.Denotes x) (p : Priority) :
    Yields (Renders · p (.after op.spelling x.tree)) (Operand.postfixed op o) := by
  have fits : op.spelling ∈ postfixes := by cases op <;> decide
  exact (h.within _).bind fun _ written => .ok ((Writes.after fits written h.value).fixed p)

theorem indexed (hl : l.Denotes x) (hr : r.Denotes y) (p : Priority) :
    Yields (Renders · p (.index x.tree y.tree)) (Operand.indexed l r) :=
  (hl.within _).bind fun _ left => (hr.within _).bind fun _ right =>
    .ok ((Writes.index left hl.value right).fixed p)

theorem infix_spelling (op : BinaryOp) (h : op.isAssignment = false) (hi : op ≠ .index) :
    op.spelling ∈ infixes op.priority ∧ op.priority ≠ .statement ∧
      op.priority ≤ op.leftPriority ∧
      (op.spelling ∈ chains → op.leftPriority = op.priority ∧ op.rightPriority = op.priority ∧
        ∀ q ∈ op.groupedIn, op.spelling ∉ infixes q) ∧
      (op.spelling ∉ chains → Unchained op.priority ∧ op.rightPriority = op.priority.tighter) := by
  revert h hi
  cases op <;> decide

theorem between {op : BinaryOp} (hop : op.isAssignment = false) (hi : op ≠ .index)
    (hl : l.Denotes x) (hr : r.Denotes y) (p : Priority) :
    Yields (Renders · p (.between op.spelling x.tree y.tree)) (Operand.between op l r p) := by
  obtain ⟨fits, hp, loose, chained, single⟩ := infix_spelling op hop hi
  refine (hl.within _).bind fun _ left => (hr.within _).bind fun _ right =>
    .ok (Writes.renders ?_ p)
  by_cases chain : op.spelling ∈ chains
  · obtain ⟨hleft, hright, free⟩ := chained chain
    rw [hleft] at left
    rw [hright] at right
    exact Writes.chain fits chain free left hl.value right
  · obtain ⟨unchained, hright⟩ := single chain
    rw [hright] at right
    exact Writes.between fits hp chain (left.of_le loose unchained) hl.value right

theorem asView (h : o.Denotes x) :
    Yields (fun text => Writes ⟨"std::string_view(" ++ text ++ ")", .primary, []⟩ x.asView)
      (o.within .statement) := by
  have front : "std::string_view(" = Library.stringView.text ++ "(" := by decide
  rw [front]
  exact (h.within _).imp fun _ written => Writes.calling (.library .stringView) written h.present

theorem asOwned (h : o.Denotes x) :
    Yields (fun text => Writes ⟨text, .primary, []⟩ x.asOwned) o.asOwned := by
  have front : "std::string(" = Library.string.text ++ "(" := by decide
  rw [Operand.asOwned, front]
  exact (h.within _).bind fun _ written => .ok (Writes.calling (.library .string) written h.present)

theorem asNumberText (h : o.Denotes x) :
    Yields (fun text => Writes ⟨text, .primary, []⟩ x.asNumberText) o.asNumberText := by
  have front : "std::to_string(" = Library.toString.text ++ "(" := by decide
  rw [Operand.asNumberText, front]
  exact (h.within _).bind fun _ written =>
    .ok (Writes.calling (.library .toString) written h.present)

theorem comparedAsView {op : BinaryOp} (hop : op.isEquality || op.isComparison)
    (hl : l.Denotes x) (hr : r.Denotes y) (p : Priority) :
    Yields (Renders · p (.between op.spelling x.asView y.tree))
      (Operand.comparedAsView op l r p) := by
  have fits : op.spelling ∈ infixes op.priority ∧ op.priority ≠ .statement ∧
      op.spelling ∉ chains ∧ op.rightPriority = op.priority.tighter := by
    revert hop
    cases op <;> decide
  have close : ") " = ")" ++ " " := by decide
  refine hl.asView.bind fun left view => (hr.within _).bind fun right written =>
    .ok (Writes.renders ?_ p)
  rw [fits.2.2.2] at written
  have whole := Writes.between (g := []) fits.1 fits.2.1 fits.2.2.1 (view.everywhere _) rfl written
  rwa [close, ← String.append_assoc]

theorem appendedAsText (hl : l.Denotes x) (hr : r.Denotes y) (p : Priority) :
    Yields (Renders · p (.between "+=" x.tree y.asNumberText)) (Operand.appendedAsText l r p) := by
  refine (hl.within _).bind fun left target => (hr.within _).bind fun right written =>
    .ok (Writes.renders ?_ p)
  have text := Writes.calling (.library .toString) written hr.present
  have whole : Writes _ (.between "+=" x.tree y.asNumberText) :=
    Writes.assignment (by decide) target hl.value (text.everywhere _)
  have front : " += std::to_string(" =
      " " ++ "+=" ++ " " ++ (Name.library .toString).text ++ "(" := by decide
  exact whole.of_text (by simp only [front, String.append_assoc])

theorem leadingSummand (h : o.Denotes x) :
    Yields (Written · .additive x.leadingSummand) o.leadingSummand := by
  rw [Operand.leadingSummand, Part.leadingSummand, ← h.expr]
  generalize o.expr.ty = ty
  cases ty with
  | string shape =>
    cases shape with
    | storage => exact h.within _
    | view => exact h.asOwned.imp fun _ owned => owned.everywhere _
  | _ => exact h.asNumberText.imp fun _ text => text.everywhere _

theorem trailingSummand (h : o.Denotes x) :
    Yields (Written · .multiplicative x.trailingSummand) o.trailingSummand := by
  rw [Operand.trailingSummand, Part.trailingSummand, ← h.expr]
  generalize o.expr.ty = ty
  cases ty with
  | string shape =>
    cases shape with
    | storage => exact h.within _
    | view =>
      dsimp only
      split
      · exact h.within _
      · exact h.asOwned.imp fun _ owned => owned.everywhere _
  | _ => exact h.asNumberText.imp fun _ text => text.everywhere _

theorem summand_value (h : o.Denotes x) : x.leadingSummand.isReference = false := by
  rw [Part.leadingSummand]
  split
  · exact h.value
  · rfl
  · rfl

theorem stringSum (hl : l.Denotes x) (hr : r.Denotes y) (p : Priority) :
    Yields (Renders · p (.between "+" x.leadingSummand y.trailingSummand))
      (Operand.stringSum l r p) := by
  refine hl.leadingSummand.bind fun _ left => hr.trailingSummand.bind fun _ right =>
    .ok (Writes.renders ?_ p)
  have whole : Writes ⟨_ ++ " " ++ "+" ++ " " ++ _, .additive, []⟩ (.between "+" _ _) :=
    Writes.between (by decide) (by decide) (by decide) left hl.summand_value right
  have sum : " + " = " " ++ ("+" ++ " ") := by decide
  exact whole.of_text (by simp only [sum, String.append_assoc])

theorem stringReceiver (h : o.Denotes x) :
    Yields (Written · .primary x.stringReceiver) o.stringReceiver ∧
      x.stringReceiver.isReference = false := by
  rw [Operand.stringReceiver, Part.stringReceiver, ← h.expr]
  split
  · exact ⟨h.asView.bind fun _ view => .ok (view.everywhere _), rfl⟩
  · exact ⟨h.within _, h.value⟩

theorem printable (h : o.Denotes x) : Yields (Written · .additive x.printable) o.printable := by
  rw [Operand.printable, Part.printable, ← h.expr]
  generalize o.expr.ty = ty
  cases ty with
  | int k =>
    dsimp only
    split
    · have front : "static_cast<int>(" = Name.widen.text ++ "(" := by decide
      rw [front]
      exact (h.within _).bind fun _ written =>
        .ok ((Writes.calling .widen written h.present).everywhere _)
    · exact h.within _
  | _ => exact h.within _

theorem member (h : o.Denotes x) (name : Name) :
    Yields (fun text => Writes ⟨text, .primary, []⟩ (x.member name)) (o.member name.text) := by
  refine (h.within _).bind fun _ receiver => .ok ?_
  rw [Operand.access, Part.member, ← h.expr]
  split
  · exact Writes.member (by decide) receiver h.value name
  · exact Writes.member (by decide) receiver h.value name

theorem element (hcx : cx.dialect.convert = convert) (hl : l.Denotes x) (hr : r.Denotes y) :
    Yields (Written · .assign (x.element y)) (cx.element l r) := by
  rw [Context.element, Part.element, ← hl.expr]
  generalize l.expr.ty = ty
  cases ty with
  | list elem => exact hr.coercedWhole hcx elem
  | _ => exact hr.whole

end Operand.Denotes

namespace Context

variable {p : Priority}

theorem compared_writes {op : BinaryOp} (hop : op.isEquality || op.isComparison)
    (hl : l.Denotes x) (hr : r.Denotes y) :
    Yields (Renders · p (cx.comparisonTree op x y)) (cx.compared op l r p) := by
  have apart : op.isAssignment = false ∧ op ≠ .index := by
    revert hop
    cases op <;> decide
  rw [compared, comparisonTree, Operand.isStringLiteral, hl.expr]
  split
  · exact hl.comparedAsView hop hr p
  · exact hl.between apart.1 apart.2 hr p

theorem assignedAsIs_writes (hcx : cx.dialect.convert = convert) {op : BinaryOp}
    (hop : op.isAssignment) (hl : l.Denotes x) (hr : r.Denotes y) :
    Yields (Renders · p (.between op.spelling x.tree
      (if op = .assign then y.converted x.expr.ty else y.tree))) (cx.assignedAsIs op l r p) := by
  have fits : op.spelling ∈ assignments ∧ op.leftPriority = .condOr ∧
      op.rightPriority = .assign := by
    revert hop
    cases op <;> decide
  have finish {v : Term Name} {value : String} (hv : Written value .assign v) :
      Yields (Renders · p (.between op.spelling x.tree v)) (do
        let target ← l.within op.leftPriority
        return Phrase.within ⟨target ++ " " ++ op.spelling ++ " " ++ value, .assign, []⟩ p) :=
    (hl.within _).bind fun _ target =>
      .ok ((Writes.assignment fits.1 (fits.2.1 ▸ target) hl.value hv).renders p)
  rw [assignedAsIs, fits.2.2, hl.expr]
  split
  · exact (hr.coercedWithin hcx _ _).bind fun _ => finish
  · exact (hr.within _).bind fun _ => finish

theorem assigned_writes (hcx : cx.dialect.convert = convert) {op : BinaryOp}
    (hop : op.isAssignment) (hl : l.Denotes x) (hr : r.Denotes y) :
    Yields (Renders · p (cx.assignmentTree op x y)) (cx.assigned op l r p) := by
  rw [assigned, assignmentTree, hl.expr, hr.expr]
  split
  · exact hl.appendedAsText hr p
  · exact assignedAsIs_writes hcx hop hl hr

theorem concatenated_writes (hl : l.Denotes x) (hr : r.Denotes y) :
    Yields (Renders · p (cx.concatenationTree x y)) (cx.concatenated l r p) := by
  rw [concatenated, concatenationTree]
  split
  · exact hl.stringSum hr p
  · exact hl.between (by decide) (by decide) hr p

theorem binary_writes (hcx : cx.dialect.convert = convert) (ty : Ty) (op : BinaryOp)
    (hl : l.Denotes x) (hr : r.Denotes y) :
    Yields (Renders · p (cx.binaryTree ty op x y)) (cx.binary ty op l r p) := by
  rw [binary, binaryTree]
  split
  · next assign => exact assigned_writes hcx assign hl hr
  split
  · next compare => exact compared_writes compare hl hr
  split
  · exact concatenated_writes hl hr
  split
  · exact hl.indexed hr p
  · next assign _ _ index => exact hl.between (by simpa using assign) index hr p

theorem conditional_writes (hcx : cx.dialect.convert = convert) (ty : Ty) {c : Operand}
    (hc : c.Denotes z) (hl : l.Denotes x) (hr : r.Denotes y) :
    Yields (Renders · p (.conditional z.tree (x.converted ty) (y.converted ty)))
      (cx.conditional ty c l r p) :=
  (hc.within _).bind fun _ test => (hl.coercedWithin hcx ty _).bind fun _ onTrue =>
    (hr.coercedWithin hcx ty _).bind fun _ onFalse =>
      .ok ((Writes.conditional test hc.value onTrue onFalse).renders p)

end Context

end CppEmission
