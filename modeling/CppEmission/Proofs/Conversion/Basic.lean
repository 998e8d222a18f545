import CppEmission.Proofs.Phrase.Threading

namespace CppEmission

section Choice

variable {e : Expr} {c c' : String} {t u : Ty}

theorem convert_pointer {held : Ownership} (he : e.ty = .object c held) (h : Handle) :
    convert (.object c' (.ptr h)) e =
      if c = c' ∧ held = .ptr h then .ok .keep else held.toHandle h := by
  simp [convert, he]

theorem convert_value {held : Ownership} (he : e.ty = .object c held) :
    convert (.object c' .value) e = .ok (if held = .value then .keep else .prepend "*") := by
  cases held <;> simp [convert, he]

theorem convert_array {shape : ArrayShape} (he : e.ty = .array t shape) (h : Handle) :
    convert (.array u (.pointer h)) e = shape.toHandle h := by
  by_cases same : t = u ∧ shape = .pointer h
  · obtain ⟨rfl, rfl⟩ := same
    rw [← he, convert_self]
    cases h <;> rfl
  · simp [convert, he, same]

theorem convert_owned (he : e.ty = .string .view) :
    convert (.string .storage) e = .ok (if e.isLiteral then .keep else .call "std::string") := by
  simp [convert, he]

end Choice

namespace Context

variable {cx : Context} {target : Ty} {e : Expr} {c : Conversion}

theorem coerce_eq (hcx : cx.dialect.convert = convert) (h : convert target e = .ok c)
    (parent : Priority) : cx.coerce target e parent = c.around (cx.render e) parent := by
  rw [coerce, coercedWithin, operand, hcx, h]
  rfl

theorem coerce_keep (hcx : cx.dialect.convert = convert) (h : convert target e = .ok .keep)
    (parent : Priority) : cx.coerce target e parent = cx.render e parent :=
  coerce_eq hcx h parent

theorem coerce_primary {level : Priority} (hcx : cx.dialect.convert = convert)
    (h : convert target e = .ok c) (taken : c.operandPriority? = some level)
    (given : c.resultPriority? = some .primary) (parent : Priority) :
    cx.coerce target e parent = (cx.render e level).map c.apply := by
  rw [coerce_eq hcx h, Conversion.around, taken, given]
  show (do
    let inner ← cx.render e level
    return Phrase.within ⟨c.apply inner, .primary, []⟩ parent) = _
  simp only [Phrase.within_primary]
  cases cx.render e level <;> rfl

theorem coerce_append {suffix : String} (hcx : cx.dialect.convert = convert)
    (h : convert target e = .ok (.append suffix)) (parent : Priority) :
    cx.coerce target e parent = (cx.render e .primary).map (· ++ suffix) :=
  coerce_primary hcx h rfl rfl parent

theorem coerce_call {callee : String} (hcx : cx.dialect.convert = convert)
    (h : convert target e = .ok (.call callee)) (parent : Priority) :
    cx.coerce target e parent =
      (cx.render e .statement).map fun text => callee ++ "(" ++ text ++ ")" :=
  coerce_primary hcx h rfl rfl parent

theorem coerce_refused {why : Refusal} (hcx : cx.dialect.convert = convert)
    (h : convert target e = .error why) (parent : Priority) :
    cx.coerce target e parent = cx.refuse e.span why := by
  rw [coerce, coercedWithin, operand, hcx, h]
  rfl

theorem coerce_eq_ok (hcx : cx.dialect.convert = convert) {parent : Priority} {text : String} :
    cx.coerce target e parent = .ok text ↔
      ∃ c, convert target e = .ok c ∧ c.around (cx.render e) parent = .ok text := by
  cases chosen : convert target e with
  | error why => simp [coerce_refused hcx chosen, refuse]
  | ok c => simp [coerce_eq hcx chosen]

theorem succeeds_render {parent parent' : Priority} (h : Succeeds (cx.render e parent)) :
    Succeeds (cx.render e parent') := by
  rw [render_eq] at h ⊢
  obtain ⟨text, rendered⟩ := h
  obtain ⟨p, phrase, -⟩ := map_eq_ok.1 rendered
  rw [phrase]
  exact .ok _

end Context

end CppEmission
