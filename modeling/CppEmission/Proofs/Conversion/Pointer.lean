import CppEmission.Proofs.Conversion.Basic

/-! Which pointers stand where other pointers are expected, and whether what is written for them is
what the expected type asks for. -/

namespace CppEmission

namespace Handle

/-- A pointer held through `source` is good where one held through `target` is expected: both are
the same, or what may be changed is only looked at. -/
def Serves (source target : Handle) : Prop :=
  source = target ∨ source = .mutable ∧ target = .readOnly

def Lends (source target : Handle) : Prop := source = .shared ∧ target.isBorrow

instance (source target : Handle) : Decidable (source.Serves target) :=
  inferInstanceAs (Decidable (_ ∨ _))

instance (source target : Handle) : Decidable (source.Lends target) :=
  inferInstanceAs (Decidable (_ ∧ _))

theorem Serves.not_lends {source target : Handle} (h : source.Serves target) :
    ¬ source.Lends target := by
  rintro ⟨rfl, borrow⟩
  rcases h with rfl | ⟨shared, _⟩
  · cases borrow
  · cases shared

end Handle

theorem ArrayShape.toHandle_pointer (source target : Handle) :
    (pointer source).toHandle target =
      if source.Serves target then .ok .keep
      else if source.Lends target then .ok (.append ".get()")
      else .error (.arrayConversion (.pointer source) target) := by
  cases source <;> cases target <;> rfl

theorem Ownership.toHandle_ptr (source target : Handle) :
    (ptr source).toHandle target =
      if source.Serves target ∧ source ≠ .readOnly then .ok .keep
      else if source.Lends target then .ok (.append ".get()")
      else .error (.objectConversion (.ptr source) target) := by
  cases source <;> cases target <;> rfl

section Choice

variable {e : Expr} {source : Handle}

theorem convert_object_pointer {c : String} (he : e.ty = .object c (.ptr source)) (c' : String)
    (target : Handle) :
    convert (.object c' (.ptr target)) e =
      if source.Serves target ∧ (source = .readOnly → c = c') then .ok .keep
      else if source.Lends target then .ok (.append ".get()")
      else .error (.objectConversion (.ptr source) target) := by
  rw [convert_pointer he, Ownership.toHandle_ptr]
  by_cases parent : c = c'
  · cases source <;> cases target <;> simp [parent, Handle.Serves]
  · simp [parent]

theorem convert_array_pointer {t : Ty} (he : e.ty = .array t (.pointer source)) (u : Ty)
    (target : Handle) :
    convert (.array u (.pointer target)) e =
      if source.Serves target then .ok .keep
      else if source.Lends target then .ok (.append ".get()")
      else .error (.arrayConversion (.pointer source) target) := by
  rw [convert_array he, ArrayShape.toHandle_pointer]

end Choice

namespace Context

/-- What is written for a pointer where another one is expected: the pointer itself where it
serves, what its handle holds where it lends, and nothing where it does neither. -/
structure Passes (cx : Context) (e : Expr) (serves lends : Prop) (parent : Priority)
    (text : Except EmitError String) : Prop where
  accepted : Succeeds (cx.render e parent) → (Succeeds text ↔ serves ∨ lends)
  served : serves → text = cx.render e parent
  lent : lends → text = (cx.render e .primary).map (· ++ ".get()")
  refused : ¬ serves → ¬ lends → ∃ error construct, text = .error error ∧
    error.diagnostic = .unsupported construct (cx.location e.span).text

variable {cx : Context} {e : Expr} {target : Ty}

theorem passes_of_convert (hcx : cx.dialect.convert = convert) {serves lends : Prop}
    [Decidable serves] [Decidable lends] (apart : serves → ¬ lends) {why : Refusal}
    (unsupported : ∀ l, (EmitError.refused why l).diagnostic = .unsupported why.text l.text)
    (h : convert target e =
      if serves then .ok .keep else if lends then .ok (.append ".get()") else .error why)
    (parent : Priority) : cx.Passes e serves lends parent (cx.coerce target e parent) := by
  have served (hs : serves) : cx.coerce target e parent = cx.render e parent :=
    coerce_keep hcx (by rw [h, if_pos hs]) parent
  have lent (hl : lends) :
      cx.coerce target e parent = (cx.render e .primary).map (· ++ ".get()") :=
    coerce_append hcx (by rw [h, if_neg fun hs => apart hs hl, if_pos hl]) parent
  have refused (hs : ¬ serves) (hl : ¬ lends) :
      cx.coerce target e parent = cx.refuse e.span why :=
    coerce_refused hcx (by rw [h, if_neg hs, if_neg hl]) parent
  refine ⟨fun rendered => ⟨fun coerced => ?_, fun good => ?_⟩, served, lent,
    fun hs hl => ⟨_, _, refused hs hl, unsupported _⟩⟩
  · by_contra bad
    rw [not_or] at bad
    obtain ⟨text, htext⟩ := coerced
    rw [refused bad.1 bad.2] at htext
    cases htext
  · rcases good with hs | hl
    · rwa [served hs]
    · rw [lent hl]
      exact (succeeds_render rendered).map _

/-- A pointer to an array passes where its handle serves or lends. So does one to an object, but
that a pointer for looking at an object of one class is refused where a pointer for looking at an
object of another, such as a parent, is expected. -/
theorem pointers_pass (hcx : cx.dialect.convert = convert) (e : Expr) (source target : Handle)
    (parent : Priority) :
    (∀ elem elem', e.ty = .array elem (.pointer source) →
      cx.Passes e (source.Serves target) (source.Lends target) parent
        (cx.coerce (.array elem' (.pointer target)) e parent)) ∧
    ∀ c c', e.ty = .object c (.ptr source) →
      cx.Passes e (source.Serves target ∧ (source = .readOnly → c = c')) (source.Lends target)
        parent (cx.coerce (.object c' (.ptr target)) e parent) :=
  ⟨fun _ u he => passes_of_convert hcx Handle.Serves.not_lends (fun _ => rfl)
      (convert_array_pointer he u target) parent,
    fun _ c' he => passes_of_convert hcx (fun h => h.1.not_lends) (fun _ => rfl)
      (convert_object_pointer he c' target) parent⟩

theorem pointers_pass_lent :
    let shared := Expr.symbol ⟨.object "Derived" (.ptr .shared), {}⟩ none ⟨"s", .localVar⟩
    let buffer := Expr.symbol ⟨.array (.int .u8) (.pointer .mutable), {}⟩ none ⟨"b", .localVar⟩
    Context.coerce {} (.object "Base" (.ptr .mutable)) shared .unary = .ok "s.get()" ∧
      Context.coerce {} (.array (.int .i8) (.pointer .readOnly)) buffer .unary = .ok "b" := by
  intro shared buffer
  have object := (@pointers_pass {} rfl shared .shared .mutable .unary).2 _ "Base" rfl
  have array := (@pointers_pass {} rfl buffer .mutable .readOnly .unary).1 _ (.int .i8) rfl
  exact ⟨object.lent ⟨rfl, rfl⟩, array.served (.inr ⟨rfl, rfl⟩)⟩

/-- A pointer for looking at an object is no pointer for looking at its parent. -/
theorem readOnly_parent_refused :
    let derived := Expr.symbol ⟨.object "Derived" (.ptr .readOnly), {}⟩ none ⟨"d", .localVar⟩
    Context.render {} derived .statement = .ok "d" ∧ Handle.Serves .readOnly .readOnly ∧
      Context.coerce {} (.object "Base" (.ptr .readOnly)) derived .statement =
        .error (.refused (.objectConversion (.ptr .readOnly) .readOnly) (.code none none {})) := by
  decide

end Context

end CppEmission
