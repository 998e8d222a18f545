import CppEmission.Proofs.Location.Site

/-! The span that an error in an expression ends with. What is refused of an expression or of its
conversion has the span of that expression; a type that cannot be spelled has none. -/

namespace CppEmission

theorem Ty.spelling_failsOnly (t : Ty) : FailsOnly (· = .nullType) t.spelling := by
  induction t with
  | null => exact .error rfl
  | bool | int | float | double | object | enum => exact .ok _
  | string shape => cases shape <;> exact .ok _
  | array elem shape ih | list elem ih => exact ih.map _
  | map key value ihk ihv =>
    rw [spelling]
    split
    · exact ihv.bind fun _ => .ok _
    · exact ihk.bind fun _ => ihv.bind fun _ => .ok _

theorem Ty.not_isNullFree_of_refused {t : Ty} {why : Refusal} (h : t.spelling = .error why) :
    ¬ t.IsNullFree := by
  intro nullFree
  obtain ⟨_, spelled⟩ := nullFree.spelling
  cases h.symm.trans spelled

theorem Ownership.toHandle_failsOnly (source : Ownership) (target : Handle) :
    FailsOnly (· ≠ .nullType) (source.toHandle target) := by
  unfold toHandle
  split
  case h_8 => exact .error nofun
  all_goals exact .ok _

theorem ArrayShape.toHandle_failsOnly (source : ArrayShape) (target : Handle) :
    FailsOnly (· ≠ .nullType) (source.toHandle target) := by
  unfold toHandle
  split
  case h_6 =>
    split
    · exact .ok _
    · exact .error nofun
  case h_7 => exact .error nofun
  all_goals exact .ok _

theorem convert_failsOnly (target : Ty) (e : Expr) :
    FailsOnly (· ≠ .nullType) (convert target e) := by
  unfold convert
  split
  · exact .ok _
  split
  case h_11 => exact Ownership.toHandle_failsOnly _ _
  case h_13 => exact ArrayShape.toHandle_failsOnly _ _
  all_goals exact .ok _

def Scope.lead (s : Scope) : String :=
  let names := Location.scopeText (s.class?.map (·.name)) (s.method?.map (·.name))
  if names.isEmpty then "" else names ++ " at "

theorem Scope.text_location (s : Scope) (span : Span) :
    (s.location span).text = s.lead ++ span.display := by
  rw [location, Location.text, lead]
  split <;> simp [*]

/-- Where something of the expression can be refused: at an expression that it is put together from,
and at the empty span where one of these names a type that cannot be spelled. -/
def Expr.IsRefusedAt (e : Expr) (why : Refusal) (span : Span) : Prop :=
  (why ≠ .nullType → ∃ sub, Occurs sub e ∧ sub.span = span) ∧
    (why = .nullType → span = {} ∧ ∃ sub, Occurs sub e ∧ ∃ t ∈ sub.namedTypes, ¬ t.IsNullFree)

namespace Context

theorem admits_isRefusedAt (p : Program) (scope : Scope) (e : Expr) :
    e.Throughout (Admits ⟨.cpp, p, scope⟩ e.IsRefusedAt) := by
  intro sub occurs
  have own (why : Refusal) (h : why ≠ .nullType) : e.IsRefusedAt why sub.span :=
    ⟨fun _ => ⟨sub, occurs, rfl⟩, fun null => absurd null h⟩
  refine ⟨own, fun t why h => own why (convert_failsOnly t sub why h), fun t ht why h => ?_⟩
  refine ⟨fun other => absurd (t.spelling_failsOnly why h) other, fun _ => ⟨rfl, sub, occurs, ?_⟩⟩
  exact ⟨t, ht, Ty.not_isNullFree_of_refused h⟩

/-- An expression that cannot be rendered is located by the scope and a span. The span is that of
the expression or of one inside, unless a type of one of these has no name: a type is refused at the
span from 0 to 0. -/
theorem render_error_points_inside {p : Program} {scope : Scope} {e : Expr} {parent : Priority}
    {err : EmitError} (h : render ⟨.cpp, p, scope⟩ e parent = .error err) :
    ∃ why span, err = .refused why (scope.location span) ∧
      err.diagnostic.location? = some (scope.lead ++ span.display) ∧
      (why ≠ .nullType → ∃ sub : Expr, sub.Occurs e ∧ sub.span = span) ∧
      (why = .nullType → span = {} ∧
        ∃ sub : Expr, sub.Occurs e ∧ ∃ t ∈ sub.namedTypes, ¬ t.IsNullFree) := by
  have refused := (operand_failsAt e (admits_isRefusedAt p scope e)).text.within parent
  obtain ⟨why, span, rfl, inside, null⟩ := refused err h
  refine ⟨why, span, rfl, ?_, inside, null⟩
  rw [← scope.text_location]
  exact EmitError.location?_refused why _

/-- One branch of a conditional cannot be made a shared object. -/
theorem render_error_points_inside_branch :
    let branch := Expr.symbol ⟨.object "Node" .value, ⟨15, 16⟩⟩ none ⟨"b", .localVar⟩
    let e := Expr.conditional ⟨.object "Node" (.ptr .shared), ⟨4, 16⟩⟩
      (.symbol ⟨.bool, ⟨4, 8⟩⟩ none ⟨"flag", .parameter⟩) (.literal ⟨.null, ⟨10, 14⟩⟩ .null) branch
    let scope : Scope := ⟨some { name := "Node" }, some { name := "next" }⟩
    ∃ err, render ⟨.cpp, {}, scope⟩ e .statement = .error err ∧
      err.diagnostic.location? = some "Node::next at 15..16" ∧
      ∃ why span, err = .refused why (scope.location span) ∧
        err.diagnostic.location? = some (scope.lead ++ span.display) ∧
        (why ≠ .nullType → ∃ sub : Expr, sub.Occurs e ∧ sub.span = span) ∧
        (why = .nullType → span = {} ∧
          ∃ sub : Expr, sub.Occurs e ∧ ∃ t ∈ sub.namedTypes, ¬ t.IsNullFree) := by
  intro branch e scope
  have h : render ⟨.cpp, {}, scope⟩ e .statement =
    .error (.refused (.objectConversion .value .shared) (scope.location ⟨15, 16⟩)) := rfl
  exact ⟨_, h, by decide +kernel, render_error_points_inside h⟩

/-- The type of a new list has no name, and the error does not say where the list is. -/
theorem new_list_points_nowhere :
    let e := Expr.new ⟨.list .null, ⟨3, 9⟩⟩ none
    ∃ err text, render ⟨.cpp, {}, {}⟩ e .statement = .error err ∧
      err.message = "unsupported construct: `null` as a declared type (at 0..0)" ∧
      err.diagnostic.location? = some text ∧
      ∀ sub : Expr, sub.Occurs e → ¬ sub.span.display.toList <:+ text.toList := by
  intro e
  refine ⟨.refused .nullType (.code none none {}), _, rfl, by decide +kernel, rfl, ?_⟩
  rintro sub (_ | ⟨inside, -⟩)
  · decide +kernel
  · cases inside

end Context

end CppEmission
