import CppEmission.Proofs.Conversion.Basic
import CppEmission.Proofs.Stmt.Alike

namespace CppEmission

namespace Dialect

def keeping : Dialect := { cpp with convert := fun _ _ => .ok .keep }

end Dialect

namespace Expr

/-- Every part that is made to fit its place has the type of the place already or that of `null`. -/
def FitsAsIs : Expr → Prop :=
  Throughout fun e => ∀ b ∈ e.boundaries, b.2.ty = b.1 ∨ b.2.ty = .null

/-- No equality or comparison has a string literal on its left, no sum is a string, and nothing but
strings is appended to strings. -/
def NoStringOperators : Expr → Prop := Throughout fun e => e.isStringOperator = false

theorem FitsAsIs.alike {e : Expr} (h : e.FitsAsIs) (p : Program) (s : Scope) :
    Context.Alike ⟨.keeping, p, s⟩ .cpp p e :=
  h.imp fun _ fits =>
    { boundary := fun b hb =>
        match fits b hb with
        | .inl same => same ▸ convert_self b.2
        | .inr null => convert_null null
      operator := fun _ => rfl
      resource := fun _ => rfl }

theorem NoStringOperators.alike {e : Expr} (h : e.NoStringOperators) (p : Program) (s : Scope) :
    Context.Alike ⟨.plain, p, s⟩ .cpp p e :=
  h.imp fun _ none =>
    { boundary := fun _ _ => rfl
      operator := fun operator => by simp [none] at operator
      resource := fun _ => rfl }

end Expr

namespace Context

/-- Where every part has the type of its place, C++ converts nothing at any depth; and an expression
is not converted to its own type. -/
theorem render_without_conversions (p : Program) (s : Scope) (e : Expr) (parent : Priority) :
    (e.FitsAsIs → render ⟨.cpp, p, s⟩ e parent = render ⟨.keeping, p, s⟩ e parent) ∧
      coerce ⟨.cpp, p, s⟩ e.ty e parent = render ⟨.cpp, p, s⟩ e parent := by
  refine ⟨fun h => render_under (h.alike p s) parent, ?_⟩
  exact coerce_keep rfl (convert_self e) parent

/-- A list inside a conditional inside an argument, next to `null` as an argument. -/
theorem render_without_conversions_argument :
    let int := Ty.int .i32
    let x := Expr.symbol ⟨int, {}⟩ none ⟨"x", .localVar⟩
    let c := Expr.symbol ⟨.bool, {}⟩ none ⟨"c", .localVar⟩
    let list := Expr.collection ⟨.list int, {}⟩ [x]
    let items := Expr.conditional ⟨.list int, {}⟩ c list (.new ⟨.list int, {}⟩ none)
    let f := Signature.mk "C" "f" true [.list int, .object "Node" (.ptr .shared)]
    let e := Expr.call ⟨int, {}⟩ f none [items, .literal ⟨.null, {}⟩ .null]
    let text := "C::f(c ? {x} : std::vector<int32_t>(), nullptr)"
    e.FitsAsIs ∧ render {} e .statement = .ok text ∧
      render ⟨.keeping, {}, {}⟩ e .statement = .ok text := by
  intro int x c list items f e text
  have list : list.FitsAsIs :=
    .of_children (by decide) (List.forall_mem_singleton.2 (.leaf nofun rfl))
  have items : items.FitsAsIs := by
    refine .of_children (by decide) (List.forall_mem_cons.2 ⟨.leaf nofun rfl, ?_⟩)
    exact List.forall_mem_cons.2 ⟨list, List.forall_mem_singleton.2 (.leaf nofun rfl)⟩
  have fits : e.FitsAsIs := by
    refine .of_children (by decide) (List.forall_mem_cons.2 ⟨items, ?_⟩)
    exact List.forall_mem_singleton.2 (.leaf nofun rfl)
  have written : render {} e .statement = .ok text := by decide
  exact ⟨fits, written, ((render_without_conversions {} {} e .statement).1 fits).symm.trans written⟩

/-- An expression without string operators is written as if C++ had no forms of its own for them;
so are statements with such expressions that do not select by a string literal. -/
theorem emitted_without_string_operators (p : Program) (s : Scope) :
    (∀ e : Expr, e.NoStringOperators → ∀ parent,
      render ⟨.cpp, p, s⟩ e parent = render ⟨.plain, p, s⟩ e parent) ∧
    ∀ body : List Stmt, (∀ e ∈ Stmt.allExprs body, e.NoStringOperators) →
      (∀ v ∈ Stmt.allSwitchValues body, v.ty.isString → v.isLiteral = false) →
      emitAll ⟨.cpp, p, s⟩ body = emitAll ⟨.plain, p, s⟩ body := by
  refine ⟨fun e h parent => render_under (h.alike p s) parent, fun body exprs values => ?_⟩
  have same : AlikeOn ⟨.plain, p, s⟩ .cpp p (Stmt.allExprs body) (Stmt.allSwitchValues body) :=
    { convert := rfl
      stringSwitch := rfl
      expr := fun e he => (exprs e he).alike p s
      tested := fun v hv literal string => by simp [values v hv string] at literal }
  exact emitAll_under same

/-- A switch by a string that is no literal, with an assignment of a sum of numbers. -/
theorem emitted_without_string_operators_switch :
    let int := Ty.int .i32
    let x := Expr.symbol ⟨int, {}⟩ none ⟨"x", .localVar⟩
    let command := Expr.symbol ⟨.string .view, {}⟩ none ⟨"command", .parameter⟩
    let step := Expr.binary ⟨int, {}⟩ .assign x (.binary ⟨int, {}⟩ .add x x)
    let body := [Stmt.switch command [{ values := [.ofString "go"], body := [.expr step] }] none]
    (∀ e ∈ Stmt.allExprs body, e.NoStringOperators) ∧
      (∀ v ∈ Stmt.allSwitchValues body, v.ty.isString → v.isLiteral = false) ∧
      emitAll ⟨.cpp, {}, {}⟩ body = emitAll ⟨.plain, {}, {}⟩ body ∧
      (∃ v ∈ Stmt.allSwitchValues body, v.ty.isString) := by
  intro int x command step body
  have x : x.NoStringOperators := .leaf rfl rfl
  have sum : (Expr.binary ⟨int, {}⟩ .add _ _).NoStringOperators :=
    .of_children rfl (List.forall_mem_cons.2 ⟨x, List.forall_mem_singleton.2 x⟩)
  have step : step.NoStringOperators :=
    .of_children rfl (List.forall_mem_cons.2 ⟨x, List.forall_mem_singleton.2 sum⟩)
  have exprs : ∀ e ∈ Stmt.allExprs body, e.NoStringOperators := by
    refine List.forall_mem_cons.2 ⟨.leaf rfl rfl, List.forall_mem_cons.2 ⟨.leaf rfl rfl, ?_⟩⟩
    exact List.forall_mem_singleton.2 step
  have values : ∀ v ∈ Stmt.allSwitchValues body, v.ty.isString → v.isLiteral = false :=
    List.forall_mem_singleton.2 fun _ => rfl
  exact ⟨exprs, values, (emitted_without_string_operators {} {}).2 body exprs values,
    command, List.mem_cons_self, rfl⟩

example :
    let name := Expr.symbol ⟨.string .view, {}⟩ none ⟨"name", .parameter⟩
    let e := Expr.binary ⟨.bool, {}⟩ .eq (.ofString "x") name
    render {} e .statement = .ok "std::string_view(\"x\") == name" ∧
      render ⟨.plain, {}, {}⟩ e .statement = .ok "\"x\" == name" := by
  decide

end Context

end CppEmission
