import CppEmission.Proofs.Phrase.Threading

/-! The context of an expression decides one pair of parentheses around its text and nothing else.
Contexts that bind tighter ask for the pair where looser ones do, unless the expression is `&` or
`^`, which some contexts group whatever their level. -/

namespace CppEmission

namespace Expr

def isBitAndOrXor : Expr → Bool
  | binary _ op _ _ => op = .bitAnd || op = .bitXor
  | _ => false

theorem groupedIn_eq_nil {e : Expr} (h : e.isBitAndOrXor = false) : e.groupedIn = [] := by
  cases e with
  | binary note op l r =>
    cases op with
    | bitAnd | bitXor => cases h
    | _ => rfl
  | _ => rfl

end Expr

/-- A text for every context that it may stand in: the loosest context tells whether there is one
and what it reads, and any other adds at most a pair of parentheses. -/
structure HasOnePair (text : Priority → Except EmitError String) : Prop where
  error : ∀ parent e, text parent = .error e ↔ text .statement = .error e
  pair : ∀ parent t, text .statement = .ok t →
    text parent = .ok t ∨ text parent = .ok ("(" ++ t ++ ")")

/-- Contexts that bind tighter than one with parentheses have them too. -/
def KeepsPair (text : Priority → Except EmitError String) : Prop :=
  ∀ parent inner t, parent ≤ inner → text .statement = .ok t →
    text parent = .ok ("(" ++ t ++ ")") → text inner = .ok ("(" ++ t ++ ")")

namespace Phrase

variable {p : Phrase} {parent inner : Priority}

theorem parenthesized_ne (text : String) : "(" ++ text ++ ")" ≠ text := by
  intro h
  have length := congrArg String.length h
  simp only [String.length_append] at length
  have one : "(".length = 1 := rfl
  omega

theorem isGrouped_of_within (h : p.within parent = "(" ++ p.text ++ ")") : p.IsGrouped parent := by
  by_contra bare
  rw [within_of_not_isGrouped bare] at h
  exact parenthesized_ne _ h.symm

theorem isGrouped_of_le (h : p.groupedIn = []) (le : parent ≤ inner)
    (grouped : p.IsGrouped parent) : p.IsGrouped inner := by
  rcases grouped with mem | lt
  · rw [h] at mem
    exact absurd mem List.not_mem_nil
  · exact .inr (Nat.lt_of_lt_of_le lt le)

end Phrase

namespace Threads

variable {level : Priority} {grouped : List Priority} {text : Priority → Except EmitError String}

theorem hasOnePair (h : Threads level grouped text) : HasOnePair text := by
  refine ⟨fun parent e => ?_, fun parent t ht => ?_⟩
  · rw [h parent]
    cases text .statement <;> simp [Except.map]
  · rw [h parent, ht]
    by_cases pair : (Phrase.mk t level grouped).IsGrouped parent
    · exact .inr (congrArg _ (Phrase.within_of_isGrouped pair))
    · exact .inl (congrArg _ (Phrase.within_of_not_isGrouped pair))

theorem keepsPair (h : Threads level [] text) : KeepsPair text := by
  intro parent inner t le ht hp
  rw [h parent, ht] at hp
  rw [h inner, ht]
  have pair : (Phrase.mk t level []).IsGrouped parent :=
    Phrase.isGrouped_of_within (Except.ok.inj hp)
  exact congrArg _ (Phrase.within_of_isGrouped (Phrase.isGrouped_of_le rfl le pair))

end Threads

namespace Context

theorem coerce_threads (cx : Context) (target : Ty) (e : Expr) :
    ∃ level grouped, grouped ⊆ e.groupedIn ∧ Threads level grouped (cx.coerce target e) := by
  unfold coerce coercedWithin
  cases (cx.location (cx.operand e).expr.span).attach
      (cx.dialect.convert target (cx.operand e).expr) with
  | error e' => exact ⟨.primary, [], List.nil_subset _, .error e'⟩
  | ok c =>
    refine ⟨_, _, ?_, (cx.render_threads e).around c⟩
    split
    · exact List.Subset.refl _
    · exact List.nil_subset _

/-- What a context decides of an expression, whether or not it is converted to another type, is one
outer pair of parentheses; but for `&` and `^`, no tighter context takes the pair away. -/
theorem parent_decides_one_pair (cx : Context) (target : Ty) (e : Expr) :
    (HasOnePair (cx.render e) ∧ HasOnePair (cx.coerce target e)) ∧
      (e.isBitAndOrXor = false → KeepsPair (cx.render e) ∧ KeepsPair (cx.coerce target e)) := by
  have rendered := cx.render_threads e
  obtain ⟨level, grouped, subset, coerced⟩ := cx.coerce_threads target e
  refine ⟨⟨rendered.hasOnePair, coerced.hasOnePair⟩, fun plain => ?_⟩
  rw [Expr.groupedIn_eq_nil plain] at rendered subset
  rw [List.subset_nil.1 subset] at coerced
  exact ⟨rendered.keepsPair, coerced.keepsPair⟩

theorem parent_decides_one_pair_contains :
    let name := Expr.symbol ⟨.string .view, {}⟩ none ⟨"name", .parameter⟩
    let e := Expr.intrinsic ⟨.bool, {}⟩ .stringContains (some name) [.ofString "x"]
    let text := "name.find(\"x\") != std::string::npos"
    e.isBitAndOrXor = false ∧
      (Context.render {} e .statement = .ok text ∧
        Context.render {} e .condAnd = .ok text ∧
        Context.render {} e .relational = .ok ("(" ++ text ++ ")")) ∧
      Context.render {} e .unary = .ok ("(" ++ text ++ ")") := by
  intro name e text
  have loose : Context.render {} e .statement = .ok text := by decide
  have tight : Context.render {} e .relational = .ok ("(" ++ text ++ ")") := by decide
  have keeps := ((parent_decides_one_pair {} .bool e).2 rfl).1
  exact ⟨rfl, ⟨loose, by decide, tight⟩, keeps .relational .unary text (by decide) loose tight⟩

example :
    let a := Expr.symbol ⟨.int .i32, {}⟩ none ⟨"a", .localVar⟩
    let e := Expr.binary ⟨.int .i32, {}⟩ .bitAnd a a
    Context.render {} e .condOr = .ok "(a & a)" ∧ Context.render {} e .bitOr = .ok "a & a" := by
  decide

end Context

end CppEmission
