import CppEmission.Proofs.Header.Declaration
import CppEmission.Proofs.Header.Provided

namespace CppEmission

open Surface

variable {scalars : Bool} {used : List Facility}

def AreProvided (scalars : Bool) (used : List Facility) (ts : List (Term Name)) : Prop :=
  ∀ t ∈ ts, Provides scalars used t.entities

namespace AreProvided

variable {t : Term Name} {ts us : List (Term Name)}

theorem nil : AreProvided scalars used [] := nofun

theorem cons : AreProvided scalars used (t :: ts) ↔
    Provides scalars used t.entities ∧ AreProvided scalars used ts := List.forall_mem_cons

theorem append : AreProvided scalars used (ts ++ us) ↔
    AreProvided scalars used ts ∧ AreProvided scalars used us := List.forall_mem_append

theorem single : AreProvided scalars used [t] ↔ Provides scalars used t.entities :=
  List.forall_mem_singleton

theorem flatMap {α : Type} {as : List α} {f : α → List (Term Name)}
    (h : ∀ a ∈ as, AreProvided scalars used (f a)) : AreProvided scalars used (as.flatMap f) :=
  List.forall_mem_flatMap.2 h

theorem map {α : Type} {as : List α} {f : α → Term Name}
    (h : ∀ a ∈ as, Provides scalars used (f a).entities) : AreProvided scalars used (as.map f) :=
  List.forall_mem_map.2 h

end AreProvided

theorem nameTerm_provides (x : String) : Provides scalars used (nameTerm x).entities := .nil

theorem typeTerm_provides {t : Ty} (h : t.facilities ⊆ used) :
    Provides scalars used (typeTerm t).entities := by
  rw [typeTerm, Term.entities_name]
  exact .ty h

theorem convertedTree_provides {cx : Context} {t : Ty} {e : Expr} (h : e.IsCovered scalars used)
    (ht : scalars → t.facilities ⊆ used) : Provides scalars used (cx.convertedTree t e).entities :=
  Part.converted_provides ⟨cx.tree_provides e h, h.ty⟩ fun counts _ => ht counts

theorem Ty.ofConstant?_facilities {t t' : Ty} (h : t.ofConstant? = some t') :
    t'.facilities ⊆ (if t.isString then [.stringViews] else []) ++ t.facilities := by
  cases t with
  | object | list | map => cases h
  | string => cases h; simp [facilities, isString]
  | _ => cases h; exact List.subset_append_right _ _

theorem Constant.terms_provide {cx : Context} {c : Constant} (h : c.facilities ⊆ used)
    (met : c.value.IsMet scalars used) : AreProvided scalars used (c.terms cx) := by
  obtain ⟨own, value⟩ := List.append_subset.1 h
  rw [terms]
  cases declared : c.ty.ofConstant? with
  | none => exact .nil
  | some t =>
    have type : t.facilities ⊆ used := List.Subset.trans (Ty.ofConstant?_facilities declared) own
    exact AreProvided.cons.2 ⟨typeTerm_provides type, AreProvided.cons.2 ⟨nameTerm_provides _,
      AreProvided.single.2 (convertedTree_provides ⟨value, met⟩ fun _ => type)⟩⟩

theorem Context.labelTerm_provides {cx : Context} {value label : Expr}
    (hv : value.IsCovered scalars used) (hl : label.IsCovered scalars used) :
    Provides scalars used (cx.labelTerm value label).entities := by
  rw [labelTerm]
  split
  · exact comparisonTree_provides _ ⟨cx.tree_provides value hv, hv.ty⟩
      ⟨cx.tree_provides label hl, hl.ty⟩ hv.views
  · exact cx.tree_provides label hl

namespace Stmt

open AreProvided

variable {cx : Context}

mutual

-- along the recursion of `terms`
theorem terms_provide (returned : ∀ t ∈ cx.scope.returnTy?, t.facilities ⊆ used) :
    ∀ s : Stmt, s.facilities ⊆ used → (∀ e ∈ s.exprs, e.IsMet scalars used) →
      AreProvided scalars used (s.terms cx)
  | .expr e, h, met => single.2 (cx.tree_provides e ⟨h, met e List.mem_cons_self⟩)
  | .block body, h, met => allTerms_provide returned body h met
  | .ifElse test thenDo elseDo, h, met => by
    simp only [facilities, List.append_subset] at h
    simp only [exprs, List.forall_mem_append, List.forall_mem_cons] at met
    obtain ⟨⟨hc, ht⟩, he⟩ := h
    rw [terms, append, cons]
    exact ⟨⟨cx.tree_provides test ⟨hc, met.1.1⟩, terms_provide returned thenDo ht met.1.2⟩,
      optTerms_provide returned elseDo he met.2⟩
  | .whileLoop test body, h, met | .doWhile body test, h, met => by
    obtain ⟨hc, hb⟩ := List.append_subset.1 h
    obtain ⟨metc, metb⟩ := List.forall_mem_cons.1 met
    exact cons.2 ⟨cx.tree_provides test ⟨hc, metc⟩, terms_provide returned body hb metb⟩
  | .forLoop init test advance body, h, met => by
    simp only [facilities, Expr.optFacilities_toList, ← List.flatMap_append] at h
    obtain ⟨parts, hb⟩ := List.append_subset.1 h
    obtain ⟨metp, metb⟩ := List.forall_mem_append.1 met
    rw [terms, append]
    exact ⟨.map fun e he => cx.tree_provides e ⟨flatMap_subset.1 parts e he, metp e he⟩,
      terms_provide returned body hb metb⟩
  | .foreach element value collection body, h, met => by
    simp only [facilities, List.append_subset] at h
    obtain ⟨⟨⟨he, -⟩, hc⟩, hb⟩ := h
    obtain ⟨metc, metb⟩ := List.forall_mem_cons.1 met
    refine append.2 ⟨cons.2 ⟨cx.tree_provides collection ⟨hc, metc⟩,
      cons.2 ⟨nameTerm_provides _, ?_⟩⟩, terms_provide returned body hb metb⟩
    cases value with
    | some v => exact single.2 (nameTerm_provides _)
    | none =>
      dsimp only
      split
      · exact single.2 (typeTerm_provides he)
      · exact nil
  | .switch value cases default, h, met => by
    simp only [facilities, List.append_subset] at h
    simp only [exprs, List.forall_mem_append, List.forall_mem_cons] at met
    obtain ⟨⟨hv, hc⟩, hd⟩ := h
    obtain ⟨⟨metv, metc⟩, metd⟩ := met
    rw [terms, append, cons]
    exact ⟨⟨cx.tree_provides value ⟨hv, metv⟩,
      casesTerms_provide returned ⟨hv, metv⟩ cases hc metc⟩,
      defaultTerms_provide returned default hd metd⟩
  | .ret none, _, _ => nil
  | .ret (some e), h, met => by
    have covered : e.IsCovered scalars used := ⟨h, met e List.mem_cons_self⟩
    rw [terms]
    split
    next t ht => exact single.2 (convertedTree_provides covered fun _ => returned t ht)
    · exact single.2 (cx.tree_provides e covered)
  | .raise message, h, met => by
    obtain ⟨throws, h⟩ := List.cons_subset.1 h
    obtain ⟨strings, hm⟩ := List.cons_subset.1 h
    have storage : (Ty.string .storage).facilities ⊆ used := by simpa [Ty.facilities] using strings
    rw [terms, single, Term.entities_calling, List.flatMap_singleton]
    exact Provides.append.2 ⟨.of_mem (f := .throws) (by decide) fun _ => throws,
      convertedTree_provides ⟨hm, met message List.mem_cons_self⟩ fun _ => storage⟩
  | .constant c, h, met => c.terms_provide h (met c.value List.mem_cons_self)
  | .breakOut, _, _ | .continueLoop, _, _ | .native _, _, _ => nil

theorem optTerms_provide (returned : ∀ t ∈ cx.scope.returnTy?, t.facilities ⊆ used) :
    ∀ s : Option Stmt, optFacilities s ⊆ used → (∀ e ∈ optExprs s, e.IsMet scalars used) →
      AreProvided scalars used (optTerms cx s)
  | none, _, _ => nil
  | some s, h, met => terms_provide returned s h met

theorem allTerms_provide (returned : ∀ t ∈ cx.scope.returnTy?, t.facilities ⊆ used) :
    ∀ ss : List Stmt, allFacilities ss ⊆ used → (∀ e ∈ allExprs ss, e.IsMet scalars used) →
      AreProvided scalars used (allTerms cx ss)
  | [], _, _ => nil
  | s :: rest, h, met => by
    obtain ⟨hs, hrest⟩ := List.append_subset.1 h
    obtain ⟨mets, metrest⟩ := List.forall_mem_append.1 met
    exact append.2 ⟨terms_provide returned s hs mets, allTerms_provide returned rest hrest metrest⟩

theorem casesTerms_provide (returned : ∀ t ∈ cx.scope.returnTy?, t.facilities ⊆ used)
    {value : Expr} (hv : value.IsCovered scalars used) : ∀ cs : List (Case Stmt),
      casesFacilities cs ⊆ used → (∀ e ∈ casesExprs cs, e.IsMet scalars used) →
        AreProvided scalars used (casesTerms cx value cs)
  | [], _, _ => nil
  | ⟨values, body, _⟩ :: rest, h, met => by
    simp only [casesFacilities, Expr.allFacilities_flatMap, List.append_subset] at h
    simp only [casesExprs, List.forall_mem_append] at met
    obtain ⟨⟨labels, hb⟩, hrest⟩ := h
    rw [casesTerms, append, append]
    exact ⟨⟨.map fun e he => cx.labelTerm_provides hv ⟨flatMap_subset.1 labels e he, met.1.1 e he⟩,
      allTerms_provide returned body hb met.1.2⟩, casesTerms_provide returned hv rest hrest met.2⟩

theorem defaultTerms_provide (returned : ∀ t ∈ cx.scope.returnTy?, t.facilities ⊆ used) :
    ∀ body : Option (List Stmt), defaultFacilities body ⊆ used →
      (∀ e ∈ defaultExprs body, e.IsMet scalars used) →
        AreProvided scalars used (defaultTerms cx body)
  | none, _, _ => nil
  | some body, h, met => allTerms_provide returned body h met

end

end Stmt

section Declarations

open AreProvided

variable {cx : Context}

theorem Field.terms_provide {f : Field} (h : f.facilities ⊆ used)
    (met : ∀ e ∈ f.value.toList, e.IsMet scalars used) :
    AreProvided scalars used (f.terms cx) := by
  simp only [facilities, Expr.optFacilities_toList, List.append_subset] at h
  obtain ⟨type, value⟩ := h
  have initial := Part.initial_provides
    (cx.part?_provided f.value fun e he => ⟨flatMap_subset.1 value e he, met e he⟩) type
  rw [terms, single, Term.entities_declaration, Provides.append, Provides.append]
  exact ⟨.ty type, .nil, initial⟩

theorem Param.terms_provide {p : Param} (h : p.facilities ⊆ used)
    (met : ∀ e ∈ p.default.toList, e.IsMet scalars used) :
    AreProvided scalars used (p.terms cx) := by
  simp only [facilities, Expr.optFacilities_toList, List.append_subset] at h
  obtain ⟨type, default⟩ := h
  exact cons.2 ⟨typeTerm_provides type, cons.2 ⟨nameTerm_provides _,
    .map fun e he => convertedTree_provides ⟨flatMap_subset.1 default e he, met e he⟩ fun _ => type⟩⟩

theorem Method.terms_provide {m : Method} (h : m.facilities ⊆ used)
    (met : ∀ e ∈ m.exprs, e.IsMet scalars used) : AreProvided scalars used (m.terms cx) := by
  simp only [facilities, List.append_subset, flatMap_subset] at h
  simp only [exprs, List.forall_mem_append, List.forall_mem_flatMap] at met
  obtain ⟨⟨own, params⟩, body⟩ := h
  have returned : ∀ t ∈ m.returnTy, t.facilities ⊆ used := by
    intro t ht
    rwa [Option.mem_def.1 ht] at own
  have body := Stmt.optTerms_provide
    (show ∀ t ∈ (cx.inMethod m).scope.returnTy?, t.facilities ⊆ used from returned) m.body body met.2
  rw [terms, headTerms, append, append, cons]
  exact ⟨⟨.map fun t ht => typeTerm_provides (returned t (Option.mem_toList.1 ht)),
    nameTerm_provides _, .flatMap fun p hp => p.terms_provide (params p hp) (met.1 p hp)⟩, body⟩

theorem Class.terms_provide {c : Class} (h : c.facilities ⊆ used)
    (met : ∀ e ∈ c.exprs, e.IsMet scalars used) : AreProvided scalars used (c.terms cx) := by
  simp only [facilities, List.append_subset, flatMap_subset] at h
  simp only [exprs, List.forall_mem_append, List.forall_mem_flatMap, List.forall_mem_map] at met
  obtain ⟨⟨⟨constants, fields⟩, constructor⟩, methods⟩ := h
  obtain ⟨⟨⟨metc, metf⟩, metk⟩, metm⟩ := met
  -- no value is returned outside the methods
  have returned : ∀ t ∈ (cx.inClass c).scope.returnTy?, t.facilities ⊆ used := by rintro _ ⟨⟩
  have body : AreProvided scalars used
      ((c.constructor.map (Stmt.allTerms (cx.inClass c))).getD []) := by
    cases declared : c.constructor with
    | none => exact nil
    | some body =>
      rw [declared] at constructor metk
      exact Stmt.allTerms_provide returned body constructor metk
  simp only [terms, append, cons]
  exact ⟨⟨⟨⟨⟨nameTerm_provides _, .map fun _ _ => nameTerm_provides _⟩,
    .flatMap fun d hd => d.terms_provide (constants d hd) (metc d hd)⟩,
    .flatMap fun f hf => f.terms_provide (fields f hf) (metf f hf)⟩, body⟩,
    .flatMap fun m hm => m.terms_provide (methods m hm) (metm m hm)⟩

theorem Enum.terms_provide (e : Enum) : AreProvided scalars used e.terms := by
  refine cons.2 ⟨nameTerm_provides _, .flatMap fun c _ => cons.2 ⟨nameTerm_provides _, ?_⟩⟩
  exact .map fun _ _ => .nil

theorem Resource.terms_provide {r : Resource} (h : .resources ∈ used) :
    AreProvided scalars used r.terms := by
  have bytes : Provides scalars used (typeTerm (.int .u8)).entities :=
    .of_mem (f := .resources) (by decide) fun _ => h
  exact cons.2 ⟨bytes, cons.2 ⟨nameTerm_provides _, cons.2 ⟨.nil, .map fun _ _ => .nil⟩⟩⟩

theorem Program.terms_provide {p : Program} {settings : Settings}
    (met : scalars → ∀ e, p.Contains e → e.demands ⊆ p.facilities) :
    AreProvided scalars p.facilities (p.terms settings cx) := by
  obtain ⟨embeds, classes⟩ := List.append_subset.1 (List.Subset.refl p.facilities)
  have resources : ∀ r ∈ p.resources, .resources ∈ p.facilities := by
    intro r hr
    rw [if_neg (by simpa using List.ne_nil_of_mem hr)] at embeds
    exact embeds List.mem_cons_self
  have met : ∀ c ∈ p.classes, ∀ e ∈ c.exprs, e.IsMet scalars p.facilities :=
    fun c hc e he counts sub occurs => met counts sub ⟨e, List.mem_flatMap.2 ⟨c, hc, he⟩, occurs⟩
  simp only [terms, append]
  exact ⟨⟨⟨.map fun _ _ => nameTerm_provides _,
    .flatMap fun c hc => c.terms_provide (flatMap_subset.1 classes c hc) (met c hc)⟩,
    .flatMap fun e _ => e.terms_provide⟩,
    .flatMap fun r hr => r.terms_provide (resources r hr)⟩

end Declarations

end CppEmission
