import CppEmission.Proofs.Header.Sufficient

namespace CppEmission

variable {used : List Facility}

theorem Expr.Occurs.facilities {sub e : Expr} (h : Occurs sub e) : sub.facilities ⊆ e.facilities := by
  induction h with
  | here => exact List.Subset.refl _
  | @inside c e hc _ ih =>
    exact List.Subset.trans ih (flatMap_subset.1 e.facilities_children c hc)

theorem Expr.Occurs.child {sub e c : Expr} (h : Occurs sub e) (hc : c ∈ sub.children) :
    Occurs c e := by
  induction h with
  | here => exact .inside hc .here
  | inside mem _ ih => exact .inside mem ih

namespace Stmt

mutual

theorem exprs_used : ∀ s : Stmt, s.facilities ⊆ used → ∀ e ∈ s.exprs, e.facilities ⊆ used
  | .expr e, h => List.forall_mem_singleton.2 h
  | .block body, h => allExprs_used body h
  | .ifElse test thenDo elseDo, h => by
    simp only [facilities, List.append_subset] at h
    simp only [exprs, List.forall_mem_append, List.forall_mem_cons]
    exact ⟨⟨h.1.1, exprs_used thenDo h.1.2⟩, optExprs_used elseDo h.2⟩
  | .whileLoop test body, h | .doWhile body test, h => by
    obtain ⟨ht, hb⟩ := List.append_subset.1 h
    exact List.forall_mem_cons.2 ⟨ht, exprs_used body hb⟩
  | .forLoop init test advance body, h => by
    simp only [facilities, Expr.optFacilities_toList, ← List.flatMap_append] at h
    obtain ⟨parts, hb⟩ := List.append_subset.1 h
    exact List.forall_mem_append.2 ⟨flatMap_subset.1 parts, exprs_used body hb⟩
  | .foreach element value collection body, h => by
    simp only [facilities, List.append_subset] at h
    exact List.forall_mem_cons.2 ⟨h.1.2, exprs_used body h.2⟩
  | .switch value cases default, h => by
    simp only [facilities, List.append_subset] at h
    simp only [exprs, List.forall_mem_append, List.forall_mem_cons]
    exact ⟨⟨h.1.1, casesExprs_used cases h.1.2⟩, defaultExprs_used default h.2⟩
  | .ret value, h => flatMap_subset.1 (by rwa [facilities, Expr.optFacilities_toList] at h)
  | .raise message, h =>
    List.forall_mem_singleton.2 (List.cons_subset.1 (List.cons_subset.1 h).2).2
  | .constant c, h => List.forall_mem_singleton.2 (List.append_subset.1 h).2
  | .breakOut, _ | .continueLoop, _ | .native _, _ => List.forall_mem_nil _

theorem optExprs_used : ∀ s : Option Stmt, optFacilities s ⊆ used →
    ∀ e ∈ optExprs s, e.facilities ⊆ used
  | none, _ => List.forall_mem_nil _
  | some s, h => exprs_used s h

theorem allExprs_used : ∀ ss : List Stmt, allFacilities ss ⊆ used →
    ∀ e ∈ allExprs ss, e.facilities ⊆ used
  | [], _ => List.forall_mem_nil _
  | s :: rest, h => by
    obtain ⟨hs, hrest⟩ := List.append_subset.1 h
    exact List.forall_mem_append.2 ⟨exprs_used s hs, allExprs_used rest hrest⟩

theorem casesExprs_used : ∀ cs : List (Case Stmt), casesFacilities cs ⊆ used →
    ∀ e ∈ casesExprs cs, e.facilities ⊆ used
  | [], _ => List.forall_mem_nil _
  | ⟨values, body, _⟩ :: rest, h => by
    simp only [casesFacilities, Expr.allFacilities_flatMap, List.append_subset] at h
    simp only [casesExprs, List.forall_mem_append]
    exact ⟨⟨flatMap_subset.1 h.1.1, allExprs_used body h.1.2⟩, casesExprs_used rest h.2⟩

theorem defaultExprs_used : ∀ body : Option (List Stmt), defaultFacilities body ⊆ used →
    ∀ e ∈ defaultExprs body, e.facilities ⊆ used
  | none, _ => List.forall_mem_nil _
  | some body, h => allExprs_used body h

end

end Stmt

theorem Method.exprs_used {m : Method} (h : m.facilities ⊆ used) :
    ∀ e ∈ m.exprs, e.facilities ⊆ used := by
  simp only [facilities, List.append_subset, flatMap_subset] at h
  simp only [exprs, List.forall_mem_append, List.forall_mem_flatMap]
  refine ⟨fun p hp => ?_, Stmt.optExprs_used m.body h.2⟩
  have param := (List.append_subset.1 (h.1.2 p hp)).2
  rw [Expr.optFacilities_toList] at param
  exact flatMap_subset.1 param

theorem Class.exprs_used {c : Class} (h : c.facilities ⊆ used) :
    ∀ e ∈ c.exprs, e.facilities ⊆ used := by
  simp only [facilities, List.append_subset, flatMap_subset] at h
  obtain ⟨⟨⟨constants, fields⟩, constructor⟩, methods⟩ := h
  simp only [exprs, List.forall_mem_append, List.forall_mem_flatMap, List.forall_mem_map]
  refine ⟨⟨⟨fun d hd => (List.append_subset.1 (constants d hd)).2, fun f hf => ?_⟩, ?_⟩,
    fun m hm => Method.exprs_used (methods m hm)⟩
  · have value := (List.append_subset.1 (fields f hf)).2
    rw [Expr.optFacilities_toList] at value
    exact flatMap_subset.1 value
  · cases declared : c.constructor with
    | none => exact List.forall_mem_nil _
    | some body =>
      rw [declared] at constructor
      exact Stmt.allExprs_used body constructor

namespace Program

variable {p : Program} {e c : Expr}

theorem class_facilities {c : Class} (hc : c ∈ p.classes) : c.facilities ⊆ p.facilities :=
  List.Subset.trans (flatMap_subset.1 (List.Subset.refl _) c hc) (List.subset_append_right _ _)

theorem Contains.facilities (h : p.Contains e) : e.facilities ⊆ p.facilities := by
  obtain ⟨root, mem, occurs⟩ := h
  obtain ⟨c, hc, he⟩ := List.mem_flatMap.1 mem
  exact List.Subset.trans occurs.facilities (Class.exprs_used (class_facilities hc) root he)

theorem Contains.child (h : p.Contains e) (hc : c ∈ e.children) : p.Contains c :=
  have ⟨root, mem, occurs⟩ := h
  ⟨root, mem, occurs.child hc⟩

def Declares (p : Program) (f : Signature) : Prop :=
  ∃ c ∈ p.classes, c.name = f.className ∧
    ∃ m ∈ c.methods, m.name = f.name ∧ m.params.map (·.ty) = f.params

/-- The arguments that a call casts to the types of its parameters are those of a declared method. -/
def CoversCall (p : Program) : Expr → Prop
  | .call _ f _ args => p.Declares f ∨ ∀ a ∈ f.params.zip args, ¬ a.2.IsCastTo a.1
  | _ => True

theorem Declares.facilities {f : Signature} (h : p.Declares f) :
    ∀ t ∈ f.params, t.facilities ⊆ p.facilities := by
  obtain ⟨c, hc, -, m, hm, -, params⟩ := h
  have class_ := p.class_facilities hc
  simp only [Class.facilities, List.append_subset, flatMap_subset] at class_
  have method := class_.2 m hm
  simp only [Method.facilities, List.append_subset, flatMap_subset] at method
  rw [← params]
  exact List.forall_mem_map.2 fun param hparam =>
    (List.append_subset.1 (method.1.2 param hparam)).1

end Program

namespace Expr

/-- As far as texts and the least integer go, the expression has the type that it has in the source
language: literal texts are views, sums of texts own their text, and an assignment has the type of
its target. -/
def IsTyped : Expr → Prop
  | literal note l =>
    (note.ty.isString → note.ty = .string .view) ∧
      (l = .int Int64.minValue → ∃ k, note.ty = .int k)
  | binary note .add l r =>
    note.ty.isString → l.ty.isString → r.ty.isString → note.ty = .string .storage
  | binary note .addAssign l _ => note.ty = l.ty
  | intrinsic _ _ receiver _ => ∀ r ∈ receiver, r.isLiteral → r.ty.isString
  | _ => True

variable {note : Note}

theorem literal_demands {l : Literal} (h : (literal note l).IsTyped) :
    (literal note l).demands ⊆ (literal note l).facilities := by
  have view : (if note.ty.isString then [.stringViews] else []) ⊆ note.ty.facilities := by
    split
    next text => simp [h.1 text, Ty.facilities]
    · exact List.nil_subset _
  cases l with
  | int v =>
    refine List.append_subset.2 ⟨view, ?_⟩
    split
    next least =>
      obtain ⟨k, int⟩ := h.2 (congrArg Literal.int least)
      simp [facilities, int, Ty.facilities]
    · exact List.nil_subset _
  | _ => exact view

theorem binary_demands {op : BinaryOp} {l r : Expr} (h : (binary note op l r).IsTyped) :
    (binary note op l r).demands ⊆ (binary note op l r).facilities := by
  refine List.append_subset.2 ⟨?_, ?_⟩
  · split
    next sum =>
      simp only [Bool.and_eq_true, decide_eq_true_eq] at sum
      obtain ⟨⟨⟨rfl, text⟩, left⟩, right⟩ := sum
      simp [facilities, h text left right, Ty.facilities]
    · exact List.nil_subset _
  · split
    next appends =>
      simp only [Bool.and_eq_true, decide_eq_true_eq, Bool.not_eq_true'] at appends
      obtain ⟨⟨rfl, left⟩, right⟩ := appends
      have same : note.ty = l.ty := h
      simp [facilities, BinaryOp.formatsNumber, same, left, right]
    · exact List.nil_subset _

theorem intrinsic_demands {f : Intrinsic} {receiver : Option Expr} {args : List Expr}
    (h : (intrinsic note f receiver args).IsTyped) (parts : ∀ r ∈ receiver, r.IsTyped) :
    (intrinsic note f receiver args).demands ⊆ (intrinsic note f receiver args).facilities := by
  cases receiver with
  | none => exact List.nil_subset _
  | some r =>
    cases literal : r.isLiteral with
    | false => simp [demands, literal]
    | true =>
      have text := h r rfl literal
      cases r with
      | literal own l =>
        have view : own.ty = .string .view := (parts _ rfl).1 text
        simp [demands, facilities, optFacilities, isLiteral, view, Ty.facilities]
      | _ => cases literal

end Expr

theorem Program.demands_subset {p : Program} (typed : ∀ e, p.Contains e → e.IsTyped)
    (covered : ∀ e, p.Contains e → p.CoversCall e) :
    ∀ e, p.Contains e → e.demands ⊆ p.facilities := by
  intro e contains
  have own := contains.facilities
  have type := typed e contains
  cases e with
  | literal => exact List.Subset.trans (Expr.literal_demands type) own
  | binary => exact List.Subset.trans (Expr.binary_demands type) own
  | intrinsic note f receiver args =>
    have parts : ∀ r ∈ receiver, r.IsTyped := fun r hr =>
      typed r (contains.child (List.mem_append_left _ (Option.mem_toList.2 hr)))
    exact List.Subset.trans (Expr.intrinsic_demands type parts) own
  | call note f receiver args =>
    refine flatMap_subset.2 fun a ha => ?_
    obtain ⟨ha, cast⟩ := List.mem_filter.1 ha
    rcases covered _ contains with declared | kept
    · exact declared.facilities a.1 (List.of_mem_zip ha).1
    · exact absurd (of_decide_eq_true cast) (kept a ha)
  | _ => exact List.nil_subset _

end CppEmission
