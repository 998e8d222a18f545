import CppEmission.Proofs.Acceptance.WellFormed
import CppEmission.Proofs.Phrase.Parent
import CppEmission.Proofs.Units.Script

/-! A switch over strings that is lowered reads as the chain of tests that it stands for. -/

namespace CppEmission

namespace Expr

def isLabel (value label : Expr) : Expr := binary ⟨.bool, value.span⟩ .eq value label

def orElse (test other : Expr) : Expr := binary ⟨.bool, test.span⟩ .condOr test other

def isOneOf (value : Expr) : List Expr → Expr
  | [] => literal ⟨.bool, value.span⟩ (.bool false)
  | label :: rest => (rest.map value.isLabel).foldl orElse (value.isLabel label)

end Expr

namespace Stmt

/-- The chain of tests that a switch stands for: a test for each branch, and the default where none
of them holds. Without branches it is the default alone. -/
def chainOfTests (value : Expr) : List (Case Stmt) → Option (List Stmt) → Option Stmt
  | [], default => default.map fun body => block (stripTrailingBreak body)
  | ⟨labels, body, _⟩ :: rest, default =>
    some (ifElse (value.isOneOf labels) (block (stripTrailingBreak body))
      (chainOfTests value rest default))

/-- What a branch has to be like to become a branch of a chain: it ends before the next one. -/
structure IsLowerable (cases : List (Case Stmt)) (default : Option (List Stmt)) : Prop where
  branches : ∀ c ∈ cases, c.fallsThrough = false ∧ IsClosed c.body
  default : ∀ body ∈ default, IsClosed body

theorem IsLowerable.tail {c : Case Stmt} {rest : List (Case Stmt)} {default : Option (List Stmt)}
    (h : IsLowerable (c :: rest) default) : IsLowerable rest default :=
  ⟨fun d hd => h.branches d (List.mem_cons_of_mem c hd), h.default⟩

end Stmt

namespace Context

def IsLoose (cx : Context) (e : Expr) : Prop := cx.render e .statement = cx.render e .condOr

variable {cx : Context}

theorem isLoose_of_level {e : Expr} (ungrouped : e.groupedIn = []) (h : .condOr ≤ e.level) :
    cx.IsLoose e := by
  have threads := cx.render_threads e
  rw [ungrouped] at threads
  exact (threads.of_le h).symm

theorem isLoose_isLabel (value label : Expr) : cx.IsLoose (value.isLabel label) :=
  isLoose_of_level rfl (by show Priority.condOr ≤ BinaryOp.eq.priority; decide)

theorem isLoose_orElse (test other : Expr) : cx.IsLoose (test.orElse other) :=
  isLoose_of_level rfl (Nat.le_refl _)

theorem render_orElse (test other : Expr) : cx.render (test.orElse other) .condOr = do
    let left ← cx.render test .condOr
    let right ← cx.render other .condOr
    return left ++ " || " ++ right := by
  have spelled (left right : String) :
      left ++ " " ++ BinaryOp.condOr.spelling ++ " " ++ right = left ++ " || " ++ right := by
    simp [String.append_assoc, BinaryOp.spelling, BinaryOp.operator, Operator.spelling]
  change Operand.between .condOr (cx.operand test) (cx.operand other) .condOr = _
  change (cx.render test .condOr >>= fun _ => cx.render other .condOr >>= fun _ => _) = _
  simp only [spelled]
  cases cx.render test .condOr with
  | error _ => rfl
  | ok left => cases cx.render other .condOr <;> rfl

theorem isLoose_isOneOf (value label : Expr) (labels : List Expr) :
    cx.IsLoose (value.isOneOf (label :: labels)) := by
  rw [Expr.isOneOf]
  rcases labels.eq_nil_or_concat with rfl | ⟨init, last, rfl⟩
  · exact isLoose_isLabel value label
  · rw [List.concat_eq_append, List.map_append, List.foldl_append]
    exact isLoose_orElse _ _

theorem intercalate_merge (separator first second : String) (rest : List String) :
    String.intercalate separator ((first ++ separator ++ second) :: rest) =
      String.intercalate separator (first :: second :: rest) := by
  cases rest with
  | nil => simp
  | cons third rest => simp [String.append_assoc]

-- the fold adds one test after another on the right, so what is generalized is the test so far
theorem render_foldl_orElse (test : Expr) (others : List Expr) :
    cx.render (others.foldl .orElse test) .condOr = do
      let first ← cx.render test .condOr
      let rest ← others.mapM fun other => cx.render other .condOr
      return String.intercalate " || " (first :: rest) := by
  induction others generalizing test with
  | nil =>
    rw [List.foldl_nil, List.mapM_nil]
    cases cx.render test .condOr with
    | error _ => rfl
    | ok first => exact congrArg Except.ok String.intercalate_singleton.symm
  | cons other others ih =>
    rw [List.foldl_cons, ih, render_orElse, List.mapM_cons]
    cases cx.render test .condOr with
    | error _ => rfl
    | ok first =>
      cases cx.render other .condOr with
      | error _ => rfl
      | ok second =>
        cases others.mapM fun other => cx.render other .condOr with
        | error _ => rfl
        | ok rest => exact congrArg Except.ok (intercalate_merge " || " first second rest)

theorem render_isOneOf (value : Expr) {labels : List Expr} (h : labels ≠ []) :
    cx.render (value.isOneOf labels) .statement = cx.branchTest value labels := by
  cases labels with
  | nil => exact absurd rfl h
  | cons label labels =>
    have single (l : Expr) : cx.compared .eq (cx.operand value) (cx.operand l) .condOr =
        cx.render (value.isLabel l) .condOr := rfl
    rw [isLoose_isOneOf value label labels, Expr.isOneOf, render_foldl_orElse, branchTest]
    simp only [single, List.mapM_cons, List.mapM_map, bind_assoc, pure_bind, Function.comp_def]

end Context

structure Script.Agrees (s t : Script) : Prop where
  fault : s.fault = t.fault
  ops : s.fault = none → s.ops = t.ops

namespace Script.Agrees

variable {s s' t t' : Script}

theorem refl (s : Script) : s.Agrees s := ⟨rfl, fun _ => rfl⟩

theorem of_fault {e : EmitError} (hs : s.fault = some e) (ht : t.fault = some e) : s.Agrees t :=
  ⟨hs.trans ht.symm, fun complete => absurd (hs.symm.trans complete) (Option.some_ne_none e)⟩

theorem append (h : s.Agrees s') (h' : t.Agrees t') : (s ++ t).Agrees (s' ++ t') := by
  cases hs : s.fault with
  | some e =>
    rw [append_of_fault hs, append_of_fault (h.fault ▸ hs)]
    exact h
  | none =>
    rw [append_of_complete hs, append_of_complete (h.fault ▸ hs), h.ops hs]
    exact ⟨h'.fault, fun complete => congrArg (s'.ops ++ ·) (h'.ops complete)⟩

theorem perform (h : s.Agrees t) (complete : s.fault = none) (w : Writer) :
    w.perform s = w.perform t :=
  congrArg w.run (h.ops complete)

end Script.Agrees

namespace Context

open Script (Agrees)

variable {cx : Context}

mutual

theorem emitStripped_eq : ∀ body : List Stmt,
    cx.emitStripped body = cx.emitAll (Stmt.stripTrailingBreak body)
  | [] => rfl
  | [s] => emitStripped_singleton s
  | s :: t :: rest => by
    rw [emitStripped, emitStripped_eq (t :: rest), Stmt.stripTrailingBreak, emitAll]

theorem emitStripped_singleton (s : Stmt) :
    cx.emitStripped [s] = cx.emitAll (Stmt.stripBreak s) := by
  cases s with
  | breakOut => rfl
  | block body =>
    rw [emitStripped, emitStripped_eq body]
    exact (Script.append_nil _).symm
  | _ => exact (Script.append_nil _).symm

end

theorem emit_branch (body : List Stmt) :
    cx.emit true (.block (Stmt.stripTrailingBreak body)) = cx.emitStripped body := by
  rw [emit, if_pos rfl, emitStripped_eq]

theorem emitTests_agrees_emitElse (cx : Context) (value : Expr) {cases : List (Case Stmt)}
    {default : Option (List Stmt)} (labelled : ∀ c ∈ cases, c.values ≠ [])
    (lowerable : Stmt.IsLowerable cases default) :
    (cx.emitTests value true cases ++ cx.emitOtherwise value true default).Agrees
      (cx.emitElse (Stmt.chainOfTests value cases default)) := by
  induction cases with
  | nil =>
    rw [emitTests, Script.nil_append]
    cases default with
    | none => exact .refl _
    | some body =>
      rw [emitOtherwise, if_neg (Bool.eq_false_iff.1 (lowerable.default body rfl)), if_pos rfl,
        ← emit_branch]
      exact .refl _
  | cons c rest ih =>
    obtain ⟨labels, body, fallsThrough⟩ := c
    obtain ⟨hlabels, others⟩ := List.forall_mem_cons.1 labelled
    obtain ⟨rfl, closed⟩ := lowerable.branches _ List.mem_cons_self
    have behind := ih others lowerable.tail
    rw [emitTests, if_neg Bool.false_ne_true, if_neg (Bool.eq_false_iff.1 closed),
      Stmt.chainOfTests, emitElse, render_isOneOf value hlabels]
    cases cx.branchTest value labels with
    | error e => exact .of_fault rfl rfl
    | ok text =>
      simp only [Script.after_ok, if_true, emit_branch, Script.append_assoc]
      exact (Agrees.refl _).append ((Agrees.refl _).append ((Agrees.refl _).append
        ((Agrees.refl _).append behind)))

theorem emitTests_agrees (value : Expr) {cases : List (Case Stmt)} {default : Option (List Stmt)}
    (labelled : ∀ c ∈ cases, c.values ≠ []) (lowerable : Stmt.IsLowerable cases default) :
    (cx.emitTests value false cases ++ cx.emitOtherwise value (!cases.isEmpty) default).Agrees
      (cx.emitAll (Stmt.chainOfTests value cases default).toList) := by
  cases cases with
  | nil =>
    rw [emitTests, Script.nil_append]
    cases default with
    | none => exact .refl _
    | some body =>
      rw [emitOtherwise, if_neg (Bool.eq_false_iff.1 (lowerable.default body rfl)), emitStripped_eq,
        Stmt.chainOfTests, Option.map_some, Option.toList_some, emitAll, emitAll, Script.append_nil]
      exact .refl _
  | cons c rest =>
    obtain ⟨labels, body, fallsThrough⟩ := c
    obtain ⟨hlabels, others⟩ := List.forall_mem_cons.1 labelled
    obtain ⟨rfl, closed⟩ := lowerable.branches _ List.mem_cons_self
    have behind := cx.emitTests_agrees_emitElse value others lowerable.tail
    rw [emitTests, if_neg Bool.false_ne_true, if_neg (Bool.eq_false_iff.1 closed),
      Stmt.chainOfTests, Option.toList_some, emitAll, emitAll, Script.append_nil, emit,
      render_isOneOf value hlabels]
    cases cx.branchTest value labels with
    | error e => exact .of_fault rfl rfl
    | ok text =>
      simp only [Script.after_ok, emit_branch, Script.append_assoc]
      exact (Agrees.refl _).append ((Agrees.refl _).append behind)

theorem branches_of_emitTests (value : Expr) : ∀ {cases : List (Case Stmt)} {opened : Bool},
    (cx.emitTests value opened cases).fault = none →
      ∀ c ∈ cases, c.fallsThrough = false ∧ Stmt.IsClosed c.body
  | [], _, _ => nofun
  | ⟨labels, body, fallsThrough⟩ :: rest, opened, complete => by
    rw [emitTests] at complete
    split at complete
    · cases complete
    next ends =>
      split at complete
      · cases complete
      next closed =>
        have others := branches_of_emitTests value (Script.complete_append_iff.1 complete).2
        exact List.forall_mem_cons.2
          ⟨⟨Bool.eq_false_iff.2 ends, Bool.eq_false_iff.2 closed⟩, others⟩

theorem closed_of_emitOtherwise (value : Expr) {opened : Bool} {default : Option (List Stmt)}
    (complete : (cx.emitOtherwise value opened default).fault = none) :
    ∀ body ∈ default, Stmt.IsClosed body := by
  rintro body rfl
  rw [emitOtherwise] at complete
  split at complete
  · cases complete
  next closed => exact Bool.eq_false_iff.2 closed

/-- Where every branch has a label, a lowered switch is written if its branches can become branches
of a chain and the chain can be written, and then reads as the chain does, wherever the writer
stands. -/
theorem lowered_switch_reads_as_tests (cx : Context) (bare : Bool) {value : Expr}
    {cases : List (Case Stmt)} {default : Option (List Stmt)} (string : value.ty.isString = true)
    (lowers : cx.dialect.stringSwitch = false) (labelled : ∀ c ∈ cases, c.values ≠ []) :
    let switch := cx.emit bare (.switch value cases default)
    let chain := cx.emitAll (Stmt.chainOfTests value cases default).toList
    (Stmt.IsLowerable cases default → switch.fault = chain.fault) ∧
      (switch.fault = none →
        Stmt.IsLowerable cases default ∧ ∀ w : Writer, w.perform switch = w.perform chain) := by
  intro switch chain
  have written : switch =
      cx.emitTests value false cases ++ cx.emitOtherwise value (!cases.isEmpty) default := by
    change cx.emit bare (.switch value cases default) = _
    rw [emit, if_pos (by rw [string, lowers]; rfl)]
  rw [written]
  refine ⟨fun lowerable => (emitTests_agrees value labelled lowerable).fault, fun complete => ?_⟩
  obtain ⟨tests, otherwise⟩ := Script.complete_append_iff.1 complete
  have lowerable : Stmt.IsLowerable cases default :=
    ⟨branches_of_emitTests value tests, closed_of_emitOtherwise value otherwise⟩
  exact ⟨lowerable, (emitTests_agrees value labelled lowerable).perform complete⟩

theorem lowered_switch_reads_as_tests_command :
    let command := Expr.symbol ⟨.string .view, {}⟩ none ⟨"command", .parameter⟩
    let cases : List (Case Stmt) := [
      ⟨[.ofString "go", .ofString "run"], [.block [.continueLoop, .breakOut]], false⟩,
      ⟨[.ofString "halt"], [.ret none], false⟩]
    let default := some [Stmt.raise command, .breakOut]
    let switch := Context.emit {} false (.switch command cases default)
    let chain := Context.emitAll {} (Stmt.chainOfTests command cases default).toList
    let w : Writer := { level := 1 }
    (command.ty.isString = true ∧ ({} : Context).dialect.stringSwitch = false ∧
      (∀ c ∈ cases, c.values ≠ []) ∧ switch.fault = none) ∧
      w.perform switch = w.perform chain ∧
      (w.perform chain).buffer =
        "    if (command == \"go\" || command == \"run\") \x7b\n" ++
        "        \x7b\n            continue;\n        \x7d\n" ++
        "    \x7d else if (command == \"halt\") \x7b\n        return;\n" ++
        "    \x7d else \x7b\n        throw std::runtime_error(std::string(command));\n    \x7d\n" := by
  intro command cases default switch chain w
  have string : command.ty.isString = true := rfl
  have labelled : ∀ c ∈ cases, c.values ≠ [] := by simp [cases]
  have complete : switch.fault = none := rfl
  have alike := (lowered_switch_reads_as_tests {} false string rfl labelled).2 complete
  exact ⟨⟨string, rfl, labelled, complete⟩, alike.2 w, by decide +kernel⟩

end Context

end CppEmission
