import CppEmission.Proofs.Acceptance.Stmt
import CppEmission.Proofs.Stmt.Branch
import CppEmission.Proofs.Stmt.Lowered

namespace CppEmission

namespace Script

theorem complete_concat_iff {ss : List Script} :
    (concat ss).fault = none ↔ ∀ s ∈ ss, s.fault = none := by
  induction ss with
  | nil => exact iff_of_true rfl nofun
  | cons s ss ih => rw [concat, complete_append_iff, ih, List.forall_mem_cons]

theorem complete_block_iff {header : String} {body : Script} :
    (block header body).fault = none ↔ body.fault = none :=
  ⟨fun h => (complete_append_iff.1 (complete_append_iff.1 h).1).2, complete_block header⟩

theorem complete_branch_iff {declares : Bool} {body : Script} {exit : Option String} :
    (branch declares body exit).fault = none ↔ body.fault = none :=
  ⟨Context.complete_of_branch, complete_branch declares exit⟩

def openTest (opened : Bool) (test : String) : Script :=
  if opened then op .dedent ++ line ("\x7d else if (" ++ test ++ ") \x7b") ++ op .indent
  else openBlock ("if (" ++ test ++ ")")

def openOtherwise (opened : Bool) : Script :=
  if opened then op .dedent ++ line "\x7d else \x7b" ++ op .indent else openBlock ""

theorem openTest_complete (opened : Bool) (test : String) :
    (openTest opened test).fault = none := by
  cases opened <;> rfl

theorem openOtherwise_complete (opened : Bool) : (openOtherwise opened).fault = none := by
  cases opened <;> rfl

end Script

namespace Context

open Script

/-- Every part of a switch that is written as such can be written. -/
structure AcceptsSwitch (cx : Context) (value : Expr) (cases : List (Case Stmt))
    (default : Option (List Stmt)) : Prop where
  value : Succeeds (cx.render value .statement)
  cases : ∀ c ∈ cases, (∀ v ∈ c.values, Succeeds (cx.render v .statement)) ∧
    (cx.emitAll c.body).fault = none
  default : ∀ body ∈ default, (cx.emitAll body).fault = none

/-- The branches of a switch can become branches of a chain of tests, every part of which can be
written. -/
structure AcceptsTests (cx : Context) (value : Expr) (cases : List (Case Stmt))
    (default : Option (List Stmt)) : Prop where
  lowerable : Stmt.IsLowerable cases default
  cases : ∀ c ∈ cases, Succeeds (cx.branchTest value c.values) ∧
    (cx.emitAll (Stmt.stripTrailingBreak c.body)).fault = none
  default : ∀ body ∈ default, (cx.emitAll (Stmt.stripTrailingBreak body)).fault = none

variable {cx : Context} {value : Expr} {cases : List (Case Stmt)} {default : Option (List Stmt)}

theorem caseLabels_complete_iff {values : List Expr} :
    (concat (values.map cx.caseLabel)).fault = none ↔
      ∀ v ∈ values, Succeeds (cx.render v .statement) := by
  rw [complete_concat_iff, List.forall_mem_map]
  refine forall₂_congr fun v _ => complete_after_iff.trans ?_
  exact exists_congr fun text => and_iff_left rfl

theorem emitCases_complete_iff :
    (cx.emitCases cases).fault = none ↔
      ∀ c ∈ cases, (∀ v ∈ c.values, Succeeds (cx.render v .statement)) ∧
        (cx.emitAll c.body).fault = none := by
  induction cases with
  | nil => exact iff_of_true rfl nofun
  | cons c rest ih =>
    rw [emitCases, complete_append_iff, complete_append_iff, caseLabels_complete_iff,
      complete_branch_iff, ih, List.forall_mem_cons]

theorem emitDefault_complete_iff :
    (cx.emitDefault default).fault = none ↔ ∀ body ∈ default, (cx.emitAll body).fault = none := by
  cases default with
  | none => exact iff_of_true rfl nofun
  | some body =>
    simp only [Option.mem_def, Option.some.injEq, forall_eq']
    rw [emitDefault, complete_append_iff, complete_branch_iff]
    exact and_iff_right rfl

theorem emitTests_cons {c : Case Stmt} {rest : List (Case Stmt)} (opened : Bool)
    (h : c.fallsThrough = false ∧ Stmt.IsClosed c.body) :
    cx.emitTests value opened (c :: rest) =
      .after (cx.branchTest value c.values) (.openTest opened) ++ cx.emitStripped c.body ++
        cx.emitTests value true rest := by
  rw [emitTests, if_neg (Bool.eq_false_iff.1 h.1), if_neg (Bool.eq_false_iff.1 h.2)]
  rfl

theorem emitOtherwise_some {body : List Stmt} (opened : Bool) (h : Stmt.IsClosed body) :
    cx.emitOtherwise value opened (some body) =
      .openOtherwise opened ++ cx.emitStripped body ++ .closeBlock := by
  rw [emitOtherwise, if_neg (Bool.eq_false_iff.1 h)]
  rfl

theorem emitTests_complete_iff {opened : Bool} :
    (cx.emitTests value opened cases).fault = none ↔
      ∀ c ∈ cases, (c.fallsThrough = false ∧ Stmt.IsClosed c.body) ∧
        Succeeds (cx.branchTest value c.values) ∧
        (cx.emitAll (Stmt.stripTrailingBreak c.body)).fault = none := by
  induction cases generalizing opened with
  | nil => exact iff_of_true rfl nofun
  | cons c rest ih =>
    rw [List.forall_mem_cons]
    by_cases h : c.fallsThrough = false ∧ Stmt.IsClosed c.body
    · have test : (Script.after (cx.branchTest value c.values) (.openTest opened)).fault = none ↔
          Succeeds (cx.branchTest value c.values) :=
        complete_after_iff.trans
          (exists_congr fun text => and_iff_left (openTest_complete opened text))
      rw [emitTests_cons opened h, complete_append_iff, complete_append_iff, test, ih,
        emitStripped_eq]
      exact and_congr_left fun _ => (and_iff_right h).symm
    · refine iff_of_false (fun complete => h ?_) fun all => h all.1.1
      exact branches_of_emitTests value complete c List.mem_cons_self

theorem emitOtherwise_complete_iff {opened : Bool} :
    (cx.emitOtherwise value opened default).fault = none ↔
      ∀ body ∈ default, Stmt.IsClosed body ∧
        (cx.emitAll (Stmt.stripTrailingBreak body)).fault = none := by
  cases default with
  | none =>
    refine iff_of_true ?_ nofun
    cases opened <;> rfl
  | some body =>
    simp only [Option.mem_def, Option.some.injEq, forall_eq']
    by_cases h : Stmt.IsClosed body
    · rw [emitOtherwise_some opened h, complete_append_iff, complete_append_iff, emitStripped_eq]
      exact ⟨fun complete => ⟨h, complete.1.2⟩,
        fun all => ⟨⟨openOtherwise_complete opened, all.2⟩, rfl⟩⟩
    · exact iff_of_false (fun complete => h (closed_of_emitOtherwise value complete body rfl))
        fun all => h all.1

theorem emit_switch_complete_iff {bare : Bool}
    (direct : (value.ty.isString && !cx.dialect.stringSwitch) = false) :
    (cx.emit bare (.switch value cases default)).fault = none ↔
      cx.AcceptsSwitch value cases default := by
  rw [emit, if_neg (Bool.eq_false_iff.1 direct), complete_after_iff]
  simp only [complete_block_iff, complete_append_iff, emitCases_complete_iff,
    emitDefault_complete_iff, exists_and_right]
  exact ⟨fun ⟨h, h', h''⟩ => ⟨h, h', h''⟩, fun ⟨h, h', h''⟩ => ⟨h, h', h''⟩⟩

theorem emit_lowered_complete_iff {bare : Bool}
    (lowers : (value.ty.isString && !cx.dialect.stringSwitch) = true) :
    (cx.emit bare (.switch value cases default)).fault = none ↔
      cx.AcceptsTests value cases default := by
  rw [emit, if_pos lowers, complete_append_iff, emitTests_complete_iff, emitOtherwise_complete_iff]
  constructor
  · rintro ⟨tests, otherwise⟩
    exact ⟨⟨fun c hc => (tests c hc).1, fun body hb => (otherwise body hb).1⟩,
      fun c hc => (tests c hc).2, fun body hb => (otherwise body hb).2⟩
  · rintro ⟨⟨branches, closed⟩, tests, otherwise⟩
    exact ⟨fun c hc => ⟨branches c hc, tests c hc⟩,
      fun body hb => ⟨closed body hb, otherwise body hb⟩⟩

end Context

end CppEmission
