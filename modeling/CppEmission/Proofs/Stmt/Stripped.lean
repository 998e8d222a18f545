import CppEmission.Proofs.Stmt.Balance
import CppEmission.Proofs.Stmt.Meaning
import CppEmission.Proofs.Acceptance.WellFormed

namespace CppEmission

namespace Stmt

mutual

-- along the recursion of `leavesSwitch`; loops and switches catch the breaks inside them
theorem run_never_broke (o : Oracle) : ∀ (s : Stmt), s.leavesSwitch = false →
    s.holdsNative = false → (run o s).Never .broke
  | expr _, _, _ | continueLoop, _, _ | ret _, _, _ | raise _, _, _ | constant _, _, _ =>
    fun _ => nofun
  | block body, h, own => runAll_never_broke o body h own
  | ifElse test thenDo elseDo, h, own => by
    obtain ⟨first, second⟩ := Bool.or_eq_false_iff.1 h
    obtain ⟨ownFirst, ownSecond⟩ := Bool.or_eq_false_iff.1 own
    intro before
    rw [run]
    dsimp only
    split
    · exact run_never_broke o thenDo first ownFirst _
    · exact runElse_never_broke o elseDo second ownSecond _
  | whileLoop .., _, _ | doWhile .., _, _ | forLoop .., _, _ | foreach .., _, _ | switch .., _, _ =>
    fun before => by
      rw [run]
      exact Run.never_broke_afterBreak _ _

theorem runAll_never_broke (o : Oracle) : ∀ (body : List Stmt), anyLeavesSwitch body = false →
    anyHoldsNative body = false → (runAll o body).Never .broke
  | [], _, _ => fun _ => nofun
  | s :: rest, h, own => by
    obtain ⟨first, second⟩ := Bool.or_eq_false_iff.1 h
    obtain ⟨ownFirst, ownSecond⟩ := Bool.or_eq_false_iff.1 own
    exact (run_never_broke o s first ownFirst).andThen (runAll_never_broke o rest second ownSecond)

theorem runElse_never_broke (o : Oracle) : ∀ (elseDo : Option Stmt),
    optLeavesSwitch elseDo = false → optHoldsNative elseDo = false →
    (runElse o elseDo).Never .broke
  | none, _, _ => fun _ => nofun
  | some s, h, own => run_never_broke o s h own

end

mutual

-- along the recursion of `stripTrailingBreak`; what stands in front of the end never breaks, so a
-- break of the whole comes from its end
theorem runAll_stripTrailingBreak (o : Oracle) : ∀ (body : List Stmt), IsClosed body →
    anyHoldsNative body = false →
    runAll o (stripTrailingBreak body) = (runAll o body).ending .afterBreak
  | [], _, _ => rfl
  | [s], closed, own => by
    rw [stripTrailingBreak, runAll, runAll, Run.andThen_ends_normal]
    exact runAll_stripBreak o s closed (Bool.or_eq_false_iff.1 own).1
  | s :: t :: rest, closed, own => by
    obtain ⟨first, others⟩ := Bool.or_eq_false_iff.1 closed
    obtain ⟨ownFirst, ownOthers⟩ := Bool.or_eq_false_iff.1 own
    have unbroken := run_never_broke o s first ownFirst
    rw [stripTrailingBreak, runAll, runAll_stripTrailingBreak o (t :: rest) others ownOthers,
      ← unbroken.andThen_ending, ← runAll]

theorem runAll_stripBreak (o : Oracle) (s : Stmt) (closed : anyLeavesSwitch (stripBreak s) = false)
    (own : s.holdsNative = false) : runAll o (stripBreak s) = (run o s).ending .afterBreak := by
  cases s with
  | breakOut => rfl
  | block body =>
    rw [stripBreak, runAll, runAll, Run.andThen_ends_normal]
    exact runAll_stripTrailingBreak o body (Bool.or_eq_false_iff.1 closed).1 own
  | _ =>
    have unbroken := run_never_broke o _ (Bool.or_eq_false_iff.1 closed).1 own
    exact (Run.andThen_ends_normal _).trans unbroken.ending_afterBreak.symm

end

/-- A branch that a lowered switch accepts never breaks once it is stripped. Whatever the oracle
says, it does what it did before, and ends as it did before but for a break, which the switch
around it would have caught. -/
theorem stripped_branch_runs_alike (o : Oracle) {body : List Stmt} (closed : IsClosed body)
    (own : anyHoldsNative body = false) (h : History) :
    (runAll o (stripTrailingBreak body) h).1 ≠ .broke ∧
      (runAll o (stripTrailingBreak body) h).1 = (runAll o body h).1.afterBreak ∧
      (runAll o (stripTrailingBreak body) h).2 = (runAll o body h).2 := by
  rw [runAll_stripTrailingBreak o body closed own]
  exact ⟨Run.never_broke_afterBreak _ h, rfl, rfl⟩

theorem stripped_branch_runs_alike_search :
    let found := Expr.symbol ⟨.bool, {}⟩ none ⟨"found", .localVar⟩
    let next := Stmt.expr (.postfixed ⟨.int .i32, {}⟩ .increment
      (.symbol ⟨.int .i32, {}⟩ none ⟨"n", .localVar⟩))
    let search := Stmt.whileLoop found (.block [next, .ifElse found .breakOut none])
    let body : List Stmt := [search, .block [.ifElse found (.ret none) none, next, .breakOut]]
    let o : Oracle := {
      holds := fun before _ => before.asked = 2
      rounds := fun _ _ => 5
      selects := fun _ _ => 0
      leaves := fun _ _ => .normal }
    let stripped := runAll o (stripTrailingBreak body) {}
    (IsClosed body ∧ anyHoldsNative body = false) ∧
      (runAll o body {}).1 = .broke ∧ (runAll o body {}).2.trace = [next, next, next] ∧
      stripped.1 = .normal ∧ stripped.2 = (runAll o body {}).2 := by
  intro found next search body o stripped
  have closed : IsClosed body := rfl
  have own : anyHoldsNative body = false := rfl
  obtain ⟨-, outcome, history⟩ := stripped_branch_runs_alike o closed own {}
  have broke : (runAll o body {}).1 = .broke := rfl
  exact ⟨⟨closed, own⟩, broke, rfl, outcome.trans (congrArg _ broke), history⟩

end Stmt

end CppEmission
