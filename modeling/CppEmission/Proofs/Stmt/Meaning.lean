import CppEmission.Stmt

/-! What statements do when they run. All that the tree leaves open is answered by an oracle: which
tests hold, how many rounds a loop makes, where a switch goes. -/

namespace CppEmission

inductive Outcome
  | normal
  | broke
  | continued
  | returned
  | threw
  deriving DecidableEq

namespace Outcome

/-- Outside the loop or the switch that a break leaves, nothing is left of it. -/
def afterBreak : Outcome → Outcome
  | broke => normal
  | other => other

def afterContinue : Outcome → Outcome
  | continued => normal
  | other => other

theorem afterBreak_of_ne {outcome : Outcome} (h : outcome ≠ broke) :
    outcome.afterBreak = outcome := by
  cases outcome with
  | broke => exact absurd rfl h
  | _ => rfl

theorem afterBreak_ne_broke (outcome : Outcome) : outcome.afterBreak ≠ broke := by
  cases outcome <;> decide

end Outcome

/-- What has happened so far: the statements that took effect, and the number of questions that the
oracle has answered. -/
structure History where
  trace : List Stmt := []
  asked : Nat := 0

namespace History

def tracing (h : History) (s : Stmt) : History := { h with trace := h.trace ++ [s] }

def asking (h : History) : History := { h with asked := h.asked + 1 }

end History

/-- Answers that may depend on all that happened before the question. -/
structure Oracle where
  holds : History → Expr → Bool
  rounds : History → Stmt → Nat
  selects : History → Expr → Nat
  leaves : History → String → Outcome

abbrev Run := History → Outcome × History

namespace Run

def ends (outcome : Outcome) : Run := fun h => (outcome, h)

def traces (s : Stmt) (outcome : Outcome) : Run := fun h => (outcome, h.tracing s)

def andThen (first next : Run) : Run := fun h =>
  match first h with
  | (.normal, after) => next after
  | stopped => stopped

def ending (f : Outcome → Outcome) (r : Run) : Run := fun h => (f (r h).1, (r h).2)

def repeated (round : Run) : Nat → Run
  | 0 => ends .normal
  | n + 1 => round.andThen (repeated round n)

def loop (body : Run) (rounds : Nat) : Run :=
  (repeated (body.ending .afterContinue) rounds).ending .afterBreak

end Run

namespace Stmt

mutual

def run (o : Oracle) : Stmt → Run
  | expr e => .traces (.expr e) .normal
  | block body => runAll o body
  | ifElse test thenDo elseDo => fun h =>
    (if o.holds h test then run o thenDo else runElse o elseDo) h.asking
  | whileLoop test body => fun h => Run.loop (run o body) (o.rounds h (.whileLoop test body)) h.asking
  | doWhile body test => fun h => Run.loop (run o body) (o.rounds h (.doWhile body test) + 1) h.asking
  | forLoop init test advance body => fun h =>
    Run.loop (run o body) (o.rounds h (.forLoop init test advance body)) h.asking
  | foreach element value collection body => fun h =>
    Run.loop (run o body) (o.rounds h (.foreach element value collection body)) h.asking
  | switch value cases default => fun h =>
    ((runFrom o (runDefault o default) cases (o.selects h value)).ending .afterBreak) h.asking
  | breakOut => .ends .broke
  | continueLoop => .ends .continued
  | ret _ => .ends .returned
  | raise message => .traces (.raise message) .threw
  | native text => fun h => Run.traces (.native text) (o.leaves h text) h.asking
  | constant c => .traces (.constant c) .normal

def runAll (o : Oracle) : List Stmt → Run
  | [] => .ends .normal
  | s :: rest => (run o s).andThen (runAll o rest)

def runElse (o : Oracle) : Option Stmt → Run
  | none => .ends .normal
  | some s => run o s

def runFrom (o : Oracle) (default : Run) : List (Case Stmt) → Nat → Run
  | [], _ => default
  | _ :: rest, n + 1 => runFrom o default rest n
  | ⟨_, body, fallsThrough⟩ :: rest, 0 =>
    (runAll o body).andThen (if fallsThrough then runFrom o default rest 0 else .ends .normal)

def runDefault (o : Oracle) : Option (List Stmt) → Run
  | none => .ends .normal
  | some body => runAll o body

end

end Stmt

namespace Run

variable {first next r : Run} {outcome : Outcome}

def Never (outcome : Outcome) (r : Run) : Prop := ∀ h, (r h).1 ≠ outcome

theorem andThen_of_normal {h after : History} (ran : first h = (.normal, after)) :
    first.andThen next h = next after := by
  rw [andThen, ran]

theorem andThen_of_ne {h : History} (stopped : (first h).1 ≠ .normal) :
    first.andThen next h = first h := by
  rw [andThen]
  split
  next after ran => exact absurd (congrArg Prod.fst ran) stopped
  · rfl

@[simp] theorem andThen_ends_normal (r : Run) : r.andThen (.ends .normal) = r := by
  funext h
  by_cases ran : (r h).1 = .normal
  · have split : r h = (.normal, (r h).2) := Prod.ext ran rfl
    rw [andThen_of_normal split, split]
    rfl
  · exact andThen_of_ne ran

theorem andThen_assoc (r s t : Run) : (r.andThen s).andThen t = r.andThen (s.andThen t) := by
  funext h
  by_cases ran : (r h).1 = .normal
  · have split : r h = (.normal, (r h).2) := Prod.ext ran rfl
    rw [andThen_of_normal split, andThen, andThen_of_normal split, andThen]
  · rw [andThen_of_ne ran, andThen_of_ne (andThen_of_ne ran ▸ ran), andThen_of_ne ran]

theorem Never.andThen (hfirst : first.Never outcome) (hnext : next.Never outcome) :
    (first.andThen next).Never outcome := by
  intro h
  by_cases ran : (first h).1 = .normal
  · rw [andThen_of_normal (Prod.ext ran rfl)]
    exact hnext _
  · rw [andThen_of_ne ran]
    exact hfirst h

theorem Never.andThen_normal (hnext : next.Never .normal) : (first.andThen next).Never .normal := by
  intro h
  by_cases ran : (first h).1 = .normal
  · rw [andThen_of_normal (Prod.ext ran rfl)]
    exact hnext _
  · rwa [andThen_of_ne ran]

theorem never_broke_afterBreak (r : Run) : (r.ending .afterBreak).Never .broke :=
  fun h => (r h).1.afterBreak_ne_broke

theorem Never.ending_afterBreak (hr : r.Never .broke) : r.ending .afterBreak = r := by
  funext h
  exact Prod.ext (Outcome.afterBreak_of_ne (hr h)) rfl

theorem Never.andThen_ending (hfirst : first.Never .broke) :
    (first.andThen next).ending .afterBreak = first.andThen (next.ending .afterBreak) := by
  funext h
  by_cases ran : (first h).1 = .normal
  · have split : first h = (.normal, (first h).2) := Prod.ext ran rfl
    rw [ending, andThen_of_normal split, andThen_of_normal split, ending]
  · rw [ending, andThen_of_ne ran, andThen_of_ne ran, Outcome.afterBreak_of_ne (hfirst h)]

end Run

namespace Stmt

theorem runAll_append (o : Oracle) (body more : List Stmt) :
    runAll o (body ++ more) = (runAll o body).andThen (runAll o more) := by
  induction body with
  | nil => rfl
  | cons s body ih => rw [List.cons_append, runAll, runAll, ih, Run.andThen_assoc]

mutual

-- along the recursion of `completes`; loops and switches count as completing, so that none of them
-- has to be looked into
theorem run_never_normal (o : Oracle) : ∀ (s : Stmt), s.completes = false →
    (run o s).Never .normal
  | breakOut, _ | continueLoop, _ | ret _, _ | raise _, _ => fun _ => nofun
  | block body, h => runAll_never_normal o body h
  | ifElse test thenDo (some elseDo), h => by
    obtain ⟨first, second⟩ := Bool.or_eq_false_iff.1 h
    intro before
    rw [run, runElse]
    dsimp only
    split
    · exact run_never_normal o thenDo first _
    · exact run_never_normal o elseDo second _

theorem runAll_never_normal (o : Oracle) : ∀ (body : List Stmt), completesAll body = false →
    (runAll o body).Never .normal
  | [s], h => by
    rw [runAll, runAll, Run.andThen_ends_normal]
    exact run_never_normal o s h
  | _ :: s :: rest, h => (runAll_never_normal o (s :: rest) h).andThen_normal

end

end Stmt

end CppEmission
