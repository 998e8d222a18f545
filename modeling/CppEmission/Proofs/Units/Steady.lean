import CppEmission.Proofs.Units.Script

namespace CppEmission

def Steady (as : List Action) : Prop :=
  ∀ (cx : Context) (scope : Scope), (cx.entering scope).script as = cx.script as

namespace Steady

theorem nil : Steady [] := fun _ _ => rfl

-- to enter a class is to forget the place before, the method included
theorem enterClass (c : Option Class) (as : List Action) : Steady (.enterClass c :: as) :=
  fun _ _ => rfl

theorem put {as : List Action} (script : Script) (h : Steady as) :
    Steady (.put script :: as) := by
  intro cx scope
  simp only [Action.put, Context.script, h cx scope]

theorem script_after {bs : List Action} (h : Steady bs) (cx : Context) (as : List Action) :
    (cx.after as).script bs = cx.script bs := by
  rw [cx.after_eq_entering as]
  exact h cx _

theorem append {as bs : List Action} (h : Steady as) (h' : Steady bs) : Steady (as ++ bs) := by
  intro cx scope
  rw [Context.script_append, Context.script_append, h cx scope, h'.script_after, h'.script_after,
    h' cx scope]

theorem flatMap {f : α → List Action} (h : ∀ x, Steady (f x)) (xs : List α) :
    Steady (xs.flatMap f) := by
  induction xs with
  | nil => exact .nil
  | cons x xs ih => exact (h x).append ih

theorem puts (f : α → Script) (xs : List α) : Steady (xs.map fun x => .put (f x)) := by
  induction xs with
  | nil => exact .nil
  | cons x xs ih => exact ih.put (f x)

theorem enclose {body : List Action} (settings : Settings) (h : Steady body) :
    Steady (settings.enclose body) := by
  rw [Settings.enclose]
  split
  · exact h
  · exact (h.append (put _ .nil)).put _

theorem declare (c : Class) : Steady c.declare :=
  put blank (enterClass (some c) _)

theorem define (c : Class) : Steady c.define :=
  enterClass (some c) _

theorem forwardDeclarations (p : Program) : Steady p.forwardDeclarations := by
  rw [Program.forwardDeclarations]
  split
  · exact .nil
  · exact put _ .nil

theorem declareResources (resources : List Resource) :
    Steady (Program.declareResources resources) := by
  rw [Program.declareResources]
  split
  · exact .nil
  · exact put _ .nil

theorem interface (p : Program) (settings : Settings) (order : List Class)
    (resources : List Resource) : Steady (p.interface settings order resources) := by
  apply put
  apply append (puts _ p.natives)
  apply enclose
  apply append
  · exact ((forwardDeclarations p).append (puts _ p.enums)).append (flatMap declare order)
  · exact declareResources resources

theorem implementation (p : Program) (settings : Settings) (resources : List Resource) :
    Steady (p.implementation settings resources) := by
  apply put
  apply enclose
  exact (flatMap define p.classes).append (puts _ resources)

end Steady

namespace Generator

def answer (g : Generator) : Except EmitError Units := do
  let p := g.context.program
  let order ← p.dependencyOrder
  let resources ← p.embeddable
  let interface ← (g.context.script (p.interface g.settings order resources)).text
    g.settings.writer
  let implementation ← (g.context.script (p.implementation g.settings resources)).text
    g.settings.writer
  return ⟨interface, implementation⟩

theorem unit_entering {as : List Action} (h : Steady as) (g : Generator) (scope : Scope) :
    ∃ scope', (g.entering scope).unit as =
      (g.entering scope', (g.context.script as).text g.settings.writer) := by
  obtain ⟨scope', moved⟩ := (g.entering scope).unit_eq_text as
  rw [← h g.context scope]
  exact ⟨scope', moved⟩

theorem run_eq_answer (g : Generator) : ∃ scope, g.run = (g.entering scope, g.answer) := by
  rw [run, answer]
  cases g.context.program.dependencyOrder with
  | error e => exact ⟨g.context.scope, rfl⟩
  | ok order =>
    cases g.context.program.embeddable with
    | error e => exact ⟨g.context.scope, rfl⟩
    | ok resources =>
      obtain ⟨scope, first⟩ :=
        g.unit_eq_text (g.context.program.interface g.settings order resources)
      obtain ⟨scope', second⟩ :=
        unit_entering (Steady.implementation g.context.program g.settings resources) g scope
      simp only [first, bind, Except.bind]
      cases (g.context.script (g.context.program.interface g.settings order resources)).text
        g.settings.writer with
      | error e => exact ⟨scope, rfl⟩
      | ok interface =>
        simp only [entering_settings, second]
        cases (g.context.script (g.context.program.implementation g.settings resources)).text
          g.settings.writer with
        | error e => exact ⟨scope', rfl⟩
        | ok implementation => exact ⟨scope', rfl⟩

theorem answer_entering (g : Generator) (scope : Scope) :
    (g.entering scope).answer = g.answer := by
  simp only [answer, entering, Steady.interface _ _ _ _ g.context scope,
    Steady.implementation _ _ _ g.context scope]
  rfl

def answers (g : Generator) : Nat → List (Except EmitError Units)
  | 0 => []
  | n + 1 => g.run.2 :: g.run.1.answers n

theorem answers_eq_replicate (g : Generator) (n : Nat) :
    g.answers n = List.replicate n g.answer := by
  induction n generalizing g with
  | zero => rfl
  | succ n ih =>
    obtain ⟨scope, stays⟩ := g.run_eq_answer
    rw [answers, stays, ih, answer_entering]
    rfl

end Generator

theorem generate_eq_answer (dialect : Dialect) (settings : Settings) (p : Program) :
    generate dialect settings p = Generator.answer ⟨settings, ⟨dialect, p, {}⟩⟩ := by
  obtain ⟨scope, stays⟩ := Generator.run_eq_answer ⟨settings, ⟨dialect, p, {}⟩⟩
  exact congrArg Prod.snd stays

/-- Every run of a generator gives the units of its program or the error that they end in, wherever
in the program it was left. -/
theorem Generator.run_generates (dialect : Dialect) (settings : Settings) (p : Program)
    (scope : Scope) :
    (Generator.run ⟨settings, ⟨dialect, p, scope⟩⟩).2 = generate dialect settings p ∧
      ∀ n, Generator.answers ⟨settings, ⟨dialect, p, scope⟩⟩ n =
        List.replicate n (generate dialect settings p) := by
  let fresh : Generator := ⟨settings, ⟨dialect, p, {}⟩⟩
  have settled : (fresh.entering scope).answer = fresh.answer := fresh.answer_entering scope
  rw [generate_eq_answer, ← settled]
  constructor
  · obtain ⟨left, stays⟩ := (fresh.entering scope).run_eq_answer
    exact congrArg Prod.snd stays
  · exact answers_eq_replicate (fresh.entering scope)

end CppEmission
