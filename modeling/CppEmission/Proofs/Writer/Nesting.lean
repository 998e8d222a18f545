import CppEmission.Settings

/-! What a writer keeps to: it ends every line that it begins, it writes a label one level to the
left of where it stands, and blocks and indents that are properly nested lead it back to its level,
but for labels at the margin. -/

namespace CppEmission.Writer

/-- The text has no last line that is left open. -/
def EndsLine (text : String) : Prop := text = "" ∨ text.toList.getLast? = some '\n'

theorem EndsLine.newline (text : String) : EndsLine (text ++ "\n") := .inr (by simp)

theorem EndsLine.terminated (text more : String) : EndsLine (text ++ terminated more) := by
  rw [Writer.terminated]
  split
  next ends => exact .inr (by simp [ends])
  next => exact String.append_assoc ▸ .newline (text ++ more)

theorem step_endsLine {w : Writer} (h : EndsLine w.buffer) (op : Op) :
    EndsLine (w.step op).buffer := by
  cases op with
  | line text | outdentedLine text | openBlock header | closeBlockWith closing => exact .newline _
  | raw text => exact .terminated _ text
  | blankLine => exact .newline _
  | indent | dedent => exact h

theorem run_endsLine {w : Writer} (h : EndsLine w.buffer) (ops : List Op) :
    EndsLine (w.run ops).buffer := by
  induction ops generalizing w with
  | nil => exact h
  | cons op ops ih => exact ih (step_endsLine h op)

namespace Op

def opens : Op → Bool
  | indent | openBlock _ => true
  | _ => false

def closes : Op → Bool
  | dedent | closeBlockWith _ => true
  | _ => false

def stays : Op → Bool
  | line _ | raw _ | blankLine => true
  | _ => false

end Op

theorem level_step_of_opens {op : Op} (h : op.opens) (w : Writer) :
    (w.step op).level = w.level + 1 := by
  cases op <;> first | rfl | cases h

theorem level_step_of_closes {op : Op} (h : op.closes) (w : Writer) :
    (w.step op).level = w.level - 1 := by
  cases op <;> first | rfl | cases h

theorem level_step_of_stays {op : Op} (h : op.stays) (w : Writer) :
    (w.step op).level = w.level := by
  cases op <;> first | rfl | cases h

theorem level_step_outdentedLine (text : String) (w : Writer) :
    (w.step (.outdentedLine text)).level = max w.level 1 := by
  change w.level - 1 + 1 = max w.level 1
  omega

/-- Whatever opens is closed behind what is nested in it, and nothing else is closed. The flag tells
whether a label stands outside of all that is opened. -/
inductive Nested : Bool → List Op → Prop
  | nil : Nested false []
  | stays {op : Op} : op.stays → Nested false [op]
  | label (text : String) : Nested true [.outdentedLine text]
  | within {op close : Op} {labelled : Bool} {body : List Op} : op.opens → Nested labelled body →
      close.closes → Nested false (op :: body ++ [close])
  | append {labelled labelled' : Bool} {ops ops' : List Op} : Nested labelled ops →
      Nested labelled' ops' → Nested (labelled || labelled') (ops ++ ops')

-- what is nested begins one level above the margin at least, so that a label in it finds its way
-- back, and what closes it does take the level down
theorem Nested.level_run {labelled : Bool} {ops : List Op} (h : Nested labelled ops) (w : Writer) :
    (w.run ops).level = max w.level labelled.toNat := by
  induction h generalizing w with
  | nil => exact (Nat.max_zero w.level).symm
  | stays h => exact (level_step_of_stays h w).trans (Nat.max_zero w.level).symm
  | label text => exact level_step_outdentedLine text w
  | @within _ _ labelled _ opens _ closes ih =>
    have bound : labelled.toNat ≤ 1 := Bool.toNat_le labelled
    rw [List.cons_append, run_cons, run_append, run_cons, run_nil, level_step_of_closes closes, ih,
      level_step_of_opens opens]
    simp only [Bool.toNat_false]
    omega
  | @append labelled labelled' _ _ _ _ ih ih' =>
    rw [run_append, ih', ih]
    cases labelled <;> cases labelled' <;> simp

/-- Wherever operations have led a writer that began with nothing, it has ended its lines, it writes
a label one level to the left or at the margin, and operations that are properly nested lead it back
to its level. The label itself, and nested operations that have a label outside of all blocks and
indents, do so unless the writer stands at the margin. -/
theorem writer_keeps_level_iff (settings : Settings) (ops : List Op) :
    let w := settings.writer.run ops
    EndsLine w.buffer ∧
      (∀ text, let behind := w.step (.outdentedLine text)
        behind.buffer = w.buffer ++ margin w.indentWidth (w.level - 1) ++ text ++ "\n" ∧
          (behind.level = w.level ↔ 0 < w.level)) ∧
      ∀ labelled nested, Nested labelled nested →
        ((w.run nested).level = w.level ↔ 0 < w.level ∨ labelled = false) := by
  intro w
  refine ⟨run_endsLine (.inl rfl) ops, fun text => ⟨rfl, ?_⟩, fun labelled nested h => ?_⟩
  · rw [level_step_outdentedLine]
    omega
  · rw [h.level_run]
    cases labelled <;> simp <;> omega

theorem writer_keeps_level_iff_chain :
    let front : List Op := [.openBlock "class A", .raw "#define X 1"]
    let nested : List Op := [.outdentedLine "public:", .openBlock "if (a)", .outdentedLine "x:",
      .dedent, .line "\x7d else \x7b", .indent, .closeBlock]
    let w := Settings.writer {} |>.run front
    Nested true nested ∧ (w.run nested).level = w.level ∧ w.level = 1 := by
  intro front nested w
  have branches : Nested false [.openBlock "if (a)", .outdentedLine "x:", .dedent,
      .line "\x7d else \x7b", .indent, .closeBlock] :=
    .append (.within rfl (.label "x:") rfl) (.append (.stays rfl) (.within rfl .nil rfl))
  have proper : Nested true nested := .append (.label "public:") branches
  have returns := (writer_keeps_level_iff {} front).2.2 true nested proper
  exact ⟨proper, returns.2 (.inl Nat.one_pos), rfl⟩

/-- A label at the margin leaves the writer one level to the right of where it stood, so that what
follows is indented. -/
theorem label_at_margin_indents :
    let w := Settings.writer {}
    let label : List Op := [.outdentedLine "public:"]
    Nested true label ∧ w.level = 0 ∧ (w.run label).level = 1 ∧
      (w.run (label ++ [.line "A();"])).buffer = "public:\n    A();\n" :=
  ⟨.label "public:", rfl, rfl, by decide⟩

end CppEmission.Writer
