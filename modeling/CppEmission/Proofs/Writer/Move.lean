import CppEmission.Script

namespace CppEmission

namespace Writer

inductive Move
  | write (line : String)
  | verbatim (text : String)
  | indent
  | dedent

def Op.moves : Op → List Move
  | .line text => [.write text]
  | .raw text => [.verbatim (terminated text)]
  | .blankLine => [.verbatim "\n"]
  | .indent => [.indent]
  | .dedent => [.dedent]
  | .outdentedLine text => [.dedent, .write text, .indent]
  | .openBlock header => [.write (blockHeader header), .indent]
  | .closeBlockWith closing => [.dedent, .write closing]

def move (w : Writer) : Move → Writer
  | .write line => w.writeLine line
  | .verbatim text => { w with buffer := w.buffer ++ text }
  | .indent => w.indented
  | .dedent => w.dedented

def moved (w : Writer) (ms : List Move) : Writer := ms.foldl move w

@[simp] theorem moved_nil (w : Writer) : w.moved [] = w := rfl

@[simp] theorem moved_cons (w : Writer) (m : Move) (ms : List Move) :
    w.moved (m :: ms) = (w.move m).moved ms := rfl

theorem moved_append (w : Writer) (ms ns : List Move) :
    w.moved (ms ++ ns) = (w.moved ms).moved ns := by
  simp [moved]

theorem step_eq_moved (w : Writer) (op : Op) : w.step op = w.moved op.moves := by
  cases op <;> rfl

theorem run_eq_moved (w : Writer) (ops : List Op) : w.run ops = w.moved (ops.flatMap Op.moves) := by
  induction ops generalizing w with
  | nil => rfl
  | cons op ops ih => rw [run_cons, List.flatMap_cons, moved_append, ih, step_eq_moved]

def appended (width level : Nat) : List Move → List String
  | [] => []
  | .write line :: rest => (margin width level ++ line ++ "\n") :: appended width level rest
  | .verbatim text :: rest => text :: appended width level rest
  | .indent :: rest => appended width (level + 1) rest
  | .dedent :: rest => appended width (level - 1) rest

theorem buffer_moved (w : Writer) (ms : List Move) :
    (w.moved ms).buffer = w.buffer ++ String.join (appended w.indentWidth w.level ms) := by
  induction ms generalizing w with
  | nil => simp [appended]
  | cons m ms ih =>
    rw [moved_cons, ih]
    cases m <;> simp [move, appended, writeLine, indented, dedented, String.append_assoc]

/-- How far above a level the writer stands after the moves, where it began `d` levels above it; no
answer where a move would lead below. -/
def depth? : (d : Nat) → List Move → Option Nat
  | d, [] => some d
  | d, .write _ :: rest => depth? d rest
  | d, .verbatim _ :: rest => depth? d rest
  | d, .indent :: rest => depth? (d + 1) rest
  | 0, .dedent :: _ => none
  | d + 1, .dedent :: rest => depth? d rest

theorem depth?_append (d : Nat) (ms ns : List Move) :
    depth? d (ms ++ ns) = (depth? d ms).bind (depth? · ns) := by
  induction d, ms using depth?.induct with
  | case1 d => rfl
  | case5 ms => rfl
  | case2 d line ms ih | case3 d text ms ih | case4 d ms ih | case6 d ms ih => exact ih

theorem level_moved {d e : Nat} {ms : List Move} (h : depth? d ms = some e) {w : Writer} {n : Nat}
    (hw : w.level = n + d) : (w.moved ms).level = n + e := by
  induction d, ms using depth?.induct generalizing w with
  | case1 d =>
    cases h
    exact hw
  | case2 d line ms ih | case3 d text ms ih => exact ih h hw
  | case4 d ms ih => exact ih h (congrArg (· + 1) hw)
  | case5 ms => cases h
  | case6 d ms ih => exact ih h (congrArg (· - 1) hw)

theorem margin_add (width m n : Nat) :
    margin width (m + n) = margin width m ++ margin width n := by
  rw [margin, margin, margin, ← String.ofList_append, List.replicate_append_replicate, Nat.add_mul]

theorem margin_eq_join (width level : Nat) :
    margin width level =
      String.join (List.replicate level (String.ofList (List.replicate width ' '))) := by
  induction level with
  | zero => simp [margin]
  | succ n ih =>
    have one : margin width 1 = String.ofList (List.replicate width ' ') := by
      rw [margin, Nat.one_mul]
    rw [List.replicate_succ, String.join_cons, ← ih, ← one, ← margin_add, Nat.add_comm]

theorem appended_add {d : Nat} {ms : List Move} (h : (depth? d ms).isSome)
    (plain : ∀ text, .verbatim text ∉ ms) (width n : Nat) :
    appended width (n + d) ms = (appended width d ms).map (margin width n ++ ·) := by
  induction d, ms using depth?.induct with
  | case1 d => rfl
  | case2 d line ms ih =>
    rw [appended, ih h fun text => List.not_mem_of_not_mem_cons (plain text), margin_add]
    simp [appended, String.append_assoc]
  | case3 d text ms ih => exact absurd List.mem_cons_self (plain text)
  | case4 d ms ih | case6 d ms ih =>
    exact ih h fun text => List.not_mem_of_not_mem_cons (plain text)
  | case5 ms => cases h

theorem exists_buffer_run (w : Writer) (ops : List Op) :
    ∃ more, (w.run ops).buffer = w.buffer ++ more := by
  rw [run_eq_moved, buffer_moved]
  exact ⟨_, rfl⟩

theorem line_isInfix {ops : List Op} {text : String} (h : .line text ∈ ops) (w : Writer) :
    (text ++ "\n").toList <:+: (w.run ops).buffer.toList := by
  obtain ⟨before, after, rfl⟩ := List.append_of_mem h
  obtain ⟨more, buffer⟩ := exists_buffer_run ((w.run before).writeLine text) after
  refine ⟨((w.run before).buffer ++ margin (w.run before).indentWidth (w.run before).level).toList,
    more.toList, ?_⟩
  rw [run_append, run_cons, step, buffer, writeLine]
  simp only [String.toList_append, List.append_assoc]

end Writer

namespace Script

open Writer

def moves (s : Script) : List Move := s.ops.flatMap Op.moves

theorem perform_eq_moved (s : Script) (w : Writer) : w.perform s = w.moved s.moves :=
  w.run_eq_moved s.ops

end Script

end CppEmission
