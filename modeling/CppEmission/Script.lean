import CppEmission.Refusal
import CppEmission.Writer

namespace CppEmission

structure Script where
  ops : List Writer.Op := []
  fault : Option EmitError := none

namespace Script

/-- One script after another. What stands behind a fault is never written. -/
def append (s t : Script) : Script :=
  match s.fault with
  | some _ => s
  | none => ⟨s.ops ++ t.ops, t.fault⟩

instance : Append Script := ⟨append⟩

/-- A script that needs the value of `x` first. -/
def after {α : Type} (x : Except EmitError α) (k : α → Script) : Script :=
  match x with
  | .ok a => k a
  | .error e => ⟨[], some e⟩

def fail (e : EmitError) : Script := ⟨[], some e⟩

def op (o : Writer.Op) : Script := ⟨[o], none⟩

def line (text : String) : Script := op (.line text)

def openBlock (header : String) : Script := op (.openBlock header)

def closeBlock : Script := op .closeBlock

def block (header : String) (body : Script) : Script := openBlock header ++ body ++ closeBlock

def concat : List Script → Script
  | [] => {}
  | s :: rest => s ++ concat rest

def result (s : Script) : Except EmitError Unit :=
  match s.fault with
  | some e => .error e
  | none => .ok ()

@[simp] theorem append_of_fault {s : Script} {e : EmitError} (h : s.fault = some e)
    (t : Script) : s ++ t = s := by
  change append s t = s
  simp [append, h]

theorem append_of_complete {s : Script} (h : s.fault = none) (t : Script) :
    s ++ t = ⟨s.ops ++ t.ops, t.fault⟩ := by
  change append s t = _
  simp [append, h]

@[simp] theorem nil_append (s : Script) : ({} : Script) ++ s = s :=
  append_of_complete rfl s

@[simp] theorem append_nil (s : Script) : s ++ ({} : Script) = s := by
  cases h : s.fault with
  | some e => exact append_of_fault h _
  | none => rw [append_of_complete h]; simp [← h]

theorem append_assoc (s t u : Script) : s ++ t ++ u = s ++ (t ++ u) := by
  change append (append s t) u = append s (append t u)
  rcases s with ⟨ops, _ | e⟩
  · rcases t with ⟨ops', _ | e'⟩ <;> simp [append]
  · rfl

@[simp] theorem after_ok {α : Type} (a : α) (k : α → Script) : after (.ok a) k = k a := rfl

@[simp] theorem after_error {α : Type} (e : EmitError) (k : α → Script) :
    after (.error e) k = fail e := rfl

end Script

/-- Writes what the script holds, up to its fault. -/
def Writer.perform (w : Writer) (s : Script) : Writer := w.run s.ops

end CppEmission
