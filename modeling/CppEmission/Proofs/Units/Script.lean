import CppEmission.Proofs.Outcome
import CppEmission.Units

namespace CppEmission

namespace Context

def entering (cx : Context) (scope : Scope) : Context := { cx with scope }

def after (cx : Context) : List Action → Context
  | [] => cx
  | .enterClass c :: rest => (cx.entering (.enterClass c)).after rest
  | .enterMethod m :: rest => (cx.entering (cx.scope.enterMethod m)).after rest
  | .write _ :: rest => cx.after rest

def script (cx : Context) : List Action → Script
  | [] => {}
  | .enterClass c :: rest => (cx.entering (.enterClass c)).script rest
  | .enterMethod m :: rest => (cx.entering (cx.scope.enterMethod m)).script rest
  | .write text :: rest => text cx ++ cx.script rest

theorem after_eq_entering (cx : Context) (as : List Action) :
    cx.after as = cx.entering (cx.after as).scope := by
  induction as generalizing cx with
  | nil => rfl
  | cons a as ih =>
    cases a with
    | enterClass c => exact ih (cx.entering (.enterClass c))
    | enterMethod m => exact ih (cx.entering (cx.scope.enterMethod m))
    | write text => exact ih cx

theorem after_append (cx : Context) (as bs : List Action) :
    cx.after (as ++ bs) = (cx.after as).after bs := by
  induction as generalizing cx with
  | nil => rfl
  | cons a as ih => cases a <;> exact ih _

@[simp] theorem script_append (cx : Context) (as bs : List Action) :
    cx.script (as ++ bs) = cx.script as ++ (cx.after as).script bs := by
  induction as generalizing cx with
  | nil => simp [script, after]
  | cons a as ih => cases a <;> simp [script, after, ih, Script.append_assoc]

end Context

theorem Writer.perform_append (w : Writer) {s : Script} (h : s.fault = none) (t : Script) :
    w.perform (s ++ t) = (w.perform s).perform t := by
  rw [Script.append_of_complete h]
  exact w.run_append s.ops t.ops

namespace Script

theorem fault_append {s : Script} (h : s.fault = none) (t : Script) :
    (s ++ t).fault = t.fault := by
  rw [append_of_complete h]

theorem complete_append_iff {s t : Script} :
    (s ++ t).fault = none ↔ s.fault = none ∧ t.fault = none := by
  cases h : s.fault with
  | none => rw [fault_append h, and_iff_right rfl]
  | some e => simp [append_of_fault h, h]

theorem complete_after_iff {x : Except EmitError α} {k : α → Script} :
    (after x k).fault = none ↔ ∃ a, x = .ok a ∧ (k a).fault = none := by
  cases x <;> simp [fail]

theorem fault_concat {ss : List Script} (h : ∀ s ∈ ss, s.fault = none) :
    (concat ss).fault = none := by
  induction ss with
  | nil => rfl
  | cons s ss ih =>
    rw [concat, fault_append (h s List.mem_cons_self)]
    exact ih fun s hs => h s (List.mem_cons_of_mem _ hs)

theorem append_eq_complete {s t : Script} {ops : List Writer.Op} :
    s ++ t = ⟨ops, none⟩ ↔ ∃ a b, s = ⟨a, none⟩ ∧ t = ⟨b, none⟩ ∧ ops = a ++ b := by
  rcases s with ⟨a, _ | e⟩
  · rcases t with ⟨b, fault⟩
    rw [append_of_complete rfl]
    constructor
    · intro h
      cases h
      exact ⟨a, b, rfl, rfl, rfl⟩
    · rintro ⟨a, b, ha, hb, rfl⟩
      cases ha
      cases hb
      rfl
  · rw [append_of_fault rfl]
    simp

theorem after_eq_complete {x : Except EmitError α} {k : α → Script} {ops : List Writer.Op} :
    after x k = ⟨ops, none⟩ ↔ ∃ a, x = .ok a ∧ k a = ⟨ops, none⟩ := by
  cases x <;> simp [fail]

end Script

namespace Session

theorem run_eq_script (s : Session) (as : List Action) :
    (s.run as).1.writer = s.writer.perform (s.context.script as) ∧
      (s.run as).2 = (s.context.script as).fault := by
  induction as generalizing s with
  | nil => exact ⟨rfl, rfl⟩
  | cons a as ih =>
    cases a with
    | enterClass c => exact ih (s.enterClass c)
    | enterMethod m => exact ih (s.enterMethod m)
    | write text =>
      rw [run, step, Context.script]
      cases h : (text s.context).fault with
      | none =>
        rw [Writer.perform_append _ h, Script.fault_append h]
        exact ih (s.perform (text s.context))
      | some e =>
        rw [Script.append_of_fault h, h]
        exact ⟨rfl, rfl⟩

theorem run_context (s : Session) (as : List Action) :
    (s.run as).1.context = s.context.entering (s.run as).1.context.scope := by
  induction as generalizing s with
  | nil => rfl
  | cons a as ih =>
    cases a with
    | enterClass c => exact ih (s.enterClass c)
    | enterMethod m => exact ih (s.enterMethod m)
    | write text =>
      rw [run, step]
      cases (text s.context).fault with
      | none => exact ih (s.perform (text s.context))
      | some e => rfl

end Session

def Script.text (writer : Writer) (s : Script) : Except EmitError String :=
  match s.fault with
  | none => .ok (writer.perform s).buffer
  | some e => .error e

theorem Script.text_eq_ok {writer : Writer} {s : Script} {text : String} :
    s.text writer = .ok text ↔ ∃ ops, s = ⟨ops, none⟩ ∧ (writer.run ops).buffer = text := by
  rcases s with ⟨ops, _ | e⟩ <;> simp [Script.text, Writer.perform]

theorem Script.text_eq_error {writer : Writer} {s : Script} {e : EmitError} :
    s.text writer = .error e ↔ s.fault = some e := by
  rcases s with ⟨ops, _ | e'⟩ <;> simp [Script.text]

namespace Generator

def entering (g : Generator) (scope : Scope) : Generator :=
  { g with context := g.context.entering scope }

@[simp] theorem entering_settings (g : Generator) (scope : Scope) :
    (g.entering scope).settings = g.settings := rfl

theorem unit_eq_text (g : Generator) (as : List Action) :
    ∃ scope, g.unit as = (g.entering scope, (g.context.script as).text g.settings.writer) := by
  have place := Session.run_context ⟨g.context, g.settings.writer⟩ as
  have written := Session.run_eq_script ⟨g.context, g.settings.writer⟩ as
  rw [unit, Script.text, ← written.1, ← written.2]
  revert place
  rcases Session.run ⟨g.context, g.settings.writer⟩ as with ⟨s, _ | e⟩ <;> intro place
  · exact ⟨s.context.scope, congrArg (fun cx => (Generator.mk g.settings cx, _)) place⟩
  · exact ⟨s.context.scope, congrArg (fun cx => (Generator.mk g.settings cx, _)) place⟩

end Generator

end CppEmission
