import CppEmission.Proofs.Surface.Derivation

namespace CppEmission.Surface

variable {ν : Type}

inductive Frame (ν : Type)
  | group
  | index (array : Term ν)
  | call (callee : Term ν)
  | test (test : Term ν)
  | before (op : String)
  | between (p : Priority) (op : String) (left : Term ν)
  | assignment (op : String) (target : Term ν)
  | conditional (test onTrue : Term ν)

namespace Frame

def level? : Frame ν → Option Priority
  | group | index _ | call _ | test _ => none
  | before _ => some .unary
  | between p _ _ => some p
  | assignment _ _ => some .assign
  | conditional _ _ => some .cond

def awaits : Frame ν → Priority
  | group | index _ | call _ | test _ => .statement
  | before _ => .unary
  | between p _ _ => p.tighter
  | assignment _ _ | conditional _ _ => .assign

def fill : Frame ν → Term ν → Term ν
  | group, t | test _, t => t
  | index a, t => .index a t
  | call f, t => .call f t
  | before op, t => .before op t
  | between _ op l, t => .between op l t
  | assignment op l, t => .between op l t
  | conditional c u, t => .conditional c u t

def closesAt (p : Priority) (f : Frame ν) : Bool := f.level?.any (p ≤ ·)

end Frame

def reduce (p : Priority) : List (Frame ν) → Term ν → List (Frame ν) × Term ν
  | [], t => ([], t)
  | f :: fs, t => if f.closesAt p then reduce p fs (f.fill t) else (f :: fs, t)

inductive State (ν : Type)
  | wants (frames : List (Frame ν))
  | has (frames : List (Frame ν)) (operand : Term ν)
  | wantsMember (frames : List (Frame ν)) (object : Term ν) (access : String)
  | wantsBrace (frames : List (Frame ν)) (type : ν)

namespace State

def emptyCall : List (Frame ν) → Option (State ν)
  | .call f :: fs => some (.has fs (.call f .nothing))
  | _ => none

def operand (fs : List (Frame ν)) : Token ν → Option (State ν)
  | .name x => some (.has fs (.name x))
  | .literal s => some (.has fs (.literal s))
  | .mark s =>
    if s ∈ prefixes then some (.wants (.before s :: fs))
    else if s = "(" then some (.wants (.group :: fs))
    else if s = ")" then emptyCall fs
    else none

def levels : List Priority :=
  [.statement, .condOr, .condAnd, .bitOr, .bitXor, .bitAnd, .equality, .relational, .shift,
    .additive, .multiplicative]

def infix? (s : String) : Option Priority := levels.find? (s ∈ infixes ·)

def close (s : String) : List (Frame ν) × Term ν → Option (State ν)
  | (.group :: fs, t) => if s = ")" then some (.has fs t) else none
  | (.index a :: fs, t) => if s = "]" then some (.has fs (.index a t)) else none
  | (.call f :: fs, t) => if s = ")" then some (.has fs (.call f t)) else none
  | (.test c :: fs, t) => if s = ":" then some (.wants (.conditional c t :: fs)) else none
  | _ => none

def enter (p : Priority) (f : Term ν → Frame ν) (fs : List (Frame ν)) (t : Term ν) : State ν :=
  .wants (f (reduce p fs t).2 :: (reduce p fs t).1)

def emptyBraces (fs : List (Frame ν)) : Term ν → Option (State ν)
  | .name x => some (.wantsBrace fs x)
  | _ => none

def operator (fs : List (Frame ν)) (t : Term ν) (s : String) : Option (State ν) :=
  if s ∈ postfixes then some (.has fs (.after s t))
  else if s ∈ accesses then some (.wantsMember fs t s)
  else if s ∈ assignments then some (enter .condOr (.assignment s) fs t)
  else match infix? s with
    | some p => some (enter p (.between p s) fs t)
    | none =>
      if s = "[" then some (.wants (.index t :: fs))
      else if s = "(" then some (.wants (.call t :: fs))
      else if s = "?" then some (enter .condOr .test fs t)
      else if s = "\x7b" then emptyBraces fs t
      else close s (reduce .statement fs t)

def step : State ν → Token ν → Option (State ν)
  | wants fs, tok => operand fs tok
  | has fs t, .mark s => operator fs t s
  | wantsMember fs t s, .name x => some (.has fs (.member t s x))
  | wantsBrace fs x, .mark "\x7d" => some (.has fs (.braces x))
  | _, _ => none

def run (σ : State ν) (ts : List (Token ν)) : Option (State ν) := ts.foldlM step σ

@[simp] theorem run_nil (σ : State ν) : σ.run [] = some σ := rfl

@[simp] theorem run_cons (σ : State ν) (tok : Token ν) (ts : List (Token ν)) :
    σ.run (tok :: ts) = (σ.step tok).bind (·.run ts) := rfl

@[simp] theorem run_append (σ : State ν) (ts us : List (Token ν)) :
    σ.run (ts ++ us) = (σ.run ts).bind (·.run us) := List.foldlM_append

theorem mem_levels {p : Priority} {s : String} (h : s ∈ infixes p) : p ∈ levels := by
  cases p <;> first | decide | simp [infixes] at h

theorem infix?_of_mem : ∀ p ∈ levels, ∀ s ∈ infixes p,
    s ∉ postfixes ∧ s ∉ accesses ∧ s ∉ assignments ∧ infix? s = some p := by decide

theorem assignments_apart : ∀ s ∈ assignments, s ∉ postfixes ∧ s ∉ accesses := by decide

theorem accesses_apart : ∀ s ∈ accesses, s ∉ postfixes := by decide

variable {fs : List (Frame ν)} {t : Term ν} {p : Priority} {s : String}

theorem step_before (h : s ∈ prefixes) :
    (wants fs).step (.mark s) = some (.wants (.before s :: fs)) := by
  rw [step, operand, if_pos h]

theorem step_after (h : s ∈ postfixes) :
    (has fs t).step (.mark s) = some (.has fs (.after s t)) := by
  rw [step, operator, if_pos h]

theorem step_access (h : s ∈ accesses) :
    (has fs t).step (.mark s) = some (.wantsMember fs t s) := by
  rw [step, operator, if_neg (accesses_apart s h), if_pos h]

theorem step_between (h : s ∈ infixes p) :
    (has fs t).step (.mark s) = some (enter p (.between p s) fs t) := by
  obtain ⟨notPostfix, notAccess, notAssignment, found⟩ := infix?_of_mem p (mem_levels h) s h
  rw [step, operator, if_neg notPostfix, if_neg notAccess, if_neg notAssignment, found]

theorem step_assignment (h : s ∈ assignments) :
    (has fs t).step (.mark s) = some (enter .condOr (.assignment s) fs t) := by
  obtain ⟨notPostfix, notAccess⟩ := assignments_apart s h
  rw [step, operator, if_neg notPostfix, if_neg notAccess, if_pos h]

theorem step_open : (wants fs).step (.mark "(") = some (.wants (.group :: fs)) := rfl

theorem step_index : (has fs t).step (.mark "[") = some (.wants (.index t :: fs)) := rfl

theorem step_call : (has fs t).step (.mark "(") = some (.wants (.call t :: fs)) := rfl

theorem step_test : (has fs t).step (.mark "?") = some (enter .condOr .test fs t) := rfl

theorem step_close (h : s = ")" ∨ s = "]" ∨ s = ":") :
    (has fs t).step (.mark s) = close s (reduce .statement fs t) := by
  rcases h with rfl | rfl | rfl <;> rfl

end State

def awaited : List (Frame ν) → Priority
  | [] => .statement
  | f :: _ => f.awaits

def IsInfix (q : Priority) : Prop := q ∈ State.levels

instance (q : Priority) : Decidable (IsInfix q) := inferInstanceAs (Decidable (q ∈ State.levels))

theorem Frame.closesAt_of_awaits {f : Frame ν} {q : Priority} (h : f.awaits ≤ q)
    (hq : IsInfix q) : f.closesAt q = false := by
  cases f with
  | group | index | call | test => rfl
  | before =>
    change Priority.unary ≤ q at h
    change decide (q ≤ .unary) = false
    revert h hq
    cases q <;> decide
  | between r =>
    change r.tighter ≤ q at h
    change decide (q ≤ r) = false
    revert h hq
    cases r <;> cases q <;> decide
  | assignment =>
    change Priority.assign ≤ q at h
    change decide (q ≤ .assign) = false
    revert h hq
    cases q <;> decide
  | conditional =>
    change Priority.assign ≤ q at h
    change decide (q ≤ .cond) = false
    revert h hq
    cases q <;> decide

theorem reduce_of_awaited {fs : List (Frame ν)} {t : Term ν} {q : Priority} (h : awaited fs ≤ q)
    (hq : IsInfix q) : reduce q fs t = (fs, t) := by
  cases fs with
  | nil => rfl
  | cons f fs => simp [reduce, Frame.closesAt_of_awaits h hq]

theorem isInfix {p : Priority} {s : String} (h : s ∈ infixes p) : IsInfix p := by
  cases p <;> first | decide | simp [infixes] at h

theorem statement_le (p : Priority) : Priority.statement ≤ p := Nat.zero_le _

theorem le_tighter (p : Priority) : p ≤ p.tighter := by cases p <;> decide

theorem infixes_ne_primary {p : Priority} {s : String} (h : s ∈ infixes p) : p ≠ .primary := by
  rintro rfl
  simp [infixes] at h

/-- The parser takes the tokens for one operand that the innermost frame awaits: an operator that
follows finds the tree complete as soon as the tree may be its first operand. No operator asks for
a conditional as its first operand, and the last part of one is not complete at that level. -/
def Takes (fs : List (Frame ν)) (p : Priority) (ts : List (Token ν)) (t : Term ν) : Prop :=
  ∃ gs u, (State.wants fs).run ts = some (.has gs u) ∧
    (∀ q ≤ p, q ≠ .cond → reduce q gs u = reduce q fs t) ∧ (p = .primary → gs = fs ∧ u = t)

namespace Takes

variable {fs : List (Frame ν)} {p q r : Priority} {s : String} {ts us vs : List (Token ν)}
  {t u v : Term ν}

theorem atOnce (h : (State.wants fs).run ts = some (.has fs t)) : Takes fs p ts t :=
  ⟨fs, t, h, fun _ _ _ => rfl, fun _ => ⟨rfl, rfl⟩⟩

theorem primary (h : Takes fs .primary ts t) :
    (State.wants fs).run ts = some (.has fs t) := by
  obtain ⟨gs, u, hrun, -, whole⟩ := h
  obtain ⟨rfl, rfl⟩ := whole rfl
  exact hrun

theorem suffix (h : Takes fs .primary ts t)
    (hrun : (State.has fs t).run us = some (.has fs u)) : Takes fs .primary (ts ++ us) u := by
  apply atOnce
  rw [State.run_append, h.primary]
  exact hrun

theorem enter {f : Term ν → Frame ν} (h : Takes fs p ts t)
    (hs : ∀ gs u, (State.has gs u).step (.mark s) = some (.enter q f gs u)) (hq : q ≤ p)
    (hfs : awaited fs ≤ q) (hq' : IsInfix q) :
    (State.wants fs).run (ts ++ [.mark s]) = some (.wants (f t :: fs)) := by
  obtain ⟨gs, u, hrun, hred, -⟩ := h
  have ne : q ≠ .cond := by
    rintro rfl
    exact absurd hq' (by decide)
  have whole : reduce q gs u = (fs, t) := by rw [hred q hq ne, reduce_of_awaited hfs hq']
  simp [hrun, hs, State.enter, whole]

theorem close {f : Frame ν} (h : Takes (f :: fs) .statement ts t)
    (hf : f.level? = none) (hs : s = ")" ∨ s = "]" ∨ s = ":") :
    (State.wants (f :: fs)).run (ts ++ [.mark s]) = State.close s (f :: fs, t) := by
  obtain ⟨gs, u, hrun, hred, -⟩ := h
  have whole : reduce .statement gs u = (f :: fs, t) := by
    rw [hred .statement (statement_le _) nofun]
    simp [reduce, Frame.closesAt, hf]
  simp [hrun, State.step_close hs, whole]

theorem fill {f : Frame ν} (h : Takes (f :: fs) r us t)
    (hrun : (State.wants fs).run ts = some (.wants (f :: fs))) (hf : f.level? = some p)
    (hp : p ≠ .primary) (hr : ∀ q ≤ p, q ≠ .cond → q ≤ r) : Takes fs p (ts ++ us) (f.fill t) := by
  obtain ⟨gs, u, hrun', hred, -⟩ := h
  refine ⟨gs, u, by simp [hrun, hrun'], fun q hq ne => ?_, fun heq => absurd heq hp⟩
  rw [hred q (hr q hq ne) ne]
  simp [reduce, Frame.closesAt, hf, hq]

theorem group (h : Takes (.group :: fs) .statement ts t) :
    Takes fs .primary (.mark "(" :: ts ++ [.mark ")"]) t := by
  apply atOnce
  rw [List.cons_append, State.run_cons, State.step_open]
  exact h.close rfl (.inl rfl)

theorem index (ht : Takes fs .primary ts t) (hu : Takes (.index t :: fs) .statement us u) :
    Takes fs .primary (ts ++ .mark "[" :: us ++ [.mark "]"]) (.index t u) := by
  rw [List.append_assoc]
  apply ht.suffix
  rw [List.cons_append, State.run_cons, State.step_index]
  exact hu.close rfl (.inr (.inl rfl))

theorem call (ht : Takes fs .primary ts t) (hu : Takes (.call t :: fs) .statement us u) :
    Takes fs .primary (ts ++ .mark "(" :: us ++ [.mark ")"]) (.call t u) := by
  rw [List.append_assoc]
  apply ht.suffix
  rw [List.cons_append, State.run_cons, State.step_call]
  exact hu.close rfl (.inl rfl)

theorem callEmpty (ht : Takes fs .primary ts t) :
    Takes fs .primary (ts ++ [.mark "(", .mark ")"]) (.call t .nothing) :=
  ht.suffix rfl

theorem member {x : ν} (hs : s ∈ accesses) (ht : Takes fs .primary ts t) :
    Takes fs .primary (ts ++ [.mark s, .name x]) (.member t s x) := by
  apply ht.suffix
  rw [State.run_cons, State.step_access hs]
  rfl

theorem after (hs : s ∈ postfixes) (h : Takes fs .primary ts t) :
    Takes fs .primary (ts ++ [.mark s]) (.after s t) := by
  apply h.suffix
  rw [State.run_cons, State.step_after hs]
  rfl

theorem before (hs : s ∈ prefixes) (h : Takes (.before s :: fs) .unary ts t) :
    Takes fs .unary (.mark s :: ts) (.before s t) := by
  have hrun : (State.wants fs).run [.mark s] = some (.wants (.before s :: fs)) := by
    rw [State.run_cons, State.step_before hs]
    rfl
  exact h.fill hrun rfl nofun fun q hq _ => hq

theorem between (hs : s ∈ infixes p) (hfs : awaited fs ≤ p) (ht : Takes fs p ts t)
    (hu : Takes (.between p s t :: fs) p.tighter us u) :
    Takes fs p (ts ++ .mark s :: us) (.between s t u) := by
  have hrun := ht.enter (fun _ _ => State.step_between hs) (Nat.le_refl _) hfs (isInfix hs)
  rw [List.append_cons]
  exact hu.fill hrun rfl (infixes_ne_primary hs) fun q hq _ => Nat.le_trans hq (le_tighter p)

theorem conditional (hfs : awaited fs ≤ .condOr) (ht : Takes fs .condOr ts t)
    (hu : Takes (.test t :: fs) .statement us u)
    (hv : Takes (.conditional t u :: fs) .assign vs v) :
    Takes fs .cond (ts ++ .mark "?" :: us ++ .mark ":" :: vs) (.conditional t u v) := by
  have question := ht.enter (fun _ _ => State.step_test) (Nat.le_refl _) hfs (by decide)
  have colon := hu.close rfl (.inr (.inr rfl))
  have hrun : (State.wants fs).run ((ts ++ [.mark "?"]) ++ (us ++ [.mark ":"])) =
      some (.wants (.conditional t u :: fs)) := by
    rw [State.run_append, question]
    exact colon
  have below : ∀ q ≤ Priority.cond, q ≠ .cond → q ≤ .assign := by
    intro q
    cases q <;> decide
  have taken := hv.fill hrun rfl nofun below
  simpa [Frame.fill] using taken

theorem assignment (hs : s ∈ assignments) (hfs : awaited fs ≤ .condOr)
    (ht : Takes fs .condOr ts t) (hu : Takes (.assignment s t :: fs) .assign us u) :
    Takes fs .assign (ts ++ .mark s :: us) (.between s t u) := by
  have hrun := ht.enter (fun _ _ => State.step_assignment hs) (Nat.le_refl _) hfs (by decide)
  rw [List.append_cons]
  exact hu.fill hrun rfl nofun fun q hq _ => hq

theorem loosen (h : Takes fs p.tighter ts t) : Takes fs p ts t := by
  obtain ⟨gs, u, hrun, hred, whole⟩ := h
  refine ⟨gs, u, hrun, fun q hq ne => hred q (Nat.le_trans hq (le_tighter p)) ne, ?_⟩
  rintro rfl
  exact whole rfl

end Takes

namespace Derives

variable {p q : Priority} {ts : List (Token ν)} {t u : Term ν}

theorem takes (h : Derives p ts t) (fs : List (Frame ν)) (hfs : awaited fs ≤ p) :
    Takes fs p ts t := by
  induction h generalizing fs with
  | name | literal | braces => exact .atOnce rfl
  | group _ ih => exact .group (ih _ (statement_le _))
  | index _ _ iht ihu => exact .index (iht fs hfs) (ihu _ (statement_le _))
  | call _ _ iht ihu => exact .call (iht fs hfs) (ihu _ (statement_le _))
  | callEmpty _ ih => exact .callEmpty (ih fs hfs)
  | member hs _ ih => exact .member hs (ih fs hfs)
  | after hs _ ih => exact .after hs (ih fs hfs)
  | before hs _ ih => exact .before hs (ih _ (Nat.le_refl _))
  | between hs _ _ iht ihu => exact .between hs hfs (iht fs hfs) (ihu _ (Nat.le_refl _))
  | conditional _ _ _ iht ihu ihv =>
    have hfs := Nat.le_trans hfs (show Priority.cond ≤ .condOr by decide)
    exact .conditional hfs (iht fs hfs) (ihu _ (statement_le _)) (ihv _ (Nat.le_refl _))
  | assignment hs _ _ iht ihu =>
    have hfs := Nat.le_trans hfs (show Priority.assign ≤ .condOr by decide)
    exact .assignment hs hfs (iht fs hfs) (ihu _ (Nat.le_refl _))
  | loosen _ ih => exact .loosen (ih fs (Nat.le_trans hfs (le_tighter _)))

theorem unique (ht : Derives p ts t) (hu : Derives q ts u) : t = u := by
  obtain ⟨gs, t', hrun, hred, -⟩ := ht.takes [] (statement_le p)
  obtain ⟨hs, u', hrun', hred', -⟩ := hu.takes [] (statement_le q)
  obtain ⟨rfl, rfl⟩ : gs = hs ∧ t' = u' := by simpa [hrun] using hrun'
  have same : (([] : List (Frame ν)), t) = ([], u) :=
    (hred .statement (statement_le p) nofun).symm.trans
      (hred' .statement (statement_le q) nofun)
  exact (Prod.ext_iff.1 same).2

end Derives

end CppEmission.Surface
