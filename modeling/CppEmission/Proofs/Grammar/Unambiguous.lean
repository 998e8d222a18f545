import CppEmission.Proofs.Grammar.Derivation

/-! A sequence of tokens derives at most one tree. A parser that reads the tokens once, with a
stack of operators that wait for an operand, follows every derivation of them. -/

namespace CppEmission.Grammar

inductive Frame
  | group
  | index (array : Tree)
  | test (test : Tree)
  | before (op : PrefixOp)
  | between (p : Priority) (op : BinaryOp) (left : Tree)
  | assignment (op : BinaryOp) (target : Tree)
  | conditional (test onTrue : Tree)

namespace Frame

def level? : Frame → Option Priority
  | group | index _ | test _ => none
  | before _ => some .unary
  | between p _ _ => some p
  | assignment _ _ => some .assign
  | conditional _ _ => some .cond

def awaits : Frame → Priority
  | group | index _ | test _ => .statement
  | before _ => .unary
  | between p _ _ => p.tighter
  | assignment _ _ | conditional _ _ => .assign

def fill : Frame → Tree → Tree
  | group, t | test _, t => t
  | index a, t => .between .index a t
  | before op, t => .before op t
  | between _ op l, t => .between op l t
  | assignment op l, t => .between op l t
  | conditional c u, t => .conditional c u t

def closesAt (p : Priority) (f : Frame) : Bool := f.level?.any (p ≤ ·)

end Frame

def reduce (p : Priority) : List Frame → Tree → List Frame × Tree
  | [], t => ([], t)
  | f :: fs, t => if f.closesAt p then reduce p fs (f.fill t) else (f :: fs, t)

inductive State
  | wants (frames : List Frame)
  | has (frames : List Frame) (operand : Tree)

namespace State

def operand (fs : List Frame) : Token → Option State
  | .word x => if Keyword.isReserved x then none else some (.has fs (.name x))
  | .number n => some (.has fs (.number n))
  | .mark s =>
    if s = "(" then some (.wants (.group :: fs))
    else (prefixes.lookup s).map fun op => .wants (.before op :: fs)

def levels : List Priority :=
  [.condOr, .condAnd, .bitOr, .bitXor, .bitAnd, .equality, .relational, .shift, .additive,
    .multiplicative]

def infix? (s : String) : Option (Priority × BinaryOp) :=
  levels.findSome? fun p => ((infixes p).lookup s).map (p, ·)

def close (s : String) : List Frame × Tree → Option State
  | (.group :: fs, t) => if s = ")" then some (.has fs t) else none
  | (.index a :: fs, t) => if s = "]" then some (.has fs (.between .index a t)) else none
  | (.test c :: fs, t) => if s = ":" then some (.wants (.conditional c t :: fs)) else none
  | _ => none

def enter (p : Priority) (f : Tree → Frame) (fs : List Frame) (t : Tree) : State :=
  .wants (f (reduce p fs t).2 :: (reduce p fs t).1)

def operator (fs : List Frame) (t : Tree) (s : String) : Option State :=
  match postfixes.lookup s, infix? s, assignments.lookup s with
  | some op, _, _ => some (.has fs (.after op t))
  | _, some (p, op), _ => some (enter p (.between p op) fs t)
  | _, _, some op => some (enter .condOr (.assignment op) fs t)
  | _, _, _ =>
    if s = "[" then some (.wants (.index t :: fs))
    else if s = "?" then some (enter .condOr .test fs t)
    else close s (reduce .statement fs t)

def step : State → Token → Option State
  | wants fs, tok => operand fs tok
  | has fs t, .mark s => operator fs t s
  | has _ _, _ => none

def run (σ : State) (ts : List Token) : Option State := ts.foldlM step σ

@[simp] theorem run_nil (σ : State) : σ.run [] = some σ := rfl

@[simp] theorem run_cons (σ : State) (tok : Token) (ts : List Token) :
    σ.run (tok :: ts) = (σ.step tok).bind (·.run ts) := rfl

@[simp] theorem run_append (σ : State) (ts us : List Token) :
    σ.run (ts ++ us) = (σ.run ts).bind (·.run us) := List.foldlM_append

theorem mem_levels (h : (s, op) ∈ infixes p) : p ∈ levels := by
  cases p <;> first | decide | simp [infixes] at h

theorem lookup_prefixes : ∀ e ∈ prefixes, e.1 ≠ "(" ∧ prefixes.lookup e.1 = some e.2 := by decide

theorem lookup_postfixes : ∀ e ∈ postfixes, postfixes.lookup e.1 = some e.2 := by decide

theorem lookup_infixes : ∀ p ∈ levels, ∀ e ∈ infixes p,
    postfixes.lookup e.1 = none ∧ infix? e.1 = some (p, e.2) := by decide

theorem lookup_assignments : ∀ e ∈ assignments, postfixes.lookup e.1 = none ∧
    infix? e.1 = none ∧ assignments.lookup e.1 = some e.2 := by decide

theorem step_before (h : (s, op) ∈ prefixes) :
    (wants fs).step (.mark s) = some (.wants (.before op :: fs)) := by
  obtain ⟨notGroup, found⟩ := lookup_prefixes _ h
  simp_all [step, operand]

theorem step_after (h : (s, op) ∈ postfixes) :
    (has fs t).step (.mark s) = some (.has fs (.after op t)) := by
  have found := lookup_postfixes _ h
  simp_all [step, operator]

theorem step_between (h : (s, op) ∈ infixes p) :
    (has fs t).step (.mark s) = some (enter p (.between p op) fs t) := by
  obtain ⟨notAfter, found⟩ := lookup_infixes p (mem_levels h) _ h
  simp only [step, operator, notAfter, found]

theorem step_assignment (h : (s, op) ∈ assignments) :
    (has fs t).step (.mark s) = some (enter .condOr (.assignment op) fs t) := by
  obtain ⟨notAfter, notInfix, found⟩ := lookup_assignments _ h
  simp only [step, operator, notAfter, notInfix, found]

theorem step_open : (wants fs).step (.mark "(") = some (.wants (.group :: fs)) := rfl

theorem step_index : (has fs t).step (.mark "[") = some (.wants (.index t :: fs)) := rfl

theorem step_test : (has fs t).step (.mark "?") = some (enter .condOr .test fs t) := rfl

theorem step_close (h : s = ")" ∨ s = "]" ∨ s = ":") :
    (has fs t).step (.mark s) = close s (reduce .statement fs t) := by
  rcases h with rfl | rfl | rfl <;> rfl

end State

def awaited : List Frame → Priority
  | [] => .statement
  | f :: _ => f.awaits

theorem Frame.closesAt_of_awaits {f : Frame} {q : Priority} (h : f.awaits ≤ q)
    (low : Priority.condOr ≤ q) (high : q ≤ .multiplicative) : f.closesAt q = false := by
  change 3 ≤ q.rank at low
  change q.rank ≤ 12 at high
  cases f with
  | group | index | test => rfl
  | before op => exact absurd (Nat.le_trans h high) (show ¬ 13 ≤ 12 by decide)
  | between r op l =>
    have le : r.tighter.rank ≤ q.rank := h
    rw [Priority.rank_tighter] at le
    have lt : r.rank < q.rank := by
      change min (r.rank + 1) 14 ≤ q.rank at le
      omega
    exact decide_eq_false (Nat.not_le.2 lt)
  | assignment op l => exact decide_eq_false (Nat.not_le.2 (Nat.lt_of_lt_of_le (by decide) low))
  | conditional c t => exact decide_eq_false (Nat.not_le.2 (Nat.lt_of_lt_of_le (by decide) low))

theorem reduce_of_awaited {q : Priority} (h : awaited fs ≤ q) (low : Priority.condOr ≤ q)
    (high : q ≤ .multiplicative) : reduce q fs t = (fs, t) := by
  cases fs with
  | nil => rfl
  | cons f fs => simp [reduce, Frame.closesAt_of_awaits h low high]

theorem level_bounds (h : (s, op) ∈ infixes p) : Priority.condOr ≤ p ∧ p ≤ .multiplicative := by
  cases p <;> first | decide | simp [infixes] at h

theorem statement_le (p : Priority) : Priority.statement ≤ p := Nat.zero_le _

theorem le_primary (p : Priority) : p ≤ .primary := by cases p <;> decide

theorem le_tighter (p : Priority) : p ≤ p.tighter := by cases p <;> decide

theorem infixes_ne_primary (h : (s, op) ∈ infixes p) : p ≠ .primary := by
  rintro rfl
  simp [infixes] at h

/-- The parser takes the tokens for one operand that the innermost frame awaits: an operator that
follows finds the tree complete as soon as the tree may be its first operand. No operator asks for
a conditional as its first operand, and the last part of one is not complete at that level. -/
def Takes (fs : List Frame) (p : Priority) (ts : List Token) (t : Tree) : Prop :=
  ∃ gs u, (State.wants fs).run ts = some (.has gs u) ∧
    (∀ q ≤ p, q ≠ .cond → reduce q gs u = reduce q fs t) ∧ (p = .primary → gs = fs ∧ u = t)

namespace Takes

theorem atOnce (h : (State.wants fs).run ts = some (.has fs t)) : Takes fs p ts t :=
  ⟨fs, t, h, fun _ _ _ => rfl, fun _ => ⟨rfl, rfl⟩⟩

theorem primary (h : Takes fs .primary ts t) :
    (State.wants fs).run ts = some (.has fs t) := by
  obtain ⟨gs, u, hrun, -, whole⟩ := h
  obtain ⟨rfl, rfl⟩ := whole rfl
  exact hrun

theorem enter {p q : Priority} {f : Tree → Frame} {s : String} (h : Takes fs p ts t)
    (hs : ∀ gs u, (State.has gs u).step (.mark s) = some (.enter q f gs u)) (hq : q ≤ p)
    (hfs : awaited fs ≤ q) (low : Priority.condOr ≤ q) (high : q ≤ .multiplicative) :
    (State.wants fs).run (ts ++ [.mark s]) = some (.wants (f t :: fs)) := by
  obtain ⟨gs, u, hrun, hred, -⟩ := h
  have ne : q ≠ .cond := by
    rintro rfl
    exact absurd low (by decide)
  have whole : reduce q gs u = (fs, t) := by
    rw [hred q hq ne, reduce_of_awaited hfs low high]
  simp [hrun, hs, State.enter, whole]

theorem close {f : Frame} {s : String} (h : Takes (f :: fs) .statement ts t)
    (hf : f.level? = none) (hs : s = ")" ∨ s = "]" ∨ s = ":") :
    (State.wants (f :: fs)).run (ts ++ [.mark s]) = State.close s (f :: fs, t) := by
  obtain ⟨gs, u, hrun, hred, -⟩ := h
  have whole : reduce .statement gs u = (f :: fs, t) := by
    rw [hred .statement (statement_le _) nofun]
    simp [reduce, Frame.closesAt, hf]
  simp [hrun, State.step_close hs, whole]

theorem fill {f : Frame} {p r : Priority} (h : Takes (f :: fs) r us t)
    (hrun : (State.wants fs).run ts = some (.wants (f :: fs))) (hf : f.level? = some p)
    (hp : p ≠ .primary) (hr : ∀ q ≤ p, q ≠ .cond → q ≤ r) : Takes fs p (ts ++ us) (f.fill t) := by
  obtain ⟨gs, u, hrun', hred, -⟩ := h
  refine ⟨gs, u, by simp [hrun, hrun'], fun q hq ne => ?_, fun heq => absurd heq hp⟩
  rw [hred q (hr q hq ne) ne]
  simp [reduce, Frame.closesAt, hf, hq]

theorem group (h : Takes (.group :: fs) .statement ts t) :
    Takes fs .primary (.mark "(" :: ts ++ [.mark ")"]) t := by
  apply atOnce
  rw [List.cons_append, State.run_cons, State.step_open]
  exact h.close rfl (.inl rfl)

theorem index (ht : Takes fs .primary ts t) (hu : Takes (.index t :: fs) .statement us u) :
    Takes fs .primary (ts ++ .mark "[" :: us ++ [.mark "]"]) (.between .index t u) := by
  apply atOnce
  rw [List.append_assoc, State.run_append, ht.primary, Option.bind_some, List.cons_append,
    State.run_cons, State.step_index]
  exact hu.close rfl (.inr (.inl rfl))

theorem after (hop : (s, op) ∈ postfixes) (h : Takes fs .primary ts t) :
    Takes fs .primary (ts ++ [.mark s]) (.after op t) := by
  apply atOnce
  rw [State.run_append, h.primary, Option.bind_some, State.run_cons, State.step_after hop]
  rfl

theorem before (hop : (s, op) ∈ prefixes) (h : Takes (.before op :: fs) .unary ts t) :
    Takes fs .unary (.mark s :: ts) (.before op t) := by
  have hrun : (State.wants fs).run [.mark s] = some (.wants (.before op :: fs)) := by
    rw [State.run_cons, State.step_before hop]
    rfl
  exact h.fill hrun rfl nofun fun q hq _ => hq

theorem between (hop : (s, op) ∈ infixes p) (hfs : awaited fs ≤ p) (ht : Takes fs p ts t)
    (hu : Takes (.between p op t :: fs) p.tighter us u) :
    Takes fs p (ts ++ .mark s :: us) (.between op t u) := by
  obtain ⟨low, high⟩ := level_bounds hop
  have hrun := ht.enter (fun _ _ => State.step_between hop) (Nat.le_refl _) hfs low high
  rw [List.append_cons]
  exact hu.fill hrun rfl (infixes_ne_primary hop) fun q hq _ => Nat.le_trans hq (le_tighter p)

theorem conditional (hfs : awaited fs ≤ .condOr) (ht : Takes fs .condOr ts t)
    (hu : Takes (.test t :: fs) .statement us u)
    (hv : Takes (.conditional t u :: fs) .assign vs v) :
    Takes fs .cond (ts ++ .mark "?" :: us ++ .mark ":" :: vs) (.conditional t u v) := by
  have question := ht.enter (fun _ _ => State.step_test) (Nat.le_refl _) hfs (by decide) (by decide)
  have colon := hu.close rfl (.inr (.inr rfl))
  have hrun : (State.wants fs).run ((ts ++ [.mark "?"]) ++ (us ++ [.mark ":"])) =
      some (.wants (.conditional t u :: fs)) := by
    rw [State.run_append, question]
    exact colon
  have below : ∀ q ≤ Priority.cond, q ≠ .cond → q ≤ .assign := by
    intro q
    cases q <;> decide
  have taken := hv.fill hrun rfl nofun below
  simpa [Frame.fill] using taken

theorem assignment (hop : (s, op) ∈ assignments) (hfs : awaited fs ≤ .condOr)
    (ht : Takes fs .condOr ts t) (hu : Takes (.assignment op t :: fs) .assign us u) :
    Takes fs .assign (ts ++ .mark s :: us) (.between op t u) := by
  have hrun := ht.enter (fun _ _ => State.step_assignment hop) (Nat.le_refl _) hfs (by decide)
    (by decide)
  rw [List.append_cons]
  exact hu.fill hrun rfl nofun fun q hq _ => hq

theorem loosen (h : Takes fs p.tighter ts t) : Takes fs p ts t := by
  obtain ⟨gs, u, hrun, hred, whole⟩ := h
  refine ⟨gs, u, hrun, fun q hq ne => hred q (Nat.le_trans hq (le_tighter p)) ne, ?_⟩
  rintro rfl
  exact whole rfl

end Takes

theorem Derives.takes (h : Derives p ts t) (fs : List Frame) (hfs : awaited fs ≤ p) :
    Takes fs p ts t := by
  induction h generalizing fs with
  | name h => exact .atOnce (by simp [State.step, State.operand, h])
  | number => exact .atOnce rfl
  | group _ ih => exact .group (ih _ (statement_le _))
  | index _ _ iht ihu => exact .index (iht fs hfs) (ihu _ (statement_le _))
  | after hop _ ih => exact .after hop (ih fs hfs)
  | before hop _ ih => exact .before hop (ih _ (Nat.le_refl _))
  | between hop _ _ iht ihu => exact .between hop hfs (iht fs hfs) (ihu _ (Nat.le_refl _))
  | conditional _ _ _ iht ihu ihv =>
    have hfs := Nat.le_trans hfs (show Priority.cond ≤ .condOr by decide)
    exact .conditional hfs (iht fs hfs) (ihu _ (statement_le _)) (ihv _ (Nat.le_refl _))
  | assignment hop _ _ iht ihu =>
    have hfs := Nat.le_trans hfs (show Priority.assign ≤ .condOr by decide)
    exact .assignment hop hfs (iht fs hfs) (ihu _ (Nat.le_refl _))
  | loosen _ ih => exact .loosen (ih fs (Nat.le_trans hfs (le_tighter _)))

theorem Derives.unique (ht : Derives p ts t) (hu : Derives q ts u) : t = u := by
  obtain ⟨gs, t', hrun, hred, -⟩ := ht.takes [] (statement_le p)
  obtain ⟨hs, u', hrun', hred', -⟩ := hu.takes [] (statement_le q)
  obtain ⟨rfl, rfl⟩ : gs = hs ∧ t' = u' := by simpa [hrun] using hrun'
  have same : (([] : List Frame), t) = ([], u) :=
    (hred .statement (statement_le p) nofun).symm.trans
      (hred' .statement (statement_le q) nofun)
  exact (Prod.ext_iff.1 same).2

end CppEmission.Grammar
