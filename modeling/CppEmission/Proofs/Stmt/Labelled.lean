import CppEmission.Proofs.Stmt.Accepted

namespace CppEmission

open Writer

namespace Branch

/-- Every branch has a label in front of it, and behind one that says that it runs on there is a
branch with a label to run on to. -/
def AreLabelled : List Branch → Prop
  | [] => True
  | b :: rest => b.labels ≠ [] ∧
      (b.exit = some fallthroughLine → ∃ next ∈ rest.head?, next.labels ≠ []) ∧ AreLabelled rest

theorem areLabelled_cons {b : Branch} {rest : List Branch} : AreLabelled (b :: rest) ↔
    b.labels ≠ [] ∧ (b.exit = some fallthroughLine → rest ≠ []) ∧ AreLabelled rest := by
  refine and_congr_right fun _ => and_congr_left fun labelled => forall_congr' fun _ => ?_
  cases rest with
  | nil => exact iff_of_false (by simp) (not_not_intro rfl)
  | cons next rest => exact iff_of_true ⟨next, rfl, labelled.1⟩ (List.cons_ne_nil next rest)

end Branch

/-- Every branch has a value to be selected by, and behind the last one there is a default where it
runs on. -/
structure Stmt.HasLabels (cases : List (Case Stmt)) (default : Option (List Stmt)) : Prop where
  values : ∀ c ∈ cases, c.values ≠ []
  next : ∀ c ∈ cases.getLast?, c.fallsThrough = true → default.isSome

theorem Stmt.hasLabels_cons {c : Case Stmt} {rest : List (Case Stmt)}
    {default : Option (List Stmt)} : HasLabels (c :: rest) default ↔
      c.values ≠ [] ∧ (c.fallsThrough = true → rest ≠ [] ∨ default.isSome) ∧
        HasLabels rest default := by
  have split : HasLabels (c :: rest) default ↔ (∀ d ∈ c :: rest, d.values ≠ []) ∧
      ∀ d ∈ (c :: rest).getLast?, d.fallsThrough = true → default.isSome :=
    ⟨fun ⟨h, h'⟩ => ⟨h, h'⟩, fun ⟨h, h'⟩ => ⟨h, h'⟩⟩
  rw [split, List.forall_mem_cons, and_assoc]
  refine and_congr_right fun _ => ?_
  cases rest with
  | nil =>
    simp only [List.getLast?_singleton, Option.mem_def, Option.some.injEq, forall_eq']
    exact ⟨fun h => ⟨fun falls => .inr (h.2 falls), ⟨nofun, nofun⟩⟩,
      fun h => ⟨nofun, fun falls => (h.1 falls).resolve_left (not_not_intro rfl)⟩⟩
  | cons next rest =>
    rw [List.getLast?_cons_cons]
    exact ⟨fun h => ⟨fun _ => .inl (List.cons_ne_nil next rest), ⟨h.1, h.2⟩⟩,
      fun h => ⟨h.2.values, h.2.next⟩⟩

structure Tested where
  test : String
  own : List String

namespace Tested

def lines (width level : Nat) : (opened : Bool) → List Tested → List String
  | _, [] => []
  | opened, t :: rest =>
    row width level ((if opened then "\x7d else if (" else "if (") ++ t.test ++ ") \x7b") ::
      t.own ++ lines width level true rest

def ending (width level : Nat) (opened : Bool) : Option (List String) → List String
  | none => if opened then [row width level "\x7d"] else []
  | some own =>
    row width level (if opened then "\x7d else \x7b" else "\x7b") :: own ++ [row width level "\x7d"]

end Tested

namespace Context

def strippedLines (cx : Context) (width level : Nat) (body : List Stmt) : List String :=
  appended width level (cx.emitAll (Stmt.stripTrailingBreak body)).moves

/-- A lowered switch as it is written, test by test. -/
structure WrittenTests (cx : Context) (width level : Nat) (value : Expr) (cases : List (Case Stmt))
    where
  tests : List Tested
  writes : List.Forall₂ (fun c t => cx.branchTest value c.values = .ok t.test ∧
    t.own = cx.strippedLines width (level + 1) c.body) cases tests

def WrittenTests.lines {cx : Context} {width level : Nat} {value : Expr} {cases : List (Case Stmt)}
    (s : cx.WrittenTests width level value cases) (default : Option (List Stmt)) : List String :=
  Tested.lines width level false s.tests ++ Tested.ending width level (!s.tests.isEmpty)
    (default.map (cx.strippedLines width (level + 1)))

end Context

namespace Script.Adds

variable {width level : Nat}

theorem silent {o : Op} {start stop : Nat}
    (h : ∀ buffer, Writer.step ⟨buffer, start, width⟩ o = ⟨buffer, stop, width⟩) :
    Adds width (.op o) start stop [] := by
  refine ⟨rfl, fun buffer => ?_⟩
  rw [String.join_nil, String.append_empty]
  exact h buffer

theorem elseLine (text : String) :
    Adds width (.op .dedent ++ .line text ++ .op .indent) (level + 1) (level + 1)
      [row width level text] := by
  have dedent : Adds width (.op .dedent) (level + 1) level [] := silent fun _ => rfl
  have indent : Adds width (.op .indent) level (level + 1) [] := silent fun _ => rfl
  exact (dedent.append (.line text)).append indent

theorem openTest (opened : Bool) (test : String) :
    Adds width (.openTest opened test) (level + opened.toNat) (level + 1)
      [row width level ((if opened then "\x7d else if (" else "if (") ++ test ++ ") \x7b")] := by
  cases opened with
  | true => exact .elseLine _
  | false =>
    have header : blockHeader ("if (" ++ test ++ ")") = "if (" ++ test ++ ") \x7b" := by
      simp [blockHeader, String.append_assoc]
    exact header ▸ .openBlock _

theorem openOtherwise (opened : Bool) :
    Adds width (.openOtherwise opened) (level + opened.toNat) (level + 1)
      [row width level (if opened then "\x7d else \x7b" else "\x7b")] := by
  cases opened with
  | true => exact .elseLine _
  | false => exact .openBlock ""

end Script.Adds

namespace Context

open Script (Adds)

variable {cx : Context} {value : Expr} {cases : List (Case Stmt)} {default : Option (List Stmt)}

theorem emitStripped_adds {body : List Stmt} (complete : (cx.emitStripped body).fault = none)
    (width level : Nat) :
    (cx.emitStripped body).Adds width level level (cx.strippedLines width level body) := by
  rw [emitStripped_eq] at complete ⊢
  exact emitAll_adds complete width level

theorem emitTests_adds {opened : Bool} (complete : (cx.emitTests value opened cases).fault = none)
    (width level : Nat) :
    ∃ s : cx.WrittenTests width level value cases,
      (cx.emitTests value opened cases).Adds width (level + opened.toNat)
        (level + (opened || !cases.isEmpty).toNat) (Tested.lines width level opened s.tests) := by
  induction cases generalizing opened with
  | nil => exact ⟨⟨[], .nil⟩, by simpa [emitTests, Tested.lines] using Adds.nil⟩
  | cons c rest ih =>
    have ends := branches_of_emitTests value complete c List.mem_cons_self
    rw [emitTests_cons opened ends] at complete ⊢
    obtain ⟨front, others⟩ := Script.complete_append_iff.1 complete
    obtain ⟨test, body⟩ := Script.complete_append_iff.1 front
    obtain ⟨text, written, -⟩ := Script.complete_after_iff.1 test
    obtain ⟨⟨tests, writes⟩, behind⟩ := ih others
    let t : Tested := ⟨text, cx.strippedLines width (level + 1) c.body⟩
    have first : Adds width (.after (cx.branchTest value c.values) (.openTest opened))
        (level + opened.toNat) (level + 1)
        [row width level ((if opened then "\x7d else if (" else "if (") ++ text ++ ") \x7b")] := by
      rw [written]
      exact .openTest opened text
    have own := first.append (emitStripped_adds body width (level + 1))
    refine ⟨⟨t :: tests, .cons ⟨written, rfl⟩ writes⟩, ?_⟩
    simpa [Tested.lines, t] using own.append behind

theorem emitOtherwise_adds {opened : Bool}
    (complete : (cx.emitOtherwise value opened default).fault = none) (width level : Nat) :
    (cx.emitOtherwise value opened default).Adds width (level + opened.toNat) level
      (Tested.ending width level opened (default.map (cx.strippedLines width (level + 1)))) := by
  cases default with
  | none =>
    cases opened with
    | true => exact .closeBlock
    | false => exact .nil
  | some body =>
    have closed := closed_of_emitOtherwise value complete body rfl
    rw [emitOtherwise_some opened closed] at complete ⊢
    obtain ⟨front, -⟩ := Script.complete_append_iff.1 complete
    have own := emitStripped_adds (Script.complete_append_iff.1 front).2 width (level + 1)
    exact ((Adds.openOtherwise opened).append own).append .closeBlock

theorem emit_lowered_adds {bare : Bool}
    (lowers : (value.ty.isString && !cx.dialect.stringSwitch) = true)
    (complete : (cx.emit bare (.switch value cases default)).fault = none) (width level : Nat) :
    ∃ s : cx.WrittenTests width level value cases,
      (cx.emit bare (.switch value cases default)).Adds width level level (s.lines default) := by
  rw [emit, if_pos lowers] at complete ⊢
  obtain ⟨first, second⟩ := Script.complete_append_iff.1 complete
  obtain ⟨s, adds⟩ := emitTests_adds first width level
  have none : s.tests.isEmpty = cases.isEmpty := by
    rw [Bool.eq_iff_iff, List.isEmpty_iff_length_eq_zero, List.isEmpty_iff_length_eq_zero,
      s.writes.length_eq]
  refine ⟨s, ?_⟩
  rw [WrittenTests.lines, none]
  exact adds.append (by simpa using emitOtherwise_adds second width level)

theorem labelTexts_ne_nil_iff {values : List Expr} {labels : List String}
    (h : cx.labelTexts values = .ok labels) : labels ≠ [] ↔ values ≠ [] := by
  have same := (mapM_eq_ok.1 h).length_eq
  rw [ne_eq, ne_eq, ← List.length_eq_zero_iff, ← List.length_eq_zero_iff, same]

theorem WritesBranch.exit_iff {width level : Nat} {labels : Except EmitError (List String)}
    {body : List Stmt} {runsOn : Bool} {b : Branch}
    (h : cx.WritesBranch width level labels body runsOn b) :
    b.exit = some fallthroughLine ↔ runsOn = true := by
  have exits : b.exit = Stmt.exitLine runsOn body := by
    cases runsOn with
    | true => exact h.goesOn rfl
    | false =>
      cases completes : Stmt.completesAll body with
      | true => simpa [Stmt.exitLine, completes] using h.breaks rfl completes
      | false => simpa [Stmt.exitLine, completes] using h.leaves rfl completes
  rw [exits]
  cases runsOn with
  | true => exact iff_of_true rfl rfl
  | false =>
    refine iff_of_false ?_ Bool.false_ne_true
    cases completes : Stmt.completesAll body <;> simp [Stmt.exitLine, completes, fallthroughLine]

theorem areLabelled_default {width level : Nat} {last : List Branch}
    (h : List.Forall₂ (cx.WritesDefault width level) default.toList last) :
    Branch.AreLabelled last ∧ (last ≠ [] ↔ default.isSome) := by
  cases default with
  | none =>
    cases h
    exact ⟨trivial, by simp⟩
  | some body =>
    obtain ⟨b, _, writes, rest, rfl⟩ := List.forall₂_cons_left_iff.1 h
    cases rest
    have label : b.labels = ["default:"] := (Except.ok.inj writes.labels).symm
    refine ⟨Branch.areLabelled_cons.2 ⟨by simp [label], fun runsOn => ?_, trivial⟩, by simp⟩
    cases writes.exit_iff.1 runsOn

theorem areLabelled_iff {width level : Nat} {branches last : List Branch}
    (h : List.Forall₂ (cx.WritesCase width level) cases branches)
    (h' : List.Forall₂ (cx.WritesDefault width level) default.toList last) :
    Branch.AreLabelled (branches ++ last) ↔ Stmt.HasLabels cases default := by
  obtain ⟨labelled, hlast⟩ := areLabelled_default h'
  induction h with
  | nil => exact iff_of_true labelled ⟨nofun, nofun⟩
  | @cons c b cases branches writes others ih =>
    have some_behind : branches ++ last ≠ [] ↔ cases ≠ [] ∨ default.isSome := by
      have same : branches = [] ↔ cases = [] := by
        rw [← List.length_eq_zero_iff, ← List.length_eq_zero_iff, others.length_eq]
      rw [ne_eq, List.append_eq_nil_iff, not_and_or, same]
      exact or_congr_right hlast
    rw [List.cons_append, Branch.areLabelled_cons, labelTexts_ne_nil_iff writes.labels, ih,
      writes.exit_iff, some_behind, Stmt.hasLabels_cons]

theorem Phrase.within_ne_empty {p : Phrase} (h : p.text ≠ "") (parent : Priority) :
    p.within parent ≠ "" := by
  rw [Phrase.within]
  split
  · simp
  · exact h

theorem compared_ne_empty (op : BinaryOp) (l r : Operand) (parent : Priority) :
    Yields (· ≠ "") (cx.compared op l r parent) := by
  rw [compared]
  split
  · exact .behind fun _ => .behind fun _ => .ok (Phrase.within_ne_empty (by simp) parent)
  · exact .behind fun _ => .behind fun _ => .ok (Phrase.within_ne_empty (by simp) parent)

theorem branchTest_ne_empty_iff {labels : List Expr} {text : String}
    (h : cx.branchTest value labels = .ok text) : text ≠ "" ↔ labels ≠ [] := by
  obtain ⟨tests, written, joined⟩ := bind_eq_ok.1 h
  obtain rfl : String.intercalate " || " tests = text := Except.ok.inj joined
  cases mapM_eq_ok.1 written with
  | nil => exact iff_of_false (not_not_intro String.intercalate_nil) (not_not_intro rfl)
  | @cons label test labels tests first _ =>
    have some_test : test ≠ "" := compared_ne_empty _ _ _ _ test first
    refine iff_of_true ?_ (List.cons_ne_nil label labels)
    cases tests <;> simp [some_test]

theorem tests_ne_empty_iff {width level : Nat} (s : cx.WrittenTests width level value cases) :
    (∀ t ∈ s.tests, t.test ≠ "") ↔ ∀ c ∈ cases, c.values ≠ [] := by
  obtain ⟨tests, writes⟩ := s
  induction writes with
  | nil => exact iff_of_true nofun nofun
  | cons written _ ih =>
    rw [List.forall_mem_cons, List.forall_mem_cons, branchTest_ne_empty_iff written.1, ih]

/-- A switch is written exactly if its parts can be written and, where it is lowered, its branches
can be those of a chain. Every branch of what is written has a label or a test that is not empty,
and behind each that runs on there is a label, exactly if every branch has a value and the last one
does not run on where there is no default; nothing refuses any other switch. -/
theorem accepted_switch_labelled_iff (cx : Context) (bare : Bool) (value : Expr)
    (cases : List (Case Stmt)) (default : Option (List Stmt)) (w : Writer) :
    let switch := cx.emit bare (.switch value cases default)
    let lowers := value.ty.isString && !cx.dialect.stringSwitch
    (lowers = false →
      (switch.fault = none ↔ cx.AcceptsSwitch value cases default) ∧
      (switch.fault = none → ∃ s : cx.WrittenSwitch w.indentWidth w.level value cases default,
        w.perform switch = { w with buffer := w.buffer ++ String.join s.lines } ∧
        (Branch.AreLabelled (s.branches ++ s.last) ↔ Stmt.HasLabels cases default))) ∧
    (lowers = true →
      (switch.fault = none ↔ cx.AcceptsTests value cases default) ∧
      (switch.fault = none → ∃ s : cx.WrittenTests w.indentWidth w.level value cases,
        w.perform switch = { w with buffer := w.buffer ++ String.join (s.lines default) } ∧
        ((∀ t ∈ s.tests, t.test ≠ "") ↔ ∀ c ∈ cases, c.values ≠ []))) := by
  intro switch lowers
  refine ⟨fun direct => ⟨emit_switch_complete_iff direct, fun complete => ?_⟩,
    fun lowered => ⟨emit_lowered_complete_iff lowered, fun complete => ?_⟩⟩
  · obtain ⟨s, adds⟩ := emit_switch_adds direct complete w.indentWidth w.level
    exact ⟨s, adds.performed w.buffer, areLabelled_iff s.writes s.writesLast⟩
  · obtain ⟨s, adds⟩ := emit_lowered_adds lowered complete w.indentWidth w.level
    exact ⟨s, adds.performed w.buffer, tests_ne_empty_iff s⟩

theorem accepted_switch_labelled_iff_scoped :
    let x := Expr.symbol ⟨.int .i32, {}⟩ none ⟨"x", .parameter⟩
    let command := Expr.symbol ⟨.string .view, {}⟩ none ⟨"command", .parameter⟩
    let number (n : Int64) := Expr.literal ⟨.int .i32, {}⟩ (.int n)
    let limit := Stmt.constant ⟨"LIMIT", .int .i32, number 10, .published⟩
    let cases : List (Case Stmt) := [⟨[number 1], [.ret none], false⟩,
      ⟨[number 2, number 3], [limit, .expr x], true⟩]
    let default := some [Stmt.expr x]
    let tests : List (Case Stmt) := [⟨[.ofString "go"], [.expr x, .breakOut], false⟩]
    let w : Writer := { level := 1 }
    ((Context.emit {} false (.switch x cases default)).fault = none ∧
      ∃ s : Context.WrittenSwitch {} 4 1 x cases default,
        (w.perform (Context.emit {} false (.switch x cases default))).buffer = String.join s.lines ∧
        Branch.AreLabelled (s.branches ++ s.last)) ∧
    (Context.emit {} false (.switch command tests none)).fault = none ∧
      ∃ s : Context.WrittenTests {} 4 1 command tests,
        (w.perform (Context.emit {} false (.switch command tests none))).buffer =
          String.join (s.lines none) ∧ ∀ t ∈ s.tests, t.test ≠ "" := by
  intro x command number limit cases default tests w
  have complete : (Context.emit {} false (.switch x cases default)).fault = none := rfl
  have lowered : (Context.emit {} false (.switch command tests none)).fault = none := rfl
  have labels : Stmt.HasLabels cases default := ⟨by simp [cases], fun _ _ _ => rfl⟩
  obtain ⟨s, text, labelled⟩ :=
    ((accepted_switch_labelled_iff {} false x cases default w).1 rfl).2 complete
  obtain ⟨t, tested, nonempty⟩ :=
    ((accepted_switch_labelled_iff {} false command tests none w).2 rfl).2 lowered
  refine ⟨⟨complete, s, ?_, labelled.2 labels⟩, lowered, t, ?_, nonempty.2 (by simp [tests])⟩
  · rw [text]
    exact String.empty_append
  · rw [tested]
    exact String.empty_append

/-- A last branch that runs on out of the switch is written, and so is a branch without values: the
one behind no label, and where the switch is lowered behind an empty test. -/
theorem unlabelled_switch_accepted :
    let x := Expr.symbol ⟨.int .i32, {}⟩ none ⟨"x", .parameter⟩
    let command := Expr.symbol ⟨.string .view, {}⟩ none ⟨"command", .parameter⟩
    let one := Expr.literal ⟨.int .i32, {}⟩ (.int 1)
    let runsOut := Context.emit {} false (.switch x [⟨[one], [], true⟩] none)
    let unlabelled := Context.emit {} false (.switch x [⟨[], [.ret none], false⟩] none)
    let untested := Context.emit {} false (.switch command [⟨[], [.ret none], false⟩] none)
    let w : Writer := {}
    (runsOut.fault = none ∧
      (w.perform runsOut).buffer = "switch (x) \x7b\ncase 1:\n    [[fallthrough]];\n\x7d\n") ∧
    (unlabelled.fault = none ∧
      (w.perform unlabelled).buffer = "switch (x) \x7b\n    return;\n\x7d\n") ∧
    untested.fault = none ∧ (w.perform untested).buffer = "if () \x7b\n    return;\n\x7d\n" := by
  intro x command one runsOut unlabelled untested w
  exact ⟨⟨rfl, by decide⟩, ⟨rfl, by decide⟩, rfl, by decide⟩

end Context

end CppEmission
