import CppEmission.Proofs.Stmt.Balance
import CppEmission.Proofs.Stmt.Meaning
import CppEmission.Proofs.Units.Script

/-! A switch line by line: behind its own lines every branch has one that leaves it, unless the
branch says that it runs on or never comes to its end. -/

namespace CppEmission

open Writer

def Writer.row (width level : Nat) (text : String) : String := margin width level ++ text ++ "\n"

theorem Writer.indentWidth_moved (w : Writer) (ms : List Move) :
    (w.moved ms).indentWidth = w.indentWidth := by
  induction ms generalizing w with
  | nil => rfl
  | cons m ms ih =>
    rw [moved_cons, ih]
    cases m <;> rfl

structure Script.Adds (width : Nat) (s : Script) (start stop : Nat) (lines : List String) : Prop where
  complete : s.fault = none
  performed : ∀ buffer, Writer.perform ⟨buffer, start, width⟩ s =
    ⟨buffer ++ String.join lines, stop, width⟩

namespace Script.Adds

variable {width a b c : Nat} {s t : Script} {ls ms : List String}

theorem nil : Adds width {} a a [] := ⟨rfl, fun buffer => by simp [perform]⟩

theorem append (h : Adds width s a b ls) (h' : Adds width t b c ms) :
    Adds width (s ++ t) a c (ls ++ ms) := by
  refine ⟨complete_append_iff.2 ⟨h.complete, h'.complete⟩, fun buffer => ?_⟩
  rw [perform_append _ h.complete, h.performed, h'.performed, String.join_append,
    String.append_assoc]

theorem op {o : Op} {text : String} (level : Nat)
    (h : ∀ buffer, Writer.step ⟨buffer, a, width⟩ o =
      { writeLine text ⟨buffer, level, width⟩ with level := b }) :
    Adds width (.op o) a b [row width level text] := by
  refine ⟨rfl, fun buffer => ?_⟩
  change Writer.step _ o = _
  rw [h]
  simp [writeLine, row, String.append_assoc]

theorem line (text : String) : Adds width (.line text) a a [row width a text] := op a fun _ => rfl

theorem outdentedLine (text : String) :
    Adds width (.op (.outdentedLine text)) (a + 1) (a + 1) [row width a text] := op a fun _ => rfl

theorem openBlock (header : String) :
    Adds width (.openBlock header) a (a + 1) [row width a (blockHeader header)] := op a fun _ => rfl

theorem closeBlock : Adds width .closeBlock (a + 1) a [row width a "\x7d"] := op a fun _ => rfl

theorem block (header : String) (h : Adds width s (a + 1) (a + 1) ls) :
    Adds width (.block header s) a a
      (row width a (blockHeader header) :: ls ++ [row width a "\x7d"]) :=
  ((openBlock header).append h).append closeBlock

theorem branch (declares : Bool) (exit : Option String) {own : Nat → List String}
    (h : ∀ a, Adds width s a a (own a)) (a : Nat) :
    Adds width (.branch declares s exit) a a
      (let inside (a : Nat) := own a ++ exit.toList.map (row width a)
       if declares then row width a "\x7b" :: inside (a + 1) ++ [row width a "\x7d"]
       else inside a) := by
  have whole (a : Nat) : Adds width (.branch false s exit) a a
      (own a ++ exit.toList.map (row width a)) := by
    cases exit with
    | none => exact (h a).append nil
    | some text => exact (h a).append (line text)
  cases declares with
  | true => exact block "" (whole (a + 1))
  | false => exact whole a

end Script.Adds

namespace Writer

theorem indentWidth_run (w : Writer) (ops : List Op) : (w.run ops).indentWidth = w.indentWidth := by
  rw [run_eq_moved, indentWidth_moved]

theorem adds_isInfix {w : Writer} {s : Script} {stop : Nat → Nat} {own : Nat → List String}
    {ops : List Op} (h : ∀ a, s.Adds w.indentWidth a (stop a) (own a)) (within : s.ops <:+: ops) :
    ∃ level, (String.join (own level)).toList <:+: (w.run ops).buffer.toList := by
  obtain ⟨before, after, rfl⟩ := within
  have width := w.indentWidth_run before
  have performed := (h (w.run before).level).performed (w.run before).buffer
  obtain ⟨more, buffer⟩ := exists_buffer_run ((w.run before).perform s) after
  refine ⟨(w.run before).level, (w.run before).buffer.toList, more.toList, ?_⟩
  rw [← width] at performed
  rw [run_append, run_append, ← perform, buffer, performed, String.toList_append,
    String.toList_append]

end Writer

theorem Context.emitAll_adds {cx : Context} {body : List Stmt}
    (complete : (cx.emitAll body).fault = none) (width level : Nat) :
    (cx.emitAll body).Adds width level level (appended width level (cx.emitAll body).moves) := by
  refine ⟨complete, fun buffer => ?_⟩
  have returns := (cx.emitAll_returns body ⟨buffer, level, width⟩).1
  generalize hw : Writer.perform ⟨buffer, level, width⟩ (cx.emitAll body) = w
  have stands : w.level = level := hw ▸ returns.level complete
  have text : w.buffer = _ := hw ▸ returns.buffer
  have kept : w.indentWidth = width := by
    rw [← hw, returns.moved, indentWidth_moved]
  calc w = ⟨w.buffer, w.level, w.indentWidth⟩ := rfl
    _ = _ := by rw [text, stands, kept]

structure Branch where
  labels : List String
  own : List String
  isBraced : Bool
  exit : Option String

namespace Branch

variable (b : Branch) (width level : Nat)

def depth : Nat := level + 1 + b.isBraced.toNat

def inside : List String := b.own ++ b.exit.toList.map (row width (b.depth level))

def lines : List String :=
  b.labels.map (row width level) ++
    if b.isBraced then row width (level + 1) "\x7b" :: b.inside width level ++
      [row width (level + 1) "\x7d"]
    else b.inside width level

def jump : List Stmt := if b.exit = some "break;" then [.breakOut] else []

end Branch

namespace Context

def labelTexts (cx : Context) (values : List Expr) : Except EmitError (List String) :=
  values.mapM fun v => do return "case " ++ (← cx.render v .statement) ++ ":"

/-- The branch is written for these statements under these labels. Behind its last statement it has
the one line that says where it goes on: into the next branch if it `runsOn`, and otherwise out of
the switch, unless it never gets there. -/
structure WritesBranch (cx : Context) (width level : Nat) (labels : Except EmitError (List String))
    (body : List Stmt) (runsOn : Bool) (b : Branch) : Prop where
  labels : labels = .ok b.labels
  own : b.own = appended width (b.depth level) (cx.emitAll body).moves
  braced : b.isBraced = body.any Stmt.declaresLocal
  goesOn : runsOn = true → b.exit = some "[[fallthrough]];"
  breaks : runsOn = false → Stmt.completesAll body = true → b.exit = some "break;"
  leaves : runsOn = false → Stmt.completesAll body = false → b.exit = none
  never_ends : Stmt.completesAll body = false → ∀ o h, (Stmt.runAll o body h).1 ≠ .normal
  stays : runsOn = false → ∀ o h, (Stmt.runAll o (body ++ b.jump) h).1 ≠ .normal

end Context

theorem Stmt.runAll_exit_never_normal (o : Oracle) (body : List Stmt) :
    (runAll o (body ++ if exitLine false body = some "break;" then [.breakOut] else [])).Never
      .normal := by
  rw [exitLine, if_neg Bool.false_ne_true]
  cases h : completesAll body with
  | true =>
    rw [if_pos rfl, if_pos rfl, runAll_append]
    exact Run.Never.andThen_normal fun _ => nofun
  | false =>
    rw [if_neg Bool.false_ne_true, if_neg nofun, List.append_nil]
    exact runAll_never_normal o body h

namespace Context

variable {cx : Context} {width level : Nat}

theorem caseLabels_adds : ∀ {values : List Expr},
    (Script.concat (values.map cx.caseLabel)).fault = none →
    ∃ labels, cx.labelTexts values = .ok labels ∧
      (Script.concat (values.map cx.caseLabel)).Adds width (level + 1) (level + 1)
        (labels.map (row width level))
  | [], _ => ⟨[], rfl, .nil⟩
  | v :: rest, complete => by
    obtain ⟨first, others⟩ := Script.complete_append_iff.1 complete
    obtain ⟨text, rendered, -⟩ := Script.complete_after_iff.1 first
    obtain ⟨labels, texts, adds⟩ := caseLabels_adds others
    refine ⟨("case " ++ text ++ ":") :: labels, ?_, ?_⟩
    · rw [labelTexts, List.mapM_cons, rendered]
      rw [labelTexts] at texts
      rw [texts]
      rfl
    · rw [List.map_cons, Script.concat, caseLabel, rendered]
      exact Script.Adds.append (.outdentedLine _) adds

theorem branch_adds {front : Script} {labels : List String} {given : Except EmitError (List String)}
    (hlabels : given = .ok labels)
    (hfront : front.Adds width (level + 1) (level + 1) (labels.map (row width level)))
    {body : List Stmt} (complete : (cx.emitAll body).fault = none) (runsOn : Bool) :
    ∃ b, cx.WritesBranch width level given body runsOn b ∧
      (front ++ .branch (body.any Stmt.declaresLocal) (cx.emitAll body)
        (Stmt.exitLine runsOn body)).Adds width (level + 1) (level + 1) (b.lines width level) := by
  let b : Branch := {
    labels
    own := appended width (level + 1 + (body.any Stmt.declaresLocal).toNat) (cx.emitAll body).moves
    isBraced := body.any Stmt.declaresLocal
    exit := Stmt.exitLine runsOn body }
  have adds := Script.Adds.branch (body.any Stmt.declaresLocal) (Stmt.exitLine runsOn body)
    (fun a => emitAll_adds complete width a) (level + 1)
  have stays (o : Oracle) := Stmt.runAll_exit_never_normal o body
  refine ⟨b, ⟨hlabels, rfl, rfl, ?_, ?_, ?_, ?_, ?_⟩, hfront.append ?_⟩
  · rintro rfl
    rfl
  · rintro rfl completes
    change Stmt.exitLine false body = _
    rw [Stmt.exitLine, if_neg Bool.false_ne_true, if_pos completes]
  · rintro rfl stops
    change Stmt.exitLine false body = _
    rw [Stmt.exitLine, if_neg Bool.false_ne_true, if_neg (Bool.eq_false_iff.1 stops)]
  · exact fun stops o => Stmt.runAll_never_normal o body stops
  · rintro rfl
    exact stays
  · cases h : body.any Stmt.declaresLocal <;> simpa [b, h, Branch.inside, Branch.depth] using adds

def WritesCase (cx : Context) (width level : Nat) (c : Case Stmt) (b : Branch) : Prop :=
  cx.WritesBranch width level (cx.labelTexts c.values) c.body c.fallsThrough b

def WritesDefault (cx : Context) (width level : Nat) (body : List Stmt) (b : Branch) : Prop :=
  cx.WritesBranch width level (.ok ["default:"]) body false b

theorem complete_of_branch {declares : Bool} {s : Script} {exit : Option String}
    (h : (Script.branch declares s exit).fault = none) : s.fault = none := by
  have first {t : Script} (ht : (s ++ t).fault = none) : s.fault = none :=
    (Script.complete_append_iff.1 ht).1
  cases declares with
  | true => exact first (Script.complete_append_iff.1 (Script.complete_append_iff.1 h).1).2
  | false => exact first h

theorem emitCases_adds (width level : Nat) : ∀ {cases : List (Case Stmt)}, (cx.emitCases cases).fault = none →
    ∃ branches, List.Forall₂ (cx.WritesCase width level) cases branches ∧
      (cx.emitCases cases).Adds width (level + 1) (level + 1)
        (branches.flatMap (·.lines width level))
  | [], _ => ⟨[], .nil, .nil⟩
  | ⟨values, body, fallsThrough⟩ :: rest, complete => by
    rw [emitCases] at complete ⊢
    obtain ⟨first, others⟩ := Script.complete_append_iff.1 complete
    obtain ⟨front, branch⟩ := Script.complete_append_iff.1 first
    obtain ⟨labels, texts, labelled⟩ := caseLabels_adds front
    obtain ⟨b, writes, adds⟩ := branch_adds texts labelled (complete_of_branch branch) fallsThrough
    obtain ⟨branches, behind, rest⟩ := emitCases_adds width level others
    exact ⟨b :: branches, .cons writes behind, adds.append rest⟩

theorem emitDefault_adds (width level : Nat) : ∀ {default : Option (List Stmt)},
    (cx.emitDefault default).fault = none →
    ∃ branches, List.Forall₂ (cx.WritesDefault width level) default.toList branches ∧
      (cx.emitDefault default).Adds width (level + 1) (level + 1)
        (branches.flatMap (·.lines width level))
  | none, _ => ⟨[], .nil, .nil⟩
  | some body, complete => by
    rw [emitDefault] at complete ⊢
    have whole := complete_of_branch (Script.complete_append_iff.1 complete).2
    obtain ⟨b, writes, adds⟩ := branch_adds (rfl : Except.ok ["default:"] = .ok _)
      (.outdentedLine _) whole false
    exact ⟨[b], .cons writes .nil, by simpa using adds⟩

/-- A switch as it is written, branch by branch. -/
structure WrittenSwitch (cx : Context) (width level : Nat) (value : Expr) (cases : List (Case Stmt))
    (default : Option (List Stmt)) where
  test : String
  branches : List Branch
  last : List Branch
  rendered : cx.render value .statement = .ok test
  writes : List.Forall₂ (cx.WritesCase width level) cases branches
  writesLast : List.Forall₂ (cx.WritesDefault width level) default.toList last

def WrittenSwitch.lines {cx : Context} {width level : Nat} {value : Expr} {cases : List (Case Stmt)}
    {default : Option (List Stmt)} (s : cx.WrittenSwitch width level value cases default) :
    List String :=
  row width level ("switch (" ++ s.test ++ ") \x7b") ::
    (s.branches ++ s.last).flatMap (·.lines width level) ++ [row width level "\x7d"]

theorem emit_switch_adds {bare : Bool} {value : Expr} {cases : List (Case Stmt)}
    {default : Option (List Stmt)}
    (direct : (value.ty.isString && !cx.dialect.stringSwitch) = false)
    (complete : (cx.emit bare (.switch value cases default)).fault = none) (width level : Nat) :
    ∃ s : cx.WrittenSwitch width level value cases default,
      (cx.emit bare (.switch value cases default)).Adds width level level s.lines := by
  rw [emit, if_neg (Bool.eq_false_iff.1 direct)] at complete ⊢
  obtain ⟨test, rendered, whole⟩ := Script.complete_after_iff.1 complete
  obtain ⟨inside, -⟩ := Script.complete_append_iff.1 whole
  obtain ⟨-, inside⟩ := Script.complete_append_iff.1 inside
  obtain ⟨first, second⟩ := Script.complete_append_iff.1 inside
  obtain ⟨branches, writes, adds⟩ := emitCases_adds width level first
  obtain ⟨last, writesLast, addsLast⟩ := emitDefault_adds width level second
  refine ⟨⟨test, branches, last, rendered, writes, writesLast⟩, ?_⟩
  have header : blockHeader ("switch (" ++ test ++ ")") = "switch (" ++ test ++ ") \x7b" := by
    simp [blockHeader, String.append_assoc]
  have block := Script.Adds.block ("switch (" ++ test ++ ")") (adds.append addsLast)
  rw [header, ← List.flatMap_append] at block
  rw [rendered]
  exact block

/-- Every branch of a switch that is written as such has, behind its last statement and inside its
braces, the line that it calls for: where the branch runs on into the next one, what says so, and
otherwise a break, unless the branch cannot come to its end, whatever the oracle says. No branch
runs on that does not say so. -/
theorem switch_branches_stay_apart (cx : Context) (bare : Bool) {value : Expr}
    {cases : List (Case Stmt)} {default : Option (List Stmt)}
    (direct : (value.ty.isString && !cx.dialect.stringSwitch) = false)
    (complete : (cx.emit bare (.switch value cases default)).fault = none) (w : Writer) :
    ∃ test branches last, cx.render value .statement = .ok test ∧
      List.Forall₂ (cx.WritesCase w.indentWidth w.level) cases branches ∧
      List.Forall₂ (cx.WritesDefault w.indentWidth w.level) default.toList last ∧
      w.perform (cx.emit bare (.switch value cases default)) = { w with
        buffer := w.buffer ++ String.join
          (row w.indentWidth w.level ("switch (" ++ test ++ ") \x7b") ::
            (branches ++ last).flatMap (·.lines w.indentWidth w.level) ++
              [row w.indentWidth w.level "\x7d"]) } := by
  obtain ⟨s, adds⟩ := emit_switch_adds direct complete w.indentWidth w.level
  exact ⟨s.test, s.branches, s.last, s.rendered, s.writes, s.writesLast, adds.performed w.buffer⟩

theorem switch_branches_stay_apart_scoped :
    let x := Expr.symbol ⟨.int .i32, {}⟩ none ⟨"x", .parameter⟩
    let number (n : Int64) := Expr.literal ⟨.int .i32, {}⟩ (.int n)
    let limit := Stmt.constant ⟨"LIMIT", .int .i32, number 10, .published⟩
    let cases : List (Case Stmt) := [⟨[number 1], [limit, .expr x], true⟩,
      ⟨[number 2, number 3], [.expr x, .ifElse x (.ret none) (some (.block [.breakOut]))], false⟩]
    let switch := Stmt.switch x cases (some [.whileLoop x .breakOut])
    let w : Writer := { level := 1 }
    (x.ty.isString && !({} : Context).dialect.stringSwitch) = false ∧
      (Context.emit {} false switch).fault = none ∧
      ∃ branches last : List Branch, branches.map (·.exit) = [some "[[fallthrough]];", none] ∧
        last.map (·.exit) = [some "break;"] ∧
        w.perform (Context.emit {} false switch) = { w with
          buffer := String.join (row 4 1 "switch (x) \x7b" ::
            (branches ++ last).flatMap (·.lines 4 1) ++ [row 4 1 "\x7d"]) } := by
  intro x number limit cases switch w
  have direct : (x.ty.isString && !({} : Context).dialect.stringSwitch) = false := rfl
  have complete : (Context.emit {} false switch).fault = none := rfl
  obtain ⟨test, branches, last, rendered, writes, writesLast, text⟩ :=
    switch_branches_stay_apart {} false direct complete w
  obtain rfl : "x" = test := Except.ok.inj rendered
  obtain ⟨first, _, goesOn, others, rfl⟩ := List.forall₂_cons_left_iff.1 writes
  obtain ⟨second, _, leaves, rest, rfl⟩ := List.forall₂_cons_left_iff.1 others
  obtain rfl := List.forall₂_nil_left_iff.1 rest
  obtain ⟨default, _, breaks, rest, rfl⟩ := List.forall₂_cons_left_iff.1 writesLast
  obtain rfl := List.forall₂_nil_left_iff.1 rest
  have exits : first.exit = some "[[fallthrough]];" ∧ second.exit = none ∧
      default.exit = some "break;" := ⟨goesOn.goesOn rfl, leaves.leaves rfl rfl, breaks.breaks rfl rfl⟩
  exact ⟨direct, complete, [first, second], [default], by simp [exits], by simp [exits],
    by simpa [w] using text⟩

end Context

end CppEmission
