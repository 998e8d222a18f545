import CppEmission.Proofs.Writer.Move
import CppEmission.Stmt.Script

namespace CppEmission

namespace Stmt

mutual

def holdsNative : Stmt → Bool
  | native _ => true
  | block body => anyHoldsNative body
  | ifElse _ thenDo elseDo => thenDo.holdsNative || optHoldsNative elseDo
  | whileLoop _ body | doWhile body _ | forLoop _ _ _ body | foreach _ _ _ body => body.holdsNative
  | switch _ cases default => casesHoldNative cases || defaultHoldsNative default
  | _ => false

def anyHoldsNative : List Stmt → Bool
  | [] => false
  | s :: rest => s.holdsNative || anyHoldsNative rest

def optHoldsNative : Option Stmt → Bool
  | none => false
  | some s => s.holdsNative

def casesHoldNative : List (Case Stmt) → Bool
  | [] => false
  | ⟨_, body, _⟩ :: rest => anyHoldsNative body || casesHoldNative rest

def defaultHoldsNative : Option (List Stmt) → Bool
  | none => false
  | some body => anyHoldsNative body

end

end Stmt

open Writer

/-- A script that is begun `start` levels above some level never leads below that level, and where
it has no fault it ends `stop` levels above it. Its lines are its own unless `native` holds. -/
structure Script.Spans (native : Prop) (s : Script) (start stop : Nat) : Prop where
  depth : ∃ d, depth? start s.moves = some d ∧ (s.fault = none → d = stop)
  plain : ∀ text, .verbatim text ∈ s.moves → native

namespace Script.Spans

variable {native : Prop} {s t : Script} {a b c : Nat}

theorem moves_append (h : s.fault = none) (t : Script) : (s ++ t).moves = s.moves ++ t.moves := by
  rw [append_of_complete h]
  exact List.flatMap_append

theorem nil : Spans native {} a a := ⟨⟨a, rfl, fun _ => rfl⟩, nofun⟩

theorem fail (e : EmitError) : Spans native (.fail e) a b := ⟨⟨a, rfl, nofun⟩, nofun⟩

theorem append (h : Spans native s a b) (h' : Spans native t b c) : Spans native (s ++ t) a c := by
  cases hs : s.fault with
  | some e =>
    rw [append_of_fault hs]
    exact ⟨h.depth.imp fun _ hd => ⟨hd.1, fun complete => by simp [hs] at complete⟩, h.plain⟩
  | none =>
    obtain ⟨d, hd, stops⟩ := h.depth
    obtain rfl := stops hs
    obtain ⟨e, he, stops⟩ := h'.depth
    constructor
    · rw [moves_append hs, depth?_append, hd]
      exact ⟨e, he, fun complete => stops (by rwa [append_of_complete hs] at complete)⟩
    · rw [moves_append hs]
      exact fun text mem => (List.mem_append.1 mem).elim (h.plain text) (h'.plain text)

theorem after {x : Except EmitError α} {k : α → Script} (h : ∀ y, Spans native (k y) a b) :
    Spans native (.after x k) a b := by
  cases x with
  | ok y => exact h y
  | error e => exact fail e

theorem op {o : Writer.Op} (h : depth? a o.moves = some b)
    (plain : ∀ text, .verbatim text ∉ o.moves) : Spans native (.op o) a b := by
  have moves : (Script.op o).moves = o.moves := List.append_nil _
  exact ⟨⟨b, moves ▸ h, fun _ => rfl⟩, fun text mem => absurd (moves ▸ mem) (plain text)⟩

theorem line (text : String) : Spans native (.line text) a a := op rfl (by simp [Op.moves])

theorem indent : Spans native (.op .indent) a (a + 1) := op rfl (by simp [Op.moves])

theorem dedent : Spans native (.op .dedent) (a + 1) a := op rfl (by simp [Op.moves])

theorem outdentedLine (text : String) : Spans native (.op (.outdentedLine text)) (a + 1) (a + 1) :=
  op rfl (by simp [Op.moves])

theorem openBlock (header : String) : Spans native (.openBlock header) a (a + 1) :=
  op rfl (by simp [Op.moves])

theorem closeBlockWith (closing : String) :
    Spans native (.op (.closeBlockWith closing)) (a + 1) a :=
  op rfl (by simp [Op.moves])

theorem closeBlock : Spans native .closeBlock (a + 1) a := closeBlockWith _

theorem raw (text : String) (h : native) : Spans native (.op (.raw text)) a a :=
  ⟨⟨a, rfl, fun _ => rfl⟩, fun _ _ => h⟩

theorem block {header : String} (h : Spans native s (a + 1) (a + 1)) :
    Spans native (.block header s) a a :=
  ((openBlock header).append h).append closeBlock

theorem concat {ss : List Script} (h : ∀ s ∈ ss, Spans native s a a) :
    Spans native (.concat ss) a a := by
  induction ss with
  | nil => exact nil
  | cons s ss ih =>
    exact (h s List.mem_cons_self).append (ih fun s hs => h s (List.mem_cons_of_mem _ hs))

theorem branch {declares : Bool} {exit : Option String} (h : ∀ a, Spans native s a a) :
    Spans native (.branch declares s exit) a a := by
  have enclosed {s : Script} (hs : ∀ a, Spans native s a a) :
      Spans native (if declares then Script.block "" s else s) a a := by
    split
    · exact block (hs (a + 1))
    · exact hs a
  cases exit with
  | none => exact enclosed fun a => (h a).append nil
  | some text => exact enclosed fun a => (h a).append (line text)

end Script.Spans

namespace Context

open Script (Spans)

variable {native : Prop} (cx : Context)

theorem caseLabels_spans (values : List Expr) (a : Nat) :
    Spans native (.concat (values.map cx.caseLabel)) (a + 1) (a + 1) := by
  apply Spans.concat
  intro s hs
  obtain ⟨value, -, rfl⟩ := List.mem_map.1 hs
  exact .after fun text => .outdentedLine _

theorem elseLine_spans (text : String) (a : Nat) :
    Spans native (.op .dedent ++ .line text ++ .op .indent) (a + 1) (a + 1) :=
  (Spans.dedent.append (.line text)).append .indent

mutual

-- along the recursion of `emit`; what a part may assume of the level is all levels above the one
-- that it must not go below, since the braces around it have moved the writer
theorem emit_spans (bare : Bool) : ∀ (s : Stmt), (s.holdsNative → native) → ∀ a,
    Spans native (cx.emit bare s) a a
  | .expr e, _, a => .after fun text => .line _
  | .block body, h, a => by
    rw [emit]
    split
    · exact emitAll_spans body h a
    · exact .block (emitAll_spans body h (a + 1))
  | .ifElse test thenDo elseDo, h, a => by
    simp only [Stmt.holdsNative, Bool.or_eq_true, or_imp] at h
    have first := emit_spans true thenDo h.1 (a + 1)
    rw [emit]
    exact .after fun text => ((Spans.openBlock _).append first).append (emitElse_spans elseDo h.2 a)
  | .whileLoop test body, h, a => by
    rw [emit]
    exact .after fun text => .block (emit_spans true body h (a + 1))
  | .doWhile body test, h, a => by
    rw [emit]
    refine ((Spans.openBlock _).append (emit_spans true body h (a + 1))).append ?_
    exact .after fun text => .closeBlockWith _
  | .forLoop init test advance body, h, a => by
    rw [emit]
    exact .after fun text => .block (emit_spans true body h (a + 1))
  | .foreach element value collection body, h, a => by
    rw [emit]
    exact .after fun text => .block (emit_spans true body h (a + 1))
  | .switch value cases default, h, a => by
    simp only [Stmt.holdsNative, Bool.or_eq_true, or_imp] at h
    rw [emit]
    split
    · refine (emitTests_spans value false cases h.1 a).append ?_
      simpa using emitOtherwise_spans value (!cases.isEmpty) default h.2 a
    · exact .after fun text => .block
        ((emitCases_spans cases h.1 a).append (emitDefault_spans default h.2 a))
  | .breakOut, _, _ => .line _
  | .continueLoop, _, _ => .line _
  | .ret value, _, a => .after fun text => .line _
  | .raise message, _, a => .after fun text => .line _
  | .native text, h, a => .raw text (h rfl)
  | .constant c, _, a => .after fun text => .line _

theorem emitAll_spans : ∀ (body : List Stmt), (Stmt.anyHoldsNative body → native) → ∀ a,
    Spans native (cx.emitAll body) a a
  | [], _, a => .nil
  | s :: rest, h, a => by
    simp only [Stmt.anyHoldsNative, Bool.or_eq_true, or_imp] at h
    exact (emit_spans false s h.1 a).append (emitAll_spans rest h.2 a)

theorem emitElse_spans : ∀ (elseDo : Option Stmt), (Stmt.optHoldsNative elseDo → native) → ∀ a,
    Spans native (cx.emitElse elseDo) (a + 1) a
  | none, _, a => .closeBlock
  | some s, h, a => by
    cases s with
    | ifElse test thenDo elseDo =>
      simp only [Stmt.optHoldsNative, Stmt.holdsNative, Bool.or_eq_true, or_imp] at h
      have first := emit_spans true thenDo h.1 (a + 1)
      rw [emitElse]
      exact Spans.dedent.append (.after fun text =>
        (((Spans.line _).append .indent).append first).append (emitElse_spans elseDo h.2 a))
    | _ => exact ((elseLine_spans _ a).append (emit_spans true _ h (a + 1))).append .closeBlock

theorem emitCases_spans : ∀ (cases : List (Case Stmt)), (Stmt.casesHoldNative cases → native) →
    ∀ a, Spans native (cx.emitCases cases) (a + 1) (a + 1)
  | [], _, a => .nil
  | ⟨values, body, fallsThrough⟩ :: rest, h, a => by
    simp only [Stmt.casesHoldNative, Bool.or_eq_true, or_imp] at h
    rw [emitCases]
    -- labels stand one level to the left of where a branch begins, so it begins above the floor
    exact ((caseLabels_spans cx values a).append (.branch (emitAll_spans body h.1))).append
      (emitCases_spans rest h.2 a)

theorem emitDefault_spans : ∀ (default : Option (List Stmt)),
    (Stmt.defaultHoldsNative default → native) → ∀ a,
    Spans native (cx.emitDefault default) (a + 1) (a + 1)
  | none, _, _ => .nil
  | some body, h, _ => (Spans.outdentedLine _).append (.branch (emitAll_spans body h))

theorem emitStripped_spans : ∀ (body : List Stmt), (Stmt.anyHoldsNative body → native) → ∀ a,
    Spans native (cx.emitStripped body) a a
  | [], _, a => .nil
  | [s], h, a => by
    rw [Stmt.anyHoldsNative, Stmt.anyHoldsNative, Bool.or_false] at h
    cases s with
    | breakOut => exact .nil
    | block body => exact .block (emitStripped_spans body h (a + 1))
    | _ => exact emit_spans false _ h a
  | s :: t :: rest, h, a => by
    rw [Stmt.anyHoldsNative, Bool.or_eq_true, or_imp] at h
    rw [emitStripped]
    exact (emit_spans false s h.1 a).append (emitStripped_spans (t :: rest) h.2 a)

theorem emitTests_spans (value : Expr) (opened : Bool) : ∀ (cases : List (Case Stmt)),
    (Stmt.casesHoldNative cases → native) → ∀ a, Spans native (cx.emitTests value opened cases)
      (a + opened.toNat) (a + (opened || !cases.isEmpty).toNat)
  | [], _, _ => by
    simpa [emitTests] using Spans.nil
  | ⟨values, body, fallsThrough⟩ :: rest, h, a => by
    simp only [Stmt.casesHoldNative, Bool.or_eq_true, or_imp] at h
    rw [emitTests]
    split
    · exact .fail _
    split
    · exact .fail _
    have test : Spans native (.after (cx.branchTest value values) fun text =>
        if opened then .op .dedent ++ .line ("\x7d else if (" ++ text ++ ") \x7b") ++ .op .indent
        else .openBlock ("if (" ++ text ++ ")")) (a + opened.toNat) (a + 1) := by
      refine .after fun text => ?_
      cases opened with
      | true => exact elseLine_spans _ a
      | false => exact .openBlock _
    have others := emitTests_spans value true rest h.2 a
    simpa using (test.append (emitStripped_spans body h.1 (a + 1))).append others

theorem emitOtherwise_spans (value : Expr) (opened : Bool) : ∀ (default : Option (List Stmt)),
    (Stmt.defaultHoldsNative default → native) → ∀ a,
    Spans native (cx.emitOtherwise value opened default) (a + opened.toNat) a
  | none, _, a => by
    cases opened with
    | true => exact .closeBlock
    | false => exact .nil
  | some body, h, a => by
    rw [emitOtherwise]
    split
    · exact .fail _
    have front : Spans native (if opened then .op .dedent ++ .line "\x7d else \x7b" ++ .op .indent
        else .openBlock "") (a + opened.toNat) (a + 1) := by
      cases opened with
      | true => exact elseLine_spans _ a
      | false => exact .openBlock _
    exact (front.append (emitStripped_spans body h (a + 1))).append .closeBlock

end

end Context

/-- Whatever a script does, it is done to the right of where the writer stood, and what is appended
is what its moves append. A script without a fault leaves the writer at its level. -/
structure Script.Returns (s : Script) (w : Writer) : Prop where
  moved : w.perform s = w.moved s.moves
  level : s.fault = none → (w.perform s).level = w.level
  above : ∀ front back, s.moves = front ++ back → w.level ≤ (w.moved front).level
  room : ∀ front back, s.moves = front ++ .dedent :: back → w.level < (w.moved front).level
  buffer : (w.perform s).buffer =
    w.buffer ++ String.join (appended w.indentWidth w.level s.moves)

theorem Script.Spans.returns {native : Prop} {s : Script} (h : Spans native s 0 0) (w : Writer) :
    s.Returns w := by
  obtain ⟨d, hd, stops⟩ := h.depth
  have reached {front back : List Move} (split : s.moves = front ++ back) :
      ∃ e, depth? e back = some d ∧ (w.moved front).level = w.level + e := by
    rw [split, depth?_append, Option.bind_eq_some_iff] at hd
    obtain ⟨e, he, hback⟩ := hd
    exact ⟨e, hback, level_moved he rfl⟩
  refine ⟨s.perform_eq_moved w, ?_, ?_, ?_, ?_⟩
  · intro complete
    rw [s.perform_eq_moved, level_moved hd (w := w) (n := w.level) rfl, stops complete]
    rfl
  · intro front back split
    obtain ⟨e, -, level⟩ := reached split
    omega
  · intro front back split
    obtain ⟨e, he, level⟩ := reached split
    cases e with
    | zero => cases he
    | succ e => omega
  · rw [s.perform_eq_moved]
    exact w.buffer_moved s.moves

namespace Context

open Script (Spans)

/-- Statements return a writer to its level and never lead it further left; what they append at any
level is what they append at the margin, moved to the right by as many indents. -/
theorem emitAll_returns (cx : Context) (body : List Stmt) (w : Writer) :
    (cx.emitAll body).Returns w ∧
      (Stmt.anyHoldsNative body = false →
        appended w.indentWidth w.level (cx.emitAll body).moves =
          (appended w.indentWidth 0 (cx.emitAll body).moves).map
            (margin w.indentWidth w.level ++ ·)) := by
  have spans : Spans True (cx.emitAll body) 0 0 := cx.emitAll_spans body (fun _ => trivial) 0
  refine ⟨spans.returns w, fun own => ?_⟩
  have plain : Spans False (cx.emitAll body) 0 0 := cx.emitAll_spans body (by simp [own]) 0
  obtain ⟨d, hd, -⟩ := plain.depth
  exact appended_add (by rw [hd]; rfl) plain.plain w.indentWidth w.level

theorem emitAll_returns_chain :
    let stop := Expr.symbol ⟨.bool, {}⟩ none ⟨"stop", .localVar⟩
    let command := Expr.symbol ⟨.string .view, {}⟩ none ⟨"command", .parameter⟩
    let code := Expr.symbol ⟨.int .i32, {}⟩ none ⟨"code", .parameter⟩
    let body : List Stmt := [
      .ifElse stop (.block [.breakOut]) (some (.ifElse stop .continueLoop (some (.block [])))),
      .switch command [⟨[.ofString "go"], [.block [.breakOut]], false⟩] (some []),
      .doWhile (.switch code [⟨[code], [.ret none], false⟩, ⟨[], [], true⟩] none) stop]
    let s := Context.emitAll {} body
    let w : Writer := { buffer := "void f() \x7b\n", level := 1 }
    s.fault = none ∧ s.Returns w ∧ Stmt.anyHoldsNative body = false ∧
      appended w.indentWidth w.level s.moves =
        (appended w.indentWidth 0 s.moves).map (margin w.indentWidth w.level ++ ·) := by
  intro stop command code body s w
  have own : Stmt.anyHoldsNative body = false := rfl
  exact ⟨rfl, (emitAll_returns {} body w).1, own, (emitAll_returns {} body w).2 own⟩

end Context

end CppEmission
