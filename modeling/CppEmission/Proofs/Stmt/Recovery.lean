import CppEmission.Proofs.Stmt.Reader
import CppEmission.Proofs.Units.Script

namespace CppEmission

open Writer (Op Move)

namespace Context

open Script (append_eq_complete after_eq_complete)

variable {cx : Context} {ops : List Op}

theorem statementText_isLeaf (hcx : cx.dialect = .cpp) {e : Expr} (h : e.NamesIdentifiers) :
    Yields IsLeaf (cx.statementText e) :=
  (render_inline hcx h _).bind fun text ht => .ok ⟨text, ht, rfl⟩

theorem returnLine_isLeaf (hcx : cx.dialect = .cpp)
    (hret : ∀ t ∈ cx.scope.returnTy?, t.NamesIdentifiers) {value : Option Expr}
    (h : Expr.optNamesIdentifiers value) : Yields IsLeaf (cx.returnLine value) := by
  cases value with
  | none => exact .ok ⟨"return", by decide, rfl⟩
  | some e =>
    have line {text : String} (ht : Inline text) : IsLeaf ("return " ++ text ++ ";") :=
      ⟨_, Inline.append (by decide) ht.closed, rfl⟩
    simp only [returnLine]
    split
    · next t ht => exact (coerce_inline hcx (hret t ht) h _).bind fun _ ht => .ok (line ht)
    · exact (render_inline hcx h _).bind fun _ ht => .ok (line ht)

theorem raiseLine_isLeaf (hcx : cx.dialect = .cpp) {e : Expr} (h : e.NamesIdentifiers) :
    Yields IsLeaf (cx.raiseLine e) :=
  (coerce_inline (t := .string .storage) hcx trivial h _).bind fun text ht =>
    .ok ⟨"throw std::runtime_error(" ++ text ++ ")",
      (Inline.append (by decide) ht.closed).append (by decide), by simp [String.append_assoc]⟩

theorem constantLine_isLeaf (hcx : cx.dialect = .cpp) {c : Constant}
    (hn : Grammar.isIdentifier c.name) (ht : c.ty.NamesIdentifiers)
    (hv : c.value.NamesIdentifiers) : Yields IsLeaf (cx.constantLine .body c) := by
  unfold constantLine
  split
  · exact .error _
  · next t h =>
    have named : t.NamesIdentifiers := by
      revert h ht
      cases c.ty <;> simp [Ty.ofConstant?] <;> rintro h rfl <;> exact h
    refine (typeName_inline named).bind fun _ hty => (coerce_inline hcx named hv _).bind
      fun _ hu => .ok ⟨_, ?_, rfl⟩
    exact (((((Inline.append (by decide) (by decide)).append hty.closed).append (by decide)).append
      (Inline.escape hn).closed).append (by decide)).append hu.closed

theorem optionalText_sealed (hcx : cx.dialect = .cpp) {e : Option Expr}
    (h : Expr.optNamesIdentifiers e) :
    Yields (fun text => ∀ t ∈ text, Sealed t) (cx.optionalText e) := by
  cases e with
  | none => exact .ok nofun
  | some e => exact (render_inline hcx h _).map fun text ht => by simpa using ht.closed

structure IsLoopHeader (header : String) : Prop where
  lead : header.toList.head? = some 'f'
  newline : '\n' ∉ header.toList

theorem IsLoopHeader.line {header : String} (h : IsLoopHeader header) :
    Writer.blockHeader header = header ++ " \x7b" := by
  have : header ≠ "" := by
    rintro rfl
    cases h.lead
  simp [Writer.blockHeader, this]

theorem IsLoopHeader.isRow {header : String} (h : IsLoopHeader header) :
    IsRow (header ++ " \x7b") := by
  obtain ⟨cs, hcs⟩ := List.head?_eq_some_iff.1 h.lead
  exact ⟨by simpa using h.newline, by simp [hcs]⟩

theorem foreachHeader_sealed (hcx : cx.dialect = .cpp) {element : VarDecl}
    (hn : Grammar.isIdentifier element.name) (ht : element.ty.NamesIdentifiers)
    {value : Option VarDecl} (hv : ∀ v ∈ value, Grammar.isIdentifier v.name) {collection : Expr}
    (hc : collection.NamesIdentifiers) :
    Yields (fun header => IsLoopHeader header ∧ Sealed header)
      (cx.foreachHeader element value collection) := by
  have name := (Inline.escape hn).closed
  have header {text : String} (lead : text.toList.head? = some 'f') (h : Sealed text) :
      IsLoopHeader text ∧ Sealed text := ⟨⟨lead, h.newline_not_mem⟩, h⟩
  unfold foreachHeader
  split
  · exact .error _
  refine (render_inline hcx hc _).bind fun range hr => ?_
  have colon {front : String} (h : Sealed front) : Sealed (front ++ " : " ++ range ++ ")") :=
    ((h.append (by decide)).append hr.closed).append (by decide)
  cases value with
  | some v =>
    have value := (Inline.escape (hv v rfl)).closed
    exact .ok (header (by simp) <| ((((Sealed.append (by decide) name).append
      (by decide)).append value).append (by decide)).append hr.closed |>.append (by decide))
  | none =>
    simp only
    split
    · exact (typeName_inline ht).bind fun ty hty => .ok (header (by simp) <|
        colon (((Sealed.append (by decide) hty.closed).append (by decide)).append name))
    · exact .ok (header (by simp) (colon (Sealed.append (by decide) name)))

theorem forHeader_counts (hcx : cx.dialect = .cpp) {init test advance : Option Expr}
    (hi : Expr.optNamesIdentifiers init) (ht : Expr.optNamesIdentifiers test)
    (ha : Expr.optNamesIdentifiers advance) :
    Yields (fun header => IsLoopHeader header ∧ Quoting.outside.scan header.toList = none)
      (cx.forHeader init test advance) := by
  refine (optionalText_sealed hcx hi).bind fun init hi => (optionalText_sealed hcx ht).bind
    fun test ht => (optionalText_sealed hcx ha).bind fun advance ha => .ok ?_
  have spaced {text : Option String} (h : ∀ t ∈ text, Sealed t) :
      Sealed ((text.map (" " ++ ·)).getD "") := by
    cases text with
    | none => decide
    | some t => exact Sealed.append (by decide) (h t rfl)
  have first : Sealed ("for (" ++ init.getD "") := by
    refine Sealed.append (by decide) ?_
    cases init with
    | none => decide
    | some t => exact hi t rfl
  have second := spaced ht
  have third := spaced ha
  refine ⟨⟨by simp, ?_⟩, ?_⟩
  · have := first.newline_not_mem
    have := second.newline_not_mem
    have := third.newline_not_mem
    simp_all
  · rw [String.append_assoc, String.append_assoc, String.append_assoc, String.append_assoc,
      String.toList_append, Quoting.scan_append, first, Option.bind_some, String.toList_append,
      Quoting.scan_append]
    rfl

theorem block_eq_complete_iff {header : String} {body : Script} :
    Script.block header body = ⟨ops, none⟩ ↔
      ∃ inner, body = ⟨inner, none⟩ ∧ ops = .openBlock header :: (inner ++ [.closeBlock]) := by
  rw [Script.block, append_eq_complete]
  constructor
  · rintro ⟨a, b, ha, hb, rfl⟩
    obtain ⟨c, inner, hc, hinner, rfl⟩ := append_eq_complete.1 ha
    cases hb
    cases hc
    exact ⟨inner, hinner, rfl⟩
  · rintro ⟨inner, rfl, rfl⟩
    exact ⟨_, _, rfl, rfl, rfl⟩

theorem leaf_prints {text : Except EmitError String} (h : Yields IsLeaf text)
    (hs : Script.after text .line = ⟨ops, none⟩) :
    ∃ ss, leafSkeleton text = some ss ∧ Prints ops ss := by
  obtain ⟨line, rfl, hs⟩ := after_eq_complete.1 hs
  obtain rfl := congrArg Script.ops hs
  exact ⟨_, rfl, .leaf (h line rfl)⟩

mutual

-- along the recursion of `emit`
theorem emit_prints (hcx : cx.dialect = .cpp) (hret : ∀ t ∈ cx.scope.returnTy?, t.NamesIdentifiers)
    (bare : Bool) : ∀ (s : Stmt), s.IsPlain → ∀ {ops : List Op}, cx.emit bare s = ⟨ops, none⟩ →
    ∃ ss, cx.skeleton bare s = some ss ∧ Prints ops ss
  | .expr e, h, ops, hs => leaf_prints (statementText_isLeaf hcx h) hs
  | .block body, h, ops, hs => by
    rw [emit] at hs
    cases bare with
    | true =>
      obtain ⟨ss, hss, prints⟩ := emitAll_prints hcx hret body h hs
      exact ⟨ss, by simp [skeleton, hss], prints⟩
    | false =>
      obtain ⟨inner, hinner, rfl⟩ := block_eq_complete_iff.1 hs
      obtain ⟨ss, hss, prints⟩ := emitAll_prints hcx hret body h hinner
      exact ⟨[.block ss], by simp [skeleton, hss],
        .block rfl ⟨by decide, by decide⟩ Mark.ofLine_block prints rfl⟩
  | .ifElse test thenDo elseDo, h, ops, hs => by
    rw [emit] at hs
    obtain ⟨text, htext, hs⟩ := after_eq_complete.1 hs
    obtain ⟨a, b, ha, hb, rfl⟩ := append_eq_complete.1 hs
    obtain ⟨c, d, hc, hd, rfl⟩ := append_eq_complete.1 ha
    obtain rfl := congrArg Script.ops hc
    obtain ⟨ss, hss, first⟩ := emit_prints hcx hret true thenDo h.2.1 hd
    obtain ⟨others, otherwise, helse, last⟩ := emitElse_prints hcx hret elseDo h.2.2 hb
    have sealed := (render_inline hcx h.1 _ text htext).closed
    refine ⟨[.chain ((text, ss) :: others) otherwise], ?_, .chain sealed first last⟩
    simp [skeleton, htext, hss, helse, Except.toOption]
  | .whileLoop test body, h, ops, hs => by
    rw [emit] at hs
    obtain ⟨text, htext, hs⟩ := after_eq_complete.1 hs
    obtain ⟨inner, hinner, rfl⟩ := block_eq_complete_iff.1 hs
    obtain ⟨ss, hss, prints⟩ := emit_prints hcx hret true body h.2 hinner
    have sealed := (render_inline hcx h.1 _ text htext).closed
    have row : IsRow ("while (" ++ text ++ ")" ++ " \x7b") :=
      Sealed.isRow (((Sealed.append (by decide) sealed).append (by decide)).append (by decide))
        (by simp)
    exact ⟨[.whileLoop text ss], by simp [skeleton, htext, hss, Except.toOption],
      .block (by simp [Writer.blockHeader]) row (Mark.ofLine_while text) prints rfl⟩
  | .doWhile body test, h, ops, hs => by
    rw [emit] at hs
    obtain ⟨a, b, ha, hb, rfl⟩ := append_eq_complete.1 hs
    obtain ⟨c, d, hc, hd, rfl⟩ := append_eq_complete.1 ha
    obtain rfl := congrArg Script.ops hc
    obtain ⟨text, htext, hb⟩ := after_eq_complete.1 hb
    obtain rfl := congrArg Script.ops hb
    obtain ⟨ss, hss, prints⟩ := emit_prints hcx hret true body h.2 hd
    have sealed := (render_inline hcx h.1 _ text htext).closed
    exact ⟨[.doWhile ss text], by simp [skeleton, htext, hss, Except.toOption],
      .doWhile sealed prints⟩
  | .forLoop init test advance body, h, ops, hs => by
    rw [emit] at hs
    obtain ⟨header, hheader, hs⟩ := after_eq_complete.1 hs
    obtain ⟨inner, hinner, rfl⟩ := block_eq_complete_iff.1 hs
    obtain ⟨ss, hss, prints⟩ := emit_prints hcx hret true body h.2.2.2 hinner
    obtain ⟨loop, counts⟩ := forHeader_counts hcx h.1 h.2.1 h.2.2.1 header hheader
    exact ⟨[.forLoop header ss], by simp [skeleton, hheader, hss, Except.toOption],
      .block loop.line loop.isRow (Mark.ofLine_forLoop loop.lead counts) prints rfl⟩
  | .foreach element value collection body, h, ops, hs => by
    rw [emit] at hs
    obtain ⟨header, hheader, hs⟩ := after_eq_complete.1 hs
    obtain ⟨inner, hinner, rfl⟩ := block_eq_complete_iff.1 hs
    obtain ⟨ss, hss, prints⟩ := emit_prints hcx hret true body h.2.2.2 hinner
    obtain ⟨loop, sealed⟩ := foreachHeader_sealed hcx h.1.1 h.1.2 h.2.1 h.2.2.1 header hheader
    exact ⟨[.foreach header ss], by simp [skeleton, hheader, hss, Except.toOption],
      .block loop.line loop.isRow (Mark.ofLine_foreach loop.lead sealed) prints rfl⟩
  | .breakOut, _, ops, hs => by
    obtain rfl := congrArg Script.ops hs
    exact ⟨_, rfl, .leaf ⟨"break", by decide, rfl⟩⟩
  | .continueLoop, _, ops, hs => by
    obtain rfl := congrArg Script.ops hs
    exact ⟨_, rfl, .leaf ⟨"continue", by decide, rfl⟩⟩
  | .ret value, h, ops, hs => leaf_prints (returnLine_isLeaf hcx hret h) hs
  | .raise message, h, ops, hs => leaf_prints (raiseLine_isLeaf hcx h) hs
  | .constant c, h, ops, hs => leaf_prints (constantLine_isLeaf hcx h.1 h.2.1 h.2.2) hs
  | .switch .., h, _, _ => h.elim
  | .native _, h, _, _ => h.elim

theorem emitAll_prints (hcx : cx.dialect = .cpp)
    (hret : ∀ t ∈ cx.scope.returnTy?, t.NamesIdentifiers) : ∀ (body : List Stmt),
    Stmt.allPlain body → ∀ {ops : List Op}, cx.emitAll body = ⟨ops, none⟩ →
    ∃ ss, cx.skeletons body = some ss ∧ Prints ops ss
  | [], _, ops, hs => by
    cases hs
    exact ⟨[], rfl, .nil⟩
  | s :: rest, h, ops, hs => by
    obtain ⟨a, b, ha, hb, rfl⟩ := append_eq_complete.1 hs
    obtain ⟨ss, hss, first⟩ := emit_prints hcx hret false s h.1 ha
    obtain ⟨ts, hts, others⟩ := emitAll_prints hcx hret rest h.2 hb
    exact ⟨ss ++ ts, by simp [skeletons, hss, hts], first.append others⟩

theorem emitElse_prints (hcx : cx.dialect = .cpp)
    (hret : ∀ t ∈ cx.scope.returnTy?, t.NamesIdentifiers) : ∀ (elseDo : Option Stmt),
    Stmt.optPlain elseDo → ∀ {ops : List Op}, cx.emitElse elseDo = ⟨ops, none⟩ →
    ∃ others otherwise, cx.elseSkeleton elseDo = some (others, otherwise) ∧
      PrintsElse ops others otherwise
  | none, _, ops, hs => by
    obtain rfl := congrArg Script.ops hs
    exact ⟨[], none, rfl, .none⟩
  | some s, h, ops, hs => by
    cases s with
    | ifElse test thenDo elseDo =>
      rw [emitElse] at hs
      obtain ⟨a, b, ha, hb, rfl⟩ := append_eq_complete.1 hs
      obtain rfl := congrArg Script.ops ha
      obtain ⟨text, htext, hb⟩ := after_eq_complete.1 hb
      obtain ⟨c, d, hc, hd, rfl⟩ := append_eq_complete.1 hb
      obtain ⟨e, f, he, hf, rfl⟩ := append_eq_complete.1 hc
      obtain rfl := congrArg Script.ops he
      obtain ⟨ss, hss, first⟩ := emit_prints hcx hret true thenDo h.2.1 hf
      obtain ⟨others, otherwise, helse, last⟩ := emitElse_prints hcx hret elseDo h.2.2 hd
      have sealed := (render_inline hcx h.1 _ text htext).closed
      refine ⟨(text, ss) :: others, otherwise, ?_, .elseIf sealed first last⟩
      simp [elseSkeleton, htext, hss, helse, Except.toOption]
    | _ =>
      obtain ⟨a, b, ha, hb, rfl⟩ := append_eq_complete.1 hs
      obtain ⟨c, d, hc, hd, rfl⟩ := append_eq_complete.1 ha
      obtain rfl := congrArg Script.ops hc
      obtain rfl := congrArg Script.ops hb
      obtain ⟨ss, hss, prints⟩ := emit_prints hcx hret true _ h hd
      exact ⟨[], some ss, by simp [elseSkeleton, hss], .otherwise prints⟩

end

/-- Two lists of statements that append the same text have the same control structure. -/
theorem emitAll_skeletons (hcx : cx.dialect = .cpp)
    (hret : ∀ t ∈ cx.scope.returnTy?, t.NamesIdentifiers) {body body' : List Stmt}
    (h : Stmt.allPlain body) (h' : Stmt.allPlain body') {w w' : Writer} {text : String}
    (hs : (cx.emitAll body).fault = none) (hs' : (cx.emitAll body').fault = none)
    (appends : (w.perform (cx.emitAll body)).buffer = w.buffer ++ text)
    (appends' : (w'.perform (cx.emitAll body')).buffer = w'.buffer ++ text) :
    ∃ ss, cx.skeletons body = some ss ∧ cx.skeletons body' = some ss := by
  have lines {body : List Stmt} (h : Stmt.allPlain body) (hs : (cx.emitAll body).fault = none)
      {w : Writer} (appends : (w.perform (cx.emitAll body)).buffer = w.buffer ++ text) :
      ∃ ss, cx.skeletons body = some ss ∧
        ∃ lines, lines.map String.toList = (rows text.toList).map (·.dropWhile (· == ' ')) ∧
          Reader.read {} lines = some ⟨ss, []⟩ := by
    have complete : cx.emitAll body = ⟨(cx.emitAll body).ops, none⟩ := by rw [← hs]
    obtain ⟨ss, hss, prints⟩ := emitAll_prints hcx hret body h complete
    obtain ⟨writes, read⟩ := prints {}
    rw [Script.perform_eq_moved, Writer.buffer_moved] at appends
    have same :
        String.join (Writer.appended w.indentWidth w.level (cx.emitAll body).moves) = text := by
      simpa [← String.toList_inj] using appends
    refine ⟨ss, hss, _, ?_, read⟩
    rw [← same]
    refine (rows_appended (fun m hm => ?_) w.indentWidth w.level).symm
    obtain ⟨o, ho, hm⟩ := List.mem_flatMap.1 hm
    exact writes o ho m hm
  obtain ⟨ss, hss, ls, hls, read⟩ := lines h hs appends
  obtain ⟨ss', hss', ls', hls', read'⟩ := lines h' hs' appends'
  obtain rfl : ls = ls' :=
    List.map_injective_iff.2 (fun _ _ => String.toList_injective) (hls.trans hls'.symm)
  rw [read] at read'
  cases read'
  exact ⟨ss, hss, hss'⟩

theorem emitAll_skeletons_braces :
    let stop := Expr.symbol ⟨.bool, {}⟩ none ⟨"stop", .localVar⟩
    let next := Expr.postfixed ⟨.int .i32, {}⟩ .increment
      (.symbol ⟨.int .i32, {}⟩ none ⟨"i", .localVar⟩)
    let body : List Stmt := [.ifElse stop (.doWhile (.expr next) stop) (some (.block []))]
    let body' : List Stmt :=
      [.ifElse stop (.block [.doWhile (.block [.expr next]) stop]) (some (.block []))]
    ∃ ss, skeletons {} body = some ss ∧ skeletons {} body' = some ss := by
  intro stop next body body'
  have name : Grammar.isIdentifier "stop" := by decide
  have index : Grammar.isIdentifier "i" := by decide
  have hstop : stop.NamesIdentifiers := ⟨trivial, trivial, name, nofun⟩
  have hnext : next.NamesIdentifiers := ⟨trivial, trivial, trivial, index, nofun⟩
  have nowhere : ∀ t ∈ ({} : Context).scope.returnTy?, t.NamesIdentifiers := by
    simp [Scope.returnTy?]
  let w : Writer := {}
  let text := "if (stop) \x7b\n    do \x7b\n        i++;\n    \x7d while (stop);\n" ++
    "\x7d else \x7b\n\x7d\n"
  have appends : (w.perform (emitAll {} body)).buffer = w.buffer ++ text := by decide
  have appends' : (w.perform (emitAll {} body')).buffer = w.buffer ++ text := by decide
  exact emitAll_skeletons rfl nowhere ⟨⟨hstop, ⟨hstop, hnext⟩, trivial⟩, trivial⟩
    ⟨⟨hstop, ⟨⟨hstop, hnext, trivial⟩, trivial⟩, trivial⟩, trivial⟩ rfl rfl appends appends'

end Context

end CppEmission
