import CppEmission.Proofs.Naming.Phrase
import CppEmission.Proofs.Units.Script

namespace CppEmission

open Keyword (escape)

def Script.Copies (s' s : Script) : Prop := s.fault = none → s' = s

namespace Script.Copies

variable {s s' t t' : Script}

theorem refl (s : Script) : Copies s s := fun _ => rfl

theorem fail (s' : Script) (e : EmitError) : Copies s' (.fail e) := nofun

theorem append (h : Copies s' s) (k : Copies t' t) : Copies (s' ++ t') (s ++ t) := by
  intro complete
  cases fault : s.fault with
  | some e =>
    rw [append_of_fault fault, fault] at complete
    cases complete
  | none =>
    rw [fault_append fault] at complete
    rw [h fault, k complete]

theorem after {x y : Except EmitError α} {f g : α → Script} (h : Repeats y x)
    (hf : ∀ a, Copies (g a) (f a)) : Copies (.after y g) (.after x f) := by
  cases x with
  | ok a =>
    rw [h a rfl]
    exact hf a
  | error e => exact fail _ e

theorem line {x y : Except EmitError String} (h : Repeats y x) :
    Copies (.after y .line) (.after x .line) := after h fun _ => refl _

theorem ite {c : Prop} [Decidable c] (h : Copies s' s) (k : Copies t' t) :
    Copies (if c then s' else t') (if c then s else t) := by
  split
  · exact h
  · exact k

theorem block (header : String) (h : Copies s' s) : Copies (.block header s') (.block header s) :=
  ((refl _).append h).append (refl _)

theorem concat {ss ss' : List Script} (h : List.Forall₂ Copies ss' ss) :
    Copies (.concat ss') (.concat ss) := by
  induction h with
  | nil => exact refl _
  | cons h _ ih => exact h.append ih

theorem branch (declares : Bool) (exit : Option String) (h : Copies s' s) :
    Copies (.branch declares s' exit) (.branch declares s exit) :=
  ite (block "" (h.append (refl _))) (h.append (refl _))

end Script.Copies

namespace Context

variable {cx : Context}

section Lines

variable (hcx : cx.dialect.convert = convert)

include hcx

theorem statementText_escaped (e : Expr) :
    Repeats (cx.escaped.statementText e.escaped) (cx.statementText e) :=
  (render_escaped hcx e _).bind fun _ => .refl _

theorem optionalText_escaped (o : Option Expr) :
    Repeats (cx.escaped.optionalText (Expr.optEscaped o)) (cx.optionalText o) := by
  cases o with
  | none => exact .refl _
  | some e => exact (render_escaped hcx e _).map _

theorem forHeader_escaped (init test advance : Option Expr) :
    Repeats (cx.escaped.forHeader (Expr.optEscaped init) (Expr.optEscaped test)
      (Expr.optEscaped advance)) (cx.forHeader init test advance) :=
  (optionalText_escaped hcx init).bind fun _ => (optionalText_escaped hcx test).bind fun _ =>
    (optionalText_escaped hcx advance).bind fun _ => .refl _

theorem foreachHeader_escaped (element : VarDecl) (value : Option VarDecl) (collection : Expr) :
    Repeats (cx.escaped.foreachHeader element.escaped (value.map (·.escaped)) collection.escaped)
      (cx.foreachHeader element value collection) := by
  rw [foreachHeader, foreachHeader, Expr.ty_escaped]
  simp only [VarDecl.escaped, Keyword.escape_escape]
  refine .ite (.error _ _) ((render_escaped hcx collection _).bind fun _ => ?_)
  cases value with
  | some v =>
    simp only [Option.map_some, Keyword.escape_escape]
    exact .refl _
  | none => exact .ite ((typeName_escaped _).bind fun _ => .refl _) (.refl _)

theorem returnLine_escaped (value : Option Expr) :
    Repeats (cx.escaped.returnLine (Expr.optEscaped value)) (cx.returnLine value) := by
  cases value with
  | none => exact .refl _
  | some e =>
    rw [Expr.optEscaped, returnLine, returnLine, returnTy?_escaped]
    cases cx.scope.returnTy? with
    | none => exact (render_escaped hcx e _).bind fun _ => .refl _
    | some t => exact (coerce_escaped hcx t e _).bind fun _ => .refl _

theorem raiseLine_escaped (message : Expr) :
    Repeats (cx.escaped.raiseLine message.escaped) (cx.raiseLine message) :=
  (coerce_escaped hcx _ message _).bind fun _ => .refl _

theorem constantLine_escaped (place : ConstantPlace) (c : Constant) :
    Repeats (cx.escaped.constantLine place c.escaped) (cx.constantLine place c) := by
  rw [constantLine, constantLine]
  simp only [Constant.escaped, Keyword.escape_escape]
  split
  · exact .error _ _
  · exact (typeName_escaped _).bind fun _ => (coerce_escaped hcx _ c.value _).bind fun _ => .refl _

theorem caseLabels_escaped (labels : List Expr) :
    Script.Copies (.concat ((Expr.allEscaped labels).map cx.escaped.caseLabel))
      (.concat (labels.map cx.caseLabel)) := by
  refine .concat ?_
  rw [Expr.allEscaped_eq_map, List.map_map, List.forall₂_map_left_iff, List.forall₂_map_right_iff,
    List.forall₂_same]
  exact fun label _ => .after (render_escaped hcx label _) fun _ => .refl _

theorem branchTest_escaped (value : Expr) (labels : List Expr) :
    Repeats (cx.escaped.branchTest value.escaped (Expr.allEscaped labels))
      (cx.branchTest value labels) := by
  refine .bind (.mapM ?_) fun _ => .refl _
  rw [Expr.allEscaped_eq_map, List.forall₂_map_left_iff, List.forall₂_same]
  exact fun label _ => compared_escaped .eq (operand_escaped hcx value) (operand_escaped hcx label)

end Lines

mutual

-- along the recursion of `emit`
theorem emit_escaped (hcx : cx.dialect.convert = convert) (bare : Bool) : ∀ s : Stmt,
    (cx.escaped.emit bare s.escaped).Copies (cx.emit bare s)
  | .expr e => by
    rw [Stmt.escaped, emit, emit]
    exact .line (statementText_escaped hcx e)
  | .block body => by
    rw [Stmt.escaped, emit, emit]
    exact .ite (emitAll_escaped hcx body) (.block "" (emitAll_escaped hcx body))
  | .ifElse test thenDo elseDo => by
    rw [Stmt.escaped, emit, emit]
    exact .after (render_escaped hcx test _) fun _ =>
      ((Script.Copies.refl _).append (emit_escaped hcx true thenDo)).append
        (emitElse_escaped hcx elseDo)
  | .whileLoop test body => by
    rw [Stmt.escaped, emit, emit]
    exact .after (render_escaped hcx test _) fun _ => .block _ (emit_escaped hcx true body)
  | .doWhile body test => by
    rw [Stmt.escaped, emit, emit]
    exact ((Script.Copies.refl _).append (emit_escaped hcx true body)).append
      (.after (render_escaped hcx test _) fun _ => .refl _)
  | .forLoop init test advance body => by
    rw [Stmt.escaped, emit, emit]
    exact .after (forHeader_escaped hcx init test advance) fun _ =>
      .block _ (emit_escaped hcx true body)
  | .foreach element value collection body => by
    rw [Stmt.escaped, emit, emit]
    exact .after (foreachHeader_escaped hcx element value collection) fun _ =>
      .block _ (emit_escaped hcx true body)
  | .switch value cases default => by
    rw [Stmt.escaped, emit, emit, Expr.ty_escaped, Stmt.isEmpty_casesEscaped]
    exact .ite ((emitTests_escaped hcx value false cases).append
        (emitOtherwise_escaped hcx value _ default))
      (.after (render_escaped hcx value _) fun _ =>
        .block _ ((emitCases_escaped hcx cases).append (emitDefault_escaped hcx default)))
  | .breakOut | .continueLoop | .native _ => by
    rw [Stmt.escaped, emit, emit]
    exact .refl _
  | .ret value => by
    rw [Stmt.escaped, emit, emit]
    exact .line (returnLine_escaped hcx value)
  | .raise message => by
    rw [Stmt.escaped, emit, emit]
    exact .line (raiseLine_escaped hcx message)
  | .constant c => by
    rw [Stmt.escaped, emit, emit]
    exact .line (constantLine_escaped hcx .body c)

theorem emitAll_escaped (hcx : cx.dialect.convert = convert) : ∀ body : List Stmt,
    (cx.escaped.emitAll (Stmt.allEscaped body)).Copies (cx.emitAll body)
  | [] => .refl _
  | s :: rest => by
    rw [Stmt.allEscaped, emitAll, emitAll]
    exact (emit_escaped hcx false s).append (emitAll_escaped hcx rest)

theorem emitElse_escaped (hcx : cx.dialect.convert = convert) : ∀ elseDo : Option Stmt,
    (cx.escaped.emitElse (Stmt.optEscaped elseDo)).Copies (cx.emitElse elseDo)
  | none => .refl _
  | some s => by
    cases s with
    | ifElse test thenDo elseDo =>
      rw [Stmt.optEscaped, Stmt.escaped, emitElse, emitElse]
      exact (Script.Copies.refl _).append (.after (render_escaped hcx test _) fun _ =>
        ((Script.Copies.refl _).append (emit_escaped hcx true thenDo)).append
          (emitElse_escaped hcx elseDo))
    | _ => exact ((Script.Copies.refl _).append (emit_escaped hcx true _)).append (.refl _)

theorem emitCases_escaped (hcx : cx.dialect.convert = convert) : ∀ cases : List (Case Stmt),
    (cx.escaped.emitCases (Stmt.casesEscaped cases)).Copies (cx.emitCases cases)
  | [] => .refl _
  | ⟨values, body, fallsThrough⟩ :: rest => by
    rw [Stmt.casesEscaped, emitCases, emitCases, Stmt.any_declaresLocal_escaped,
      Stmt.exitLine_escaped]
    exact ((caseLabels_escaped hcx values).append ((emitAll_escaped hcx body).branch _ _)).append
      (emitCases_escaped hcx rest)

theorem emitDefault_escaped (hcx : cx.dialect.convert = convert) :
    ∀ default : Option (List Stmt),
      (cx.escaped.emitDefault (Stmt.defaultEscaped default)).Copies (cx.emitDefault default)
  | none => .refl _
  | some body => by
    rw [Stmt.defaultEscaped, emitDefault, emitDefault, Stmt.any_declaresLocal_escaped,
      Stmt.exitLine_escaped]
    exact (Script.Copies.refl _).append ((emitAll_escaped hcx body).branch _ _)

theorem emitStripped_escaped (hcx : cx.dialect.convert = convert) : ∀ body : List Stmt,
    (cx.escaped.emitStripped (Stmt.allEscaped body)).Copies (cx.emitStripped body)
  | [] => .refl _
  | [s] => by
    cases s with
    | breakOut => exact .refl _
    | block body => exact .block "" (emitStripped_escaped hcx body)
    | _ => exact emit_escaped hcx false _
  | s :: t :: rest => by
    rw [Stmt.allEscaped, Stmt.allEscaped, emitStripped, emitStripped]
    exact (emit_escaped hcx false s).append (emitStripped_escaped hcx (t :: rest))

theorem emitTests_escaped (hcx : cx.dialect.convert = convert) (value : Expr) (opened : Bool) :
    ∀ cases : List (Case Stmt),
      (cx.escaped.emitTests value.escaped opened (Stmt.casesEscaped cases)).Copies
        (cx.emitTests value opened cases)
  | [] => .refl _
  | ⟨values, body, fallsThrough⟩ :: rest => by
    rw [Stmt.casesEscaped, emitTests, emitTests, Stmt.stripTrailingBreak_escaped,
      Stmt.anyLeavesSwitch_escaped]
    exact .ite (.fail _ _) (.ite (.fail _ _)
      (((Script.Copies.after (branchTest_escaped hcx value values) fun _ => .refl _).append
        (emitStripped_escaped hcx body)).append (emitTests_escaped hcx value true rest)))

theorem emitOtherwise_escaped (hcx : cx.dialect.convert = convert) (value : Expr) (opened : Bool) :
    ∀ default : Option (List Stmt),
      (cx.escaped.emitOtherwise value.escaped opened (Stmt.defaultEscaped default)).Copies
        (cx.emitOtherwise value opened default)
  | none => .refl _
  | some body => by
    rw [Stmt.defaultEscaped, emitOtherwise, emitOtherwise, Stmt.stripTrailingBreak_escaped,
      Stmt.anyLeavesSwitch_escaped]
    exact .ite (.fail _ _)
      (((Script.Copies.refl _).append (emitStripped_escaped hcx body)).append (.refl _))

end

end Context

end CppEmission
