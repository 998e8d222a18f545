import CppEmission.Proofs.Acceptance.Phrase
import CppEmission.Proofs.Units.Script

namespace CppEmission

theorem Ty.IsNullFree.ofConstant {t t' : Ty} (h : t.IsNullFree) (ht : t.ofConstant? = some t') :
    t'.IsNullFree := by
  cases t with
  | object | list | map => cases ht
  | string =>
    cases ht
    trivial
  | _ =>
    cases ht
    exact h

namespace Script

variable {s t body : Script}

theorem complete_append (hs : s.fault = none) (ht : t.fault = none) : (s ++ t).fault = none := by
  rw [fault_append hs, ht]

theorem complete_after {x : Except EmitError α} {k : α → Script} (hx : Succeeds x)
    (hk : ∀ a, (k a).fault = none) : (after x k).fault = none := by
  obtain ⟨a, rfl⟩ := hx
  exact hk a

theorem complete_block (header : String) (h : body.fault = none) :
    (block header body).fault = none :=
  complete_append (complete_append rfl h) rfl

theorem complete_branch (declares : Bool) (exit : Option String) (h : body.fault = none) :
    (branch declares body exit).fault = none := by
  have enclosed {s : Script} (hs : s.fault = none) :
      (if declares then block "" s else s).fault = none := by
    split
    · exact complete_block "" hs
    · exact hs
  cases exit with
  | none => exact enclosed (complete_append h rfl)
  | some text => exact enclosed (complete_append h rfl)

end Script

namespace Context

open Script

variable {cx : Context}

section Lines

variable (hcx : cx.dialect = .cpp)

include hcx

theorem statementText_succeeds {e : Expr} (h : e.WellFormed cx.program) :
    Succeeds (cx.statementText e) :=
  (render_succeeds hcx h _).bind fun _ => .ok _

theorem optionalText_succeeds {e : Option Expr} (h : Expr.optWellFormed cx.program e) :
    Succeeds (cx.optionalText e) := by
  cases e with
  | none => exact .ok _
  | some e => exact (render_succeeds hcx h _).map _

theorem forHeader_succeeds {init test advance : Option Expr}
    (hinit : Expr.optWellFormed cx.program init) (htest : Expr.optWellFormed cx.program test)
    (hadvance : Expr.optWellFormed cx.program advance) :
    Succeeds (cx.forHeader init test advance) :=
  (optionalText_succeeds hcx hinit).bind fun _ => (optionalText_succeeds hcx htest).bind fun _ =>
    (optionalText_succeeds hcx hadvance).bind fun _ => .ok _

theorem foreachHeader_succeeds {element : VarDecl} (value : Option VarDecl) {collection : Expr}
    (he : element.ty.IsNullFree) (hc : collection.WellFormed cx.program)
    (notPointer : collection.ty.isArrayPointer = false) :
    Succeeds (cx.foreachHeader element value collection) := by
  rw [foreachHeader, notPointer]
  refine (render_succeeds hcx hc _).bind fun _ => ?_
  cases value with
  | some v => exact .ok _
  | none =>
    dsimp only
    split
    · exact (typeName_succeeds he).bind fun _ => .ok _
    · exact .ok _

theorem returnLine_succeeds {value : Option Expr} (h : Expr.optWellFormed cx.program value)
    (accepts : ∀ t ∈ cx.scope.returnTy?, ∀ e ∈ value, t.Accepts e) :
    Succeeds (cx.returnLine value) := by
  cases value with
  | none => exact .ok _
  | some e =>
    rw [returnLine]
    split
    next t ht => exact (coerce_succeeds hcx h (accepts t ht e rfl) _).bind fun _ => .ok _
    · exact (render_succeeds hcx h _).bind fun _ => .ok _

theorem raiseLine_succeeds {message : Expr} (h : message.WellFormed cx.program)
    (accepts : (Ty.string .storage).Accepts message) : Succeeds (cx.raiseLine message) :=
  (coerce_succeeds hcx h accepts _).bind fun _ => .ok _

theorem constantLine_succeeds (place : ConstantPlace) {c : Constant}
    (h : c.WellFormed cx.program) : Succeeds (cx.constantLine place c) := by
  obtain ⟨ty, value, t, ht, accepts⟩ := h
  rw [constantLine, ht]
  exact (typeName_succeeds (ty.ofConstant ht)).bind fun _ =>
    (coerce_succeeds hcx value accepts _).bind fun _ => .ok _

theorem branchTest_succeeds {value : Expr} (hv : value.WellFormed cx.program) {labels : List Expr}
    (hl : Expr.allWellFormed cx.program labels) : Succeeds (cx.branchTest value labels) := by
  refine .bind (.mapM fun l h => ?_) fun _ => .ok _
  have label := operand_isRendered hcx (Expr.wellFormed_of_all hl h)
  exact compared_succeeds _ (operand_isRendered hcx hv) label

theorem caseLabels_complete {labels : List Expr} (h : Expr.allWellFormed cx.program labels) :
    (concat (labels.map cx.caseLabel)).fault = none := by
  apply fault_concat
  rintro _ hs
  obtain ⟨l, hl, rfl⟩ := List.mem_map.1 hs
  exact complete_after (render_succeeds hcx (Expr.wellFormed_of_all h hl) _) fun _ => rfl

end Lines

mutual

-- along the recursion of `emit`
theorem emit_complete (hcx : cx.dialect = .cpp) (bare : Bool) : ∀ (s : Stmt),
    s.WellFormed cx.program cx.scope.returnTy? → (cx.emit bare s).fault = none
  | .expr e, h => complete_after (statementText_succeeds hcx h) fun _ => rfl
  | .block body, h => by
    rw [emit]
    split
    · exact emitAll_complete hcx body h
    · exact complete_block _ (emitAll_complete hcx body h)
  | .ifElse test thenDo elseDo, h => by
    have first := emit_complete hcx true thenDo h.2.1
    rw [emit]
    exact complete_after (render_succeeds hcx h.1 _) fun _ =>
      complete_append (complete_append rfl first) (emitElse_complete hcx elseDo h.2.2)
  | .whileLoop test body, h => by
    rw [emit]
    exact complete_after (render_succeeds hcx h.1 _) fun _ =>
      complete_block _ (emit_complete hcx true body h.2)
  | .doWhile body test, h => by
    rw [emit]
    exact complete_append (complete_append rfl (emit_complete hcx true body h.2))
      (complete_after (render_succeeds hcx h.1 _) fun _ => rfl)
  | .forLoop init test advance body, h => by
    obtain ⟨hinit, htest, hadvance, hbody⟩ := h
    rw [emit]
    exact complete_after (forHeader_succeeds hcx hinit htest hadvance) fun _ =>
      complete_block _ (emit_complete hcx true body hbody)
  | .foreach element value collection body, h => by
    obtain ⟨⟨he, -⟩, ⟨hcollection, notPointer⟩, hbody⟩ := h
    rw [emit]
    exact complete_after (foreachHeader_succeeds hcx value he hcollection notPointer) fun _ =>
      complete_block _ (emit_complete hcx true body hbody)
  | .switch value cases default, h => by
    obtain ⟨hvalue, hcases, hdefault⟩ := h
    rw [emit, hcx]
    split
    next lowered =>
      have string : value.ty.isString = true := (Bool.and_eq_true_iff.1 lowered).1
      rw [string] at hcases hdefault
      exact complete_append (emitTests_complete hcx value hvalue false cases hcases)
        (emitOtherwise_complete hcx value _ default hdefault)
    · exact complete_after (render_succeeds hcx hvalue _) fun _ => complete_block _
        (complete_append (emitCases_complete hcx cases hcases)
          (emitDefault_complete hcx default hdefault))
  | .breakOut, _ | .continueLoop, _ | .native _, _ => rfl
  | .ret value, h => complete_after (returnLine_succeeds hcx h.1 h.2) fun _ => rfl
  | .raise message, h => complete_after (raiseLine_succeeds hcx h.1 h.2) fun _ => rfl
  | .constant c, h => complete_after (constantLine_succeeds hcx .body h) fun _ => rfl

theorem emitAll_complete (hcx : cx.dialect = .cpp) : ∀ (body : List Stmt),
    Stmt.allWellFormed cx.program cx.scope.returnTy? body → (cx.emitAll body).fault = none
  | [], _ => rfl
  | s :: rest, h => complete_append (emit_complete hcx false s h.1) (emitAll_complete hcx rest h.2)

theorem emitElse_complete (hcx : cx.dialect = .cpp) : ∀ (elseDo : Option Stmt),
    Stmt.optWellFormed cx.program cx.scope.returnTy? elseDo → (cx.emitElse elseDo).fault = none
  | none, _ => rfl
  | some s, h => by
    cases s with
    | ifElse test thenDo elseDo =>
      have first := emit_complete hcx true thenDo h.2.1
      rw [emitElse]
      exact complete_append rfl (complete_after (render_succeeds hcx h.1 _) fun _ =>
        complete_append (complete_append rfl first) (emitElse_complete hcx elseDo h.2.2))
    | _ => exact complete_append (complete_append rfl (emit_complete hcx true _ h)) rfl

theorem emitCases_complete (hcx : cx.dialect = .cpp) {lowered : Bool} :
    ∀ (cases : List (Case Stmt)),
      Stmt.casesWellFormed cx.program cx.scope.returnTy? lowered cases →
      (cx.emitCases cases).fault = none
  | [], _ => rfl
  | ⟨values, body, fallsThrough⟩ :: rest, h => by
    obtain ⟨⟨hvalues, hbody, -⟩, hrest⟩ := h
    rw [emitCases]
    exact complete_append (complete_append (caseLabels_complete hcx hvalues)
      (complete_branch _ _ (emitAll_complete hcx body hbody))) (emitCases_complete hcx rest hrest)

theorem emitDefault_complete (hcx : cx.dialect = .cpp) {lowered : Bool} :
    ∀ (default : Option (List Stmt)),
      Stmt.defaultWellFormed cx.program cx.scope.returnTy? lowered default →
      (cx.emitDefault default).fault = none
  | none, _ => rfl
  | some body, h => complete_append rfl (complete_branch _ _ (emitAll_complete hcx body h.1))

theorem emitStripped_complete (hcx : cx.dialect = .cpp) : ∀ (body : List Stmt),
    Stmt.allWellFormed cx.program cx.scope.returnTy? body → (cx.emitStripped body).fault = none
  | [], _ => rfl
  | [s], h => by
    obtain ⟨h, -⟩ := h
    cases s with
    | breakOut => rfl
    | block body => exact complete_block _ (emitStripped_complete hcx body h)
    | _ => exact emit_complete hcx false _ h
  | s :: t :: rest, h => by
    rw [emitStripped]
    exact complete_append (emit_complete hcx false s h.1)
      (emitStripped_complete hcx (t :: rest) h.2)

theorem emitTests_complete (hcx : cx.dialect = .cpp) (value : Expr)
    (hvalue : value.WellFormed cx.program) (opened : Bool) : ∀ (cases : List (Case Stmt)),
      Stmt.casesWellFormed cx.program cx.scope.returnTy? true cases →
      (cx.emitTests value opened cases).fault = none
  | [], _ => rfl
  | ⟨values, body, fallsThrough⟩ :: rest, h => by
    obtain ⟨⟨hvalues, hbody, closed⟩, hrest⟩ := h
    obtain ⟨rfl, noBreak⟩ := closed rfl
    rw [emitTests, if_neg Bool.false_ne_true, if_neg (Bool.eq_false_iff.1 noBreak)]
    refine complete_append (complete_append ?_ (emitStripped_complete hcx body hbody))
      (emitTests_complete hcx value hvalue true rest hrest)
    refine complete_after (branchTest_succeeds hcx hvalue hvalues) fun _ => ?_
    cases opened <;> rfl

theorem emitOtherwise_complete (hcx : cx.dialect = .cpp) (value : Expr) (opened : Bool) :
    ∀ (default : Option (List Stmt)),
      Stmt.defaultWellFormed cx.program cx.scope.returnTy? true default →
      (cx.emitOtherwise value opened default).fault = none
  | none, _ => by cases opened <;> rfl
  | some body, h => by
    obtain ⟨hbody, closed⟩ := h
    rw [emitOtherwise, if_neg (Bool.eq_false_iff.1 (closed rfl))]
    refine complete_append (complete_append ?_ (emitStripped_complete hcx body hbody)) rfl
    cases opened <;> rfl

end

end Context

end CppEmission
