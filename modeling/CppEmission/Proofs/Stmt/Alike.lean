import CppEmission.Proofs.Phrase.Alike
import CppEmission.Stmt.Script

namespace CppEmission

namespace Stmt

mutual

def switchValues : Stmt → List Expr
  | block body => allSwitchValues body
  | ifElse _ thenDo elseDo => thenDo.switchValues ++ optSwitchValues elseDo
  | whileLoop _ body | doWhile body _ | forLoop _ _ _ body | foreach _ _ _ body => body.switchValues
  | switch value cases default =>
    value :: casesSwitchValues cases ++ defaultSwitchValues default
  | expr _ | breakOut | continueLoop | ret _ | raise _ | native _ | constant _ => []

def optSwitchValues : Option Stmt → List Expr
  | none => []
  | some s => s.switchValues

def allSwitchValues : List Stmt → List Expr
  | [] => []
  | s :: rest => s.switchValues ++ allSwitchValues rest

def casesSwitchValues : List (Case Stmt) → List Expr
  | [] => []
  | ⟨_, body, _⟩ :: rest => allSwitchValues body ++ casesSwitchValues rest

def defaultSwitchValues : Option (List Stmt) → List Expr
  | none => []
  | some body => allSwitchValues body

end

end Stmt

namespace Context

/-- What statements with the expressions `es`, which select by the values `vs`, take from their
target and their program is the same under others. -/
structure AlikeOn (cx : Context) (d : Dialect) (p : Program) (es vs : List Expr) : Prop where
  convert : d.convert = cx.dialect.convert
  stringSwitch : d.stringSwitch = cx.dialect.stringSwitch
  expr : ∀ e ∈ es, cx.Alike d p e
  tested : ∀ v ∈ vs, v.isLiteral → v.ty.isString → d.stringOperators = cx.dialect.stringOperators

variable {cx : Context} {d : Dialect} {p : Program}

namespace AlikeOn

theorem mono {es vs es' vs' : List Expr} (h : cx.AlikeOn d p es vs)
    (exprs : ∀ e ∈ es', e ∈ es) (values : ∀ v ∈ vs', v ∈ vs) : cx.AlikeOn d p es' vs' where
  convert := h.convert
  stringSwitch := h.stringSwitch
  expr e he := h.expr e (exprs e he)
  tested v hv := h.tested v (values v hv)

variable {s : Stmt} {body : List Stmt} {test : Expr} {thenDo : Stmt} {elseDo : Option Stmt}

theorem head (h : cx.AlikeOn d p (Stmt.allExprs (s :: body)) (Stmt.allSwitchValues (s :: body))) :
    cx.AlikeOn d p s.exprs s.switchValues :=
  h.mono (fun _ => List.mem_append_left _) (fun _ => List.mem_append_left _)

theorem tail (h : cx.AlikeOn d p (Stmt.allExprs (s :: body)) (Stmt.allSwitchValues (s :: body))) :
    cx.AlikeOn d p (Stmt.allExprs body) (Stmt.allSwitchValues body) :=
  h.mono (fun _ => List.mem_append_right _) (fun _ => List.mem_append_right _)

theorem ofThen (h : cx.AlikeOn d p (Stmt.ifElse test thenDo elseDo).exprs
    (Stmt.ifElse test thenDo elseDo).switchValues) :
    cx.AlikeOn d p thenDo.exprs thenDo.switchValues :=
  h.mono (fun _ he => List.mem_append_left _ (List.mem_cons_of_mem _ he))
    (fun _ => List.mem_append_left _)

theorem ofElse (h : cx.AlikeOn d p (Stmt.ifElse test thenDo elseDo).exprs
    (Stmt.ifElse test thenDo elseDo).switchValues) :
    cx.AlikeOn d p (Stmt.optExprs elseDo) (Stmt.optSwitchValues elseDo) :=
  h.mono (fun _ => List.mem_append_right _) (fun _ => List.mem_append_right _)

end AlikeOn

section Lines

variable {e : Expr}

theorem statementText_under (h : cx.Alike d p e) :
    (cx.under d p).statementText e = cx.statementText e := by
  rw [statementText, statementText, render_under h]

theorem optionalText_under {e : Option Expr} (h : ∀ x ∈ e, cx.Alike d p x) :
    (cx.under d p).optionalText e = cx.optionalText e := by
  cases e with
  | none => rfl
  | some e => rw [optionalText, optionalText, render_under (h e rfl)]

theorem forHeader_under {init test advance : Option Expr}
    (h : ∀ x ∈ init.toList ++ test.toList ++ advance.toList, cx.Alike d p x) :
    (cx.under d p).forHeader init test advance = cx.forHeader init test advance := by
  obtain ⟨hi, ht, ha⟩ : (∀ x ∈ init, cx.Alike d p x) ∧ (∀ x ∈ test, cx.Alike d p x) ∧
      ∀ x ∈ advance, cx.Alike d p x := by simpa [or_imp, forall_and] using h
  rw [forHeader, forHeader, optionalText_under hi, optionalText_under ht, optionalText_under ha]

theorem foreachHeader_under {element : VarDecl} {value : Option VarDecl} {collection : Expr}
    (h : cx.Alike d p collection) : (cx.under d p).foreachHeader element value collection =
      cx.foreachHeader element value collection := by
  rw [foreachHeader, foreachHeader, render_under h]
  rfl

theorem caseLabel_under (h : cx.Alike d p e) :
    (cx.under d p).caseLabel e = cx.caseLabel e := by
  rw [caseLabel, caseLabel, render_under h]

theorem branchTest_under {value : Expr} {labels : List Expr} (hv : cx.Alike d p value)
    (tested : value.isLiteral → value.ty.isString →
      d.stringOperators = cx.dialect.stringOperators)
    (hl : ∀ l ∈ labels, cx.Alike d p l) :
    (cx.under d p).branchTest value labels = cx.branchTest value labels := by
  have operators : (cx.operand value).isStringLiteral →
      d.stringOperators = cx.dialect.stringOperators := fun literal =>
    tested (Bool.and_eq_true_iff.1 literal).1 (Bool.and_eq_true_iff.1 literal).2
  rw [branchTest, branchTest]
  refine congrArg (· >>= _) (mapM_congr fun l mem => ?_)
  rw [operand_under hv, operand_under (hl l mem), compared_under operators]

section Converted

variable (convert : d.convert = cx.dialect.convert)

include convert

theorem returnLine_under {value : Option Expr} (h : ∀ x ∈ value, cx.Alike d p x) :
    (cx.under d p).returnLine value = cx.returnLine value := by
  cases value with
  | none => rfl
  | some e =>
    rw [returnLine, returnLine, render_under (h e rfl)]
    simp only [coerce_under (h e rfl) (congrFun₂ convert _ e)]
    rfl

theorem raiseLine_under (h : cx.Alike d p e) :
    (cx.under d p).raiseLine e = cx.raiseLine e := by
  rw [raiseLine, raiseLine, coerce_under h (congrFun₂ convert _ e)]

theorem constantLine_under {place : ConstantPlace} {c : Constant} (h : cx.Alike d p c.value) :
    (cx.under d p).constantLine place c = cx.constantLine place c := by
  simp only [constantLine, coerce_under h (congrFun₂ convert _ c.value)]
  rfl

end Converted

end Lines

open Stmt

mutual

theorem emit_under (bare : Bool) : ∀ {s : Stmt}, cx.AlikeOn d p s.exprs s.switchValues →
    (cx.under d p).emit bare s = cx.emit bare s
  | .expr e, h => by rw [emit, emit, statementText_under (h.expr e List.mem_cons_self)]
  | .block body, h => by rw [emit, emit, emitAll_under h]
  | .ifElse test thenDo elseDo, h => by
    rw [emit, emit, render_under (h.expr test List.mem_cons_self), emit_under true h.ofThen,
      emitElse_under h.ofElse]
  | .whileLoop test body, h | .doWhile body test, h => by
    rw [emit, emit, render_under (h.expr test List.mem_cons_self),
      emit_under true (h.mono (fun _ => List.mem_cons_of_mem _) fun _ => id)]
  | .forLoop init test advance body, h => by
    rw [emit, emit, forHeader_under fun x hx => h.expr x (List.mem_append_left _ hx),
      emit_under true (h.mono (fun _ => List.mem_append_right _) fun _ => id)]
  | .foreach element value collection body, h => by
    rw [emit, emit, foreachHeader_under (h.expr collection List.mem_cons_self),
      emit_under true (h.mono (fun _ => List.mem_cons_of_mem _) fun _ => id)]
  | .switch value cases default, h => by
    have lowers : (cx.under d p).dialect.stringSwitch = cx.dialect.stringSwitch := h.stringSwitch
    have hcases : cx.AlikeOn d p (value :: casesExprs cases) (value :: casesSwitchValues cases) :=
      h.mono (fun _ => List.mem_append_left _) (fun _ => List.mem_append_left _)
    have hdefault : cx.AlikeOn d p (defaultExprs default) (defaultSwitchValues default) :=
      h.mono (fun _ => List.mem_append_right _) (fun _ => List.mem_append_right _)
    have bodies : cx.AlikeOn d p (casesExprs cases) (casesSwitchValues cases) :=
      hcases.mono (fun _ => List.mem_cons_of_mem _) (fun _ => List.mem_cons_of_mem _)
    rw [emit, emit, lowers, render_under (h.expr value List.mem_cons_self),
      emitTests_under value false hcases, emitOtherwise_under value _ hdefault,
      emitCases_under bodies, emitDefault_under hdefault]
  | .breakOut, _ | .continueLoop, _ | .native _, _ => rfl
  | .ret value, h => by
    rw [emit, emit, returnLine_under h.convert fun x hx => h.expr x (Option.mem_toList.2 hx)]
  | .raise message, h => by
    rw [emit, emit, raiseLine_under h.convert (h.expr message List.mem_cons_self)]
  | .constant c, h => by
    rw [emit, emit, constantLine_under h.convert (h.expr c.value List.mem_cons_self)]

theorem emitAll_under : ∀ {body : List Stmt},
    cx.AlikeOn d p (allExprs body) (allSwitchValues body) →
      (cx.under d p).emitAll body = cx.emitAll body
  | [], _ => rfl
  | s :: rest, h => by
    rw [emitAll, emitAll, emit_under false h.head, emitAll_under h.tail]

theorem emitElse_under : ∀ {elseDo : Option Stmt},
    cx.AlikeOn d p (optExprs elseDo) (optSwitchValues elseDo) →
      (cx.under d p).emitElse elseDo = cx.emitElse elseDo
  | none, _ => rfl
  | some s, h => by
    cases s with
    | ifElse test thenDo elseDo =>
      rw [emitElse, emitElse, render_under (h.expr test List.mem_cons_self),
        emit_under true (AlikeOn.ofThen h), emitElse_under (AlikeOn.ofElse h)]
    | _ =>
      rw [emitElse, emitElse, emit_under true h]
      all_goals exact nofun

theorem emitCases_under : ∀ {cases : List (Case Stmt)},
    cx.AlikeOn d p (casesExprs cases) (casesSwitchValues cases) →
      (cx.under d p).emitCases cases = cx.emitCases cases
  | [], _ => rfl
  | ⟨values, body, fallsThrough⟩ :: rest, h => by
    have labels : values.map (cx.under d p).caseLabel = values.map cx.caseLabel :=
      List.map_congr_left fun value mem =>
        caseLabel_under (h.expr value (by simp [casesExprs, mem]))
    rw [emitCases, emitCases, labels,
      emitAll_under (h.mono (by simp +contextual [casesExprs])
        (by simp +contextual [casesSwitchValues])),
      emitCases_under (h.mono (by simp +contextual [casesExprs])
        (by simp +contextual [casesSwitchValues]))]

theorem emitDefault_under : ∀ {default : Option (List Stmt)},
    cx.AlikeOn d p (defaultExprs default) (defaultSwitchValues default) →
      (cx.under d p).emitDefault default = cx.emitDefault default
  | none, _ => rfl
  | some body, h => by rw [emitDefault, emitDefault, emitAll_under h]

theorem emitStripped_under : ∀ {body : List Stmt},
    cx.AlikeOn d p (allExprs body) (allSwitchValues body) →
      (cx.under d p).emitStripped body = cx.emitStripped body
  | [], _ => rfl
  | [s], h => by
    cases s with
    | breakOut => rfl
    | block body =>
      have inside : cx.AlikeOn d p (allExprs body) (allSwitchValues body) := h.head
      rw [emitStripped, emitStripped, emitStripped_under inside]
    | _ => exact emit_under false h.head
  | s :: t :: rest, h => by
    rw [emitStripped, emitStripped, emit_under false h.head, emitStripped_under h.tail]

theorem emitTests_under (value : Expr) (opened : Bool) : ∀ {cases : List (Case Stmt)},
    cx.AlikeOn d p (value :: casesExprs cases) (value :: casesSwitchValues cases) →
      (cx.under d p).emitTests value opened cases = cx.emitTests value opened cases
  | [], _ => rfl
  | ⟨values, body, fallsThrough⟩ :: rest, h => by
    rw [emitTests, emitTests,
      branchTest_under (h.expr value List.mem_cons_self) (h.tested value List.mem_cons_self)
        (fun l mem => h.expr l (by simp [casesExprs, mem])),
      emitStripped_under (h.mono (by simp +contextual [casesExprs])
        (by simp +contextual [casesSwitchValues])),
      emitTests_under value true (h.mono (by simp +contextual [casesExprs])
        (by simp +contextual [casesSwitchValues]))]
    rfl

theorem emitOtherwise_under (value : Expr) (opened : Bool) : ∀ {default : Option (List Stmt)},
    cx.AlikeOn d p (defaultExprs default) (defaultSwitchValues default) →
      (cx.under d p).emitOtherwise value opened default = cx.emitOtherwise value opened default
  | none, _ => rfl
  | some body, h => by
    rw [emitOtherwise, emitOtherwise, emitStripped_under h]
    rfl

end

end Context

end CppEmission
