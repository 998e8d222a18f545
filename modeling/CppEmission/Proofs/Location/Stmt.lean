import CppEmission.Proofs.Location.Phrase
import CppEmission.Stmt.Script

namespace CppEmission

def Script.FaultsOnly (p : EmitError → Prop) (s : Script) : Prop := ∀ e, s.fault = some e → p e

namespace Script.FaultsOnly

variable {p : EmitError → Prop} {s t body : Script}

theorem of_complete (h : s.fault = none) : FaultsOnly p s := fun _ fault => nomatch h.symm.trans fault

theorem nil : FaultsOnly p {} := of_complete rfl

theorem op (o : Writer.Op) : FaultsOnly p (.op o) := of_complete rfl

theorem line (text : String) : FaultsOnly p (.line text) := op _

theorem fail {e : EmitError} (h : p e) : FaultsOnly p (.fail e) := by
  rintro _ ⟨⟩
  exact h

theorem append (hs : s.FaultsOnly p) (ht : t.FaultsOnly p) : FaultsOnly p (s ++ t) := by
  cases fault : s.fault with
  | some e => rwa [append_of_fault fault]
  | none =>
    rw [append_of_complete fault]
    exact ht

theorem after {x : Except EmitError α} {k : α → Script} (hx : FailsOnly p x)
    (hk : ∀ a, (k a).FaultsOnly p) : FaultsOnly p (.after x k) := by
  cases x with
  | ok a => exact hk a
  | error e => exact fail (hx e rfl)

theorem block (header : String) (h : body.FaultsOnly p) : FaultsOnly p (.block header body) :=
  ((op _).append h).append (op _)

theorem concat {ss : List Script} (h : ∀ s ∈ ss, s.FaultsOnly p) : FaultsOnly p (.concat ss) := by
  induction ss with
  | nil => exact nil
  | cons s ss ih =>
    obtain ⟨hs, hss⟩ := List.forall_mem_cons.1 h
    exact hs.append (ih hss)

theorem branch (declares : Bool) (exit : Option String) (h : body.FaultsOnly p) :
    FaultsOnly p (.branch declares body exit) := by
  have enclosed {s : Script} (hs : s.FaultsOnly p) :
      FaultsOnly p (if declares then Script.block "" s else s) := by
    split
    · exact hs.block ""
    · exact hs
  cases exit with
  | none => exact enclosed (h.append nil)
  | some text => exact enclosed (h.append (line text))

end Script.FaultsOnly

namespace Context

open Script

variable {cx : Context}

theorem statementText_here (e : Expr) : FailsOnly cx.IsHere (cx.statementText e) :=
  (render_here e _).bind fun _ => .ok _

theorem optionalText_here (e : Option Expr) : FailsOnly cx.IsHere (cx.optionalText e) := by
  cases e with
  | none => exact .ok _
  | some e => exact (render_here e _).map _

theorem forHeader_here (init test advance : Option Expr) :
    FailsOnly cx.IsHere (cx.forHeader init test advance) :=
  (optionalText_here init).bind fun _ => (optionalText_here test).bind fun _ =>
    (optionalText_here advance).bind fun _ => .ok _

theorem foreachHeader_here (element : VarDecl) (value : Option VarDecl) (collection : Expr) :
    FailsOnly cx.IsHere (cx.foreachHeader element value collection) := by
  unfold foreachHeader
  split
  · exact refuse_here _ _
  · refine (render_here collection _).bind fun _ => ?_
    cases value with
    | some v => exact .ok _
    | none =>
      dsimp only
      split
      · exact (typeName_here _).bind fun _ => .ok _
      · exact .ok _

theorem returnLine_here (value : Option Expr) : FailsOnly cx.IsHere (cx.returnLine value) := by
  cases value with
  | none => exact .ok _
  | some e =>
    rw [returnLine]
    split
    · exact (coerce_here _ e _).bind fun _ => .ok _
    · exact (render_here e _).bind fun _ => .ok _

theorem raiseLine_here (message : Expr) : FailsOnly cx.IsHere (cx.raiseLine message) :=
  (coerce_here _ message _).bind fun _ => .ok _

theorem branchTest_here (value : Expr) (labels : List Expr) :
    FailsOnly cx.IsHere (cx.branchTest value labels) := by
  refine .bind (.mapM fun l _ => ?_) fun _ => .ok _
  exact compared_here _ value l _

theorem caseLabels_here (labels : List Expr) :
    FaultsOnly cx.IsHere (concat (labels.map cx.caseLabel)) := by
  refine .concat fun s hs => ?_
  obtain ⟨l, -, rfl⟩ := List.mem_map.1 hs
  exact .after (render_here l _) fun _ => .op _

theorem constantLine_here (place : ConstantPlace) (c : Constant) :
    FailsOnly cx.IsHere (cx.constantLine place c) := by
  unfold constantLine
  split
  · exact refuse_here _ _
  · exact (typeName_here _).bind fun _ => (coerce_here _ c.value _).bind fun _ => .ok _

theorem fieldLine_here (f : Field) : FailsOnly cx.IsHere (cx.fieldLine f) :=
  (declared_here f.name f.ty f.value).bind fun _ => .ok _

theorem returnName_here (m : Method) : FailsOnly cx.IsHere (cx.returnName m) := by
  unfold returnName
  split
  · exact typeName_here _
  · exact .ok _

theorem paramText_here (p : Param) : FailsOnly cx.IsHere (cx.paramText p) :=
  (typeName_here p.ty).bind fun _ => .ok _

theorem methodLine_here (m : Method) : FailsOnly cx.IsHere (cx.methodLine m) := by
  refine (returnName_here m).bind fun _ => .bind (.mapM fun p _ => ?_) fun _ => .ok _
  refine (paramText_here p).bind fun _ => ?_
  split
  · exact (coerce_here _ _ _).bind fun _ => .ok _
  · exact .ok _

theorem methodHeader_here (className : String) (m : Method) :
    FailsOnly cx.IsHere (cx.methodHeader className m) :=
  (returnName_here m).bind fun _ => .bind (.mapM fun p _ => paramText_here p) fun _ => .ok _

mutual

-- along the recursion of `emit`
theorem emit_here (bare : Bool) : ∀ (s : Stmt), FaultsOnly cx.IsHere (cx.emit bare s)
  | .expr e => .after (statementText_here e) fun _ => .line _
  | .block body => by
    rw [emit]
    split
    · exact emitAll_here body
    · exact .block _ (emitAll_here body)
  | .ifElse test thenDo elseDo => by
    rw [emit]
    exact .after (render_here test _) fun _ =>
      ((FaultsOnly.op _).append (emit_here true thenDo)).append (emitElse_here elseDo)
  | .whileLoop test body => by
    rw [emit]
    exact .after (render_here test _) fun _ => .block _ (emit_here true body)
  | .doWhile body test => by
    rw [emit]
    exact ((FaultsOnly.op _).append (emit_here true body)).append
      (.after (render_here test _) fun _ => .op _)
  | .forLoop init test advance body => by
    rw [emit]
    exact .after (forHeader_here init test advance) fun _ => .block _ (emit_here true body)
  | .foreach element value collection body => by
    rw [emit]
    exact .after (foreachHeader_here element value collection) fun _ =>
      .block _ (emit_here true body)
  | .switch value cases default => by
    rw [emit]
    split
    · exact (emitTests_here value false cases).append (emitOtherwise_here value _ default)
    · exact .after (render_here value _) fun _ =>
        .block _ ((emitCases_here cases).append (emitDefault_here default))
  | .breakOut | .continueLoop => .line _
  | .native _ => .op _
  | .ret value => .after (returnLine_here value) fun _ => .line _
  | .raise message => .after (raiseLine_here message) fun _ => .line _
  | .constant c => .after (constantLine_here .body c) fun _ => .line _

theorem emitAll_here : ∀ (body : List Stmt), FaultsOnly cx.IsHere (cx.emitAll body)
  | [] => .nil
  | s :: rest => (emit_here false s).append (emitAll_here rest)

theorem emitElse_here : ∀ (elseDo : Option Stmt), FaultsOnly cx.IsHere (cx.emitElse elseDo)
  | none => .op _
  | some s => by
    cases s with
    | ifElse test thenDo elseDo =>
      rw [emitElse]
      exact (FaultsOnly.op _).append (.after (render_here test _) fun _ =>
        (((FaultsOnly.line _).append (.op _)).append (emit_here true thenDo)).append
          (emitElse_here elseDo))
    | _ =>
      exact ((((FaultsOnly.op _).append (.line _)).append (.op _)).append
        (emit_here true _)).append (.op _)

theorem emitCases_here : ∀ (cases : List (Case Stmt)), FaultsOnly cx.IsHere (cx.emitCases cases)
  | [] => .nil
  | ⟨values, body, fallsThrough⟩ :: rest => by
    rw [emitCases]
    exact ((caseLabels_here values).append (.branch _ _ (emitAll_here body))).append
      (emitCases_here rest)

theorem emitDefault_here : ∀ (default : Option (List Stmt)),
    FaultsOnly cx.IsHere (cx.emitDefault default)
  | none => .nil
  | some body => (FaultsOnly.op _).append (.branch _ _ (emitAll_here body))

theorem emitStripped_here : ∀ (body : List Stmt), FaultsOnly cx.IsHere (cx.emitStripped body)
  | [] => .nil
  | [s] => by
    cases s with
    | breakOut => exact .nil
    | block body => exact .block _ (emitStripped_here body)
    | _ => exact emit_here false _
  | s :: t :: rest => by
    rw [emitStripped]
    exact (emit_here false s).append (emitStripped_here (t :: rest))

theorem emitTests_here (value : Expr) (opened : Bool) : ∀ (cases : List (Case Stmt)),
    FaultsOnly cx.IsHere (cx.emitTests value opened cases)
  | [] => .nil
  | ⟨values, body, fallsThrough⟩ :: rest => by
    rw [emitTests]
    split
    · exact .fail ⟨_, _, rfl⟩
    split
    · exact .fail ⟨_, _, rfl⟩
    refine (FaultsOnly.append (.after (branchTest_here value values) fun _ => ?_)
      (emitStripped_here body)).append (emitTests_here value true rest)
    cases opened <;> exact .of_complete rfl

theorem emitOtherwise_here (value : Expr) (opened : Bool) : ∀ (default : Option (List Stmt)),
    FaultsOnly cx.IsHere (cx.emitOtherwise value opened default)
  | none => by cases opened <;> exact .of_complete rfl
  | some body => by
    rw [emitOtherwise]
    split
    · exact .fail ⟨_, _, rfl⟩
    refine (FaultsOnly.append ?_ (emitStripped_here body)).append (.op _)
    cases opened <;> exact .of_complete rfl

end

end Context

end CppEmission
