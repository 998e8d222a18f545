import CppEmission.Proofs.Stmt.Alike
import CppEmission.Proofs.Units.Script

namespace CppEmission

namespace Context

def inProgram (cx : Context) (p : Program) : Context := { cx with program := p }

def SharesNames (cx : Context) (p : Program) : Prop :=
  ∀ name, p.hasResource name = cx.program.hasResource name

variable {cx : Context} {p : Program}

theorem SharesNames.alike (h : cx.SharesNames p) (e : Expr) : cx.Alike cx.dialect p e :=
  fun _ _ => { boundary := fun _ _ => rfl, operator := fun _ => rfl, resource := fun _ => h _ }

theorem SharesNames.alikeOn (h : cx.SharesNames p) (es vs : List Expr) :
    cx.AlikeOn cx.dialect p es vs where
  convert := rfl
  stringSwitch := rfl
  expr e _ := h.alike e
  tested _ _ _ _ := rfl

theorem emit_inProgram (h : cx.SharesNames p) (bare : Bool) (s : Stmt) :
    (cx.inProgram p).emit bare s = cx.emit bare s :=
  emit_under bare (h.alikeOn _ _)

theorem emitAll_inProgram (h : cx.SharesNames p) (body : List Stmt) :
    (cx.inProgram p).emitAll body = cx.emitAll body :=
  emitAll_under (h.alikeOn _ _)

theorem constantLine_inProgram (h : cx.SharesNames p) (place : ConstantPlace) (c : Constant) :
    (cx.inProgram p).constantLine place c = cx.constantLine place c :=
  constantLine_under rfl (h.alike c.value)

theorem fieldLine_inProgram (h : cx.SharesNames p) (f : Field) :
    (cx.inProgram p).fieldLine f = cx.fieldLine f := by
  have value : (cx.inProgram p).operand? f.value = cx.operand? f.value :=
    operand?_under fun e _ => h.alike e
  rw [fieldLine, fieldLine, value]
  rfl

theorem paramTextWithDefault_inProgram (h : cx.SharesNames p) (x : Param) :
    (cx.inProgram p).paramTextWithDefault x = cx.paramTextWithDefault x := by
  have default (e : Expr) : (cx.inProgram p).coerce x.ty e .assign = cx.coerce x.ty e .assign :=
    coerce_under (h.alike e) rfl _
  simp only [paramTextWithDefault, default]
  rfl

theorem methodLine_inProgram (h : cx.SharesNames p) (m : Method) :
    (cx.inProgram p).methodLine m = cx.methodLine m := by
  have params : (cx.inProgram p).paramTextWithDefault = cx.paramTextWithDefault :=
    funext (paramTextWithDefault_inProgram h)
  rw [methodLine, methodLine, params]
  rfl

end Context

end CppEmission
