import CppEmission.Facility

namespace CppEmission

namespace Expr

def children : Expr → List Expr
  | literal .. | self _ | base _ | resource .. => []
  | symbol _ left _ => left.toList
  | prefixed _ _ e | postfixed _ _ e => [e]
  | binary _ _ l r => [l, r]
  | conditional _ c t f => [c, t, f]
  | collection _ items => items
  | varDecl _ _ _ value => value.toList
  | call _ _ receiver args | intrinsic _ _ receiver args => receiver.toList ++ args
  | new _ length => length.toList

inductive Occurs (sub : Expr) : Expr → Prop
  | here : Occurs sub sub
  | inside : c ∈ e.children → Occurs sub c → Occurs sub e

def IsCallOf (f : Intrinsic) : Expr → Prop
  | intrinsic _ g _ _ => g = f
  | _ => False

def Calls (e : Expr) (f : Intrinsic) : Prop := ∃ sub, Occurs sub e ∧ sub.IsCallOf f

variable {f : Intrinsic}

theorem calls_iff {e : Expr} : e.Calls f ↔ e.IsCallOf f ∨ ∃ c ∈ e.children, c.Calls f := by
  constructor
  · rintro ⟨sub, _ | ⟨mem, occurs⟩, call⟩
    · exact .inl call
    · exact .inr ⟨_, mem, sub, occurs, call⟩
  · rintro (call | ⟨c, mem, sub, occurs, call⟩)
    · exact ⟨e, .here, call⟩
    · exact ⟨sub, .inside mem occurs, call⟩

end Expr

namespace Stmt

mutual

def exprs : Stmt → List Expr
  | expr e => [e]
  | block body => allExprs body
  | ifElse test thenDo elseDo => test :: thenDo.exprs ++ optExprs elseDo
  | whileLoop test body => test :: body.exprs
  | doWhile body test => test :: body.exprs
  | forLoop init test advance body =>
    init.toList ++ test.toList ++ advance.toList ++ body.exprs
  | foreach _ _ collection body => collection :: body.exprs
  | switch value cases default => value :: casesExprs cases ++ defaultExprs default
  | ret value => value.toList
  | raise message => [message]
  | constant c => [c.value]
  | breakOut | continueLoop | native _ => []

def optExprs : Option Stmt → List Expr
  | none => []
  | some s => s.exprs

def allExprs : List Stmt → List Expr
  | [] => []
  | s :: rest => s.exprs ++ allExprs rest

def casesExprs : List (Case Stmt) → List Expr
  | [] => []
  | ⟨values, body, _⟩ :: rest => values ++ allExprs body ++ casesExprs rest

def defaultExprs : Option (List Stmt) → List Expr
  | none => []
  | some body => allExprs body

end

end Stmt

def Method.exprs (m : Method) : List Expr :=
  m.params.flatMap (·.default.toList) ++ Stmt.optExprs m.body

def Class.exprs (c : Class) : List Expr :=
  c.constants.map (·.value) ++ c.fields.flatMap (·.value.toList) ++
    (c.constructor.map Stmt.allExprs).getD [] ++ c.methods.flatMap (·.exprs)

namespace Program

def exprs (p : Program) : List Expr := p.classes.flatMap (·.exprs)

def Contains (p : Program) (sub : Expr) : Prop := ∃ e ∈ p.exprs, sub.Occurs e

end Program

@[simp] theorem Ty.intrinsic_not_mem_facilities (f : Intrinsic) (t : Ty) :
    .intrinsic f ∉ t.facilities := by
  induction t with
  | string shape => cases shape <;> simp [facilities]
  | array elem shape ih =>
    rcases shape with _ | _ | _ | _ <;> simpa [facilities, ArrayShape.facilities]
  | object c held => rcases held with _ | _ | _ | _ <;> simp [facilities, Ownership.facilities]
  | map key value ihk ihv =>
    cases string : key.isString <;> simp [facilities, string, ihk, ihv]
  | _ => simp_all [facilities]

namespace Expr

variable {f : Intrinsic}

mutual

-- along the recursion of `facilities`
theorem intrinsic_mem_facilities : ∀ e : Expr, .intrinsic f ∈ e.facilities ↔ e.Calls f
  | literal .. | self _ | base _ | resource .. => by
    rw [calls_iff]
    simp [facilities, children, IsCallOf]
  | symbol _ left _ => by
    rw [calls_iff]
    simp [facilities, children, IsCallOf, intrinsic_mem_optFacilities left]
  | prefixed _ _ e | postfixed _ _ e => by
    rw [calls_iff]
    simp [facilities, children, IsCallOf, intrinsic_mem_facilities e]
  | binary note op l r => by
    rw [calls_iff]
    cases formats : op.formatsNumber note.ty l.ty r.ty <;>
      simp [facilities, children, IsCallOf, formats, intrinsic_mem_facilities l,
        intrinsic_mem_facilities r]
  | conditional _ c t e => by
    rw [calls_iff]
    simp [facilities, children, IsCallOf, intrinsic_mem_facilities c, intrinsic_mem_facilities t,
      intrinsic_mem_facilities e]
  | collection _ items => by
    rw [calls_iff]
    simp [facilities, children, IsCallOf, intrinsic_mem_allFacilities items]
  | varDecl _ _ _ value => by
    rw [calls_iff]
    simp [facilities, children, IsCallOf, intrinsic_mem_optFacilities value]
  | call _ _ receiver args => by
    rw [calls_iff]
    simp [facilities, children, IsCallOf, intrinsic_mem_optFacilities receiver,
      intrinsic_mem_allFacilities args, or_and_right, exists_or]
  | intrinsic _ g receiver args => by
    rw [calls_iff]
    simp [facilities, children, IsCallOf, intrinsic_mem_optFacilities receiver,
      intrinsic_mem_allFacilities args, or_and_right, exists_or, eq_comm]
  | new _ length => by
    rw [calls_iff]
    simp [facilities, children, IsCallOf, intrinsic_mem_optFacilities length]

theorem intrinsic_mem_optFacilities : ∀ o : Option Expr,
    .intrinsic f ∈ optFacilities o ↔ ∃ c ∈ o.toList, c.Calls f
  | none => by simp [optFacilities]
  | some e => by simp [optFacilities, intrinsic_mem_facilities e]

theorem intrinsic_mem_allFacilities : ∀ es : List Expr,
    .intrinsic f ∈ allFacilities es ↔ ∃ c ∈ es, c.Calls f
  | [] => by simp [allFacilities]
  | e :: rest => by
    simp [allFacilities, intrinsic_mem_facilities e, intrinsic_mem_allFacilities rest]

end

end Expr

namespace Stmt

variable {f : Intrinsic}

open CppEmission.Expr (intrinsic_mem_facilities intrinsic_mem_optFacilities intrinsic_mem_allFacilities)

theorem intrinsic_mem_constant (c : Constant) :
    .intrinsic f ∈ c.facilities ↔ c.value.Calls f := by
  cases string : c.ty.isString <;>
    simp [Constant.facilities, string, intrinsic_mem_facilities]

mutual

theorem calls_exprs : ∀ s : Stmt, .intrinsic f ∈ s.facilities ↔ ∃ e ∈ s.exprs, e.Calls f
  | expr e => by simp [facilities, exprs, intrinsic_mem_facilities]
  | block body => by rw [facilities, exprs, calls_allExprs body]
  | ifElse test thenDo elseDo => by
    simp [facilities, exprs, intrinsic_mem_facilities, calls_exprs thenDo, calls_optExprs elseDo,
      or_and_right, exists_or]
  | whileLoop test body | doWhile body test => by
    simp [facilities, exprs, intrinsic_mem_facilities, calls_exprs body]
  | forLoop init test advance body => by
    simp [facilities, exprs, intrinsic_mem_optFacilities, calls_exprs body, or_and_right, exists_or]
  | foreach element value collection body => by
    cases value <;> simp [facilities, exprs, intrinsic_mem_facilities, calls_exprs body]
  | switch value cases default => by
    simp [facilities, exprs, intrinsic_mem_facilities, calls_casesExprs cases,
      calls_defaultExprs default, or_and_right, exists_or]
  | ret value => by simp [facilities, exprs, intrinsic_mem_optFacilities]
  | raise message => by simp [facilities, exprs, intrinsic_mem_facilities]
  | constant c => by simp [facilities, exprs, intrinsic_mem_constant]
  | breakOut | continueLoop | native _ => by simp [facilities, exprs]

theorem calls_optExprs : ∀ s : Option Stmt,
    .intrinsic f ∈ optFacilities s ↔ ∃ e ∈ optExprs s, e.Calls f
  | none => by simp [optFacilities, optExprs]
  | some s => calls_exprs s

theorem calls_allExprs : ∀ ss : List Stmt,
    .intrinsic f ∈ allFacilities ss ↔ ∃ e ∈ allExprs ss, e.Calls f
  | [] => by simp [allFacilities, allExprs]
  | s :: rest => by
    simp [allFacilities, allExprs, calls_exprs s, calls_allExprs rest, or_and_right, exists_or]

theorem calls_casesExprs : ∀ cs : List (Case Stmt),
    .intrinsic f ∈ casesFacilities cs ↔ ∃ e ∈ casesExprs cs, e.Calls f
  | [] => by simp [casesFacilities, casesExprs]
  | ⟨values, body, _⟩ :: rest => by
    simp [casesFacilities, casesExprs, intrinsic_mem_allFacilities, calls_allExprs body,
      calls_casesExprs rest, or_and_right, exists_or]

theorem calls_defaultExprs : ∀ body : Option (List Stmt),
    .intrinsic f ∈ defaultFacilities body ↔ ∃ e ∈ defaultExprs body, e.Calls f
  | none => by simp [defaultFacilities, defaultExprs]
  | some body => calls_allExprs body

end

end Stmt

section Declarations

variable {f : Intrinsic}

theorem calls_flatMap {α : Type} {as : List α} {facilities : α → List Facility}
    {exprs : α → List Expr}
    (h : ∀ a, .intrinsic f ∈ facilities a ↔ ∃ e ∈ exprs a, e.Calls f) :
    .intrinsic f ∈ as.flatMap facilities ↔ ∃ e ∈ as.flatMap exprs, e.Calls f := by
  simp only [List.mem_flatMap, h]
  constructor
  · rintro ⟨a, ha, e, he, calls⟩
    exact ⟨e, ⟨a, ha, he⟩, calls⟩
  · rintro ⟨e, ⟨a, ha, he⟩, calls⟩
    exact ⟨a, ha, e, he, calls⟩

theorem Param.calls_exprs (p : Param) :
    .intrinsic f ∈ p.facilities ↔ ∃ e ∈ p.default.toList, e.Calls f := by
  simp [facilities, Expr.intrinsic_mem_optFacilities]

theorem Field.calls_exprs (d : Field) :
    .intrinsic f ∈ d.facilities ↔ ∃ e ∈ d.value.toList, e.Calls f := by
  simp [facilities, Expr.intrinsic_mem_optFacilities]

theorem Method.calls_exprs (m : Method) :
    .intrinsic f ∈ m.facilities ↔ ∃ e ∈ m.exprs, e.Calls f := by
  have head : .intrinsic f ∉ (m.returnTy.map (·.facilities)).getD [] := by
    cases m.returnTy <;> simp
  simp only [facilities, exprs, List.mem_append, head, false_or, calls_flatMap Param.calls_exprs,
    Stmt.calls_optExprs, or_and_right, exists_or]

theorem Class.calls_exprs (c : Class) :
    .intrinsic f ∈ c.facilities ↔ ∃ e ∈ c.exprs, e.Calls f := by
  have constants : .intrinsic f ∈ c.constants.flatMap (·.facilities) ↔
      ∃ e ∈ c.constants.map (·.value), e.Calls f := by
    rw [← List.flatMap_singleton' (c.constants.map (·.value)), List.flatMap_map]
    exact calls_flatMap fun d => by simp [Stmt.intrinsic_mem_constant]
  have body : .intrinsic f ∈ (c.constructor.map Stmt.allFacilities).getD [] ↔
      ∃ e ∈ (c.constructor.map Stmt.allExprs).getD [], e.Calls f := by
    cases c.constructor <;> simp [Stmt.calls_allExprs]
  simp only [facilities, exprs, List.mem_append, constants, calls_flatMap Field.calls_exprs, body,
    calls_flatMap Method.calls_exprs, or_and_right, exists_or]

end Declarations

theorem Program.uses_intrinsic (p : Program) (f : Intrinsic) :
    p.uses (.intrinsic f) ↔ ∃ e, p.Contains e ∧ e.IsCallOf f := by
  have resources : .intrinsic f ∉ (if p.resources.isEmpty then [] else [Facility.resources]) := by
    cases p.resources <;> simp
  have calls : p.uses (.intrinsic f) ↔ ∃ e ∈ p.exprs, e.Calls f := by
    rw [uses, List.contains_iff_mem, facilities, List.mem_append, or_iff_right resources,
      calls_flatMap Class.calls_exprs]
    rfl
  rw [calls]
  constructor
  · rintro ⟨e, he, sub, occurs, call⟩
    exact ⟨sub, ⟨e, he, occurs⟩, call⟩
  · rintro ⟨sub, ⟨e, he, occurs⟩, call⟩
    exact ⟨e, he, sub, occurs, call⟩

end CppEmission
