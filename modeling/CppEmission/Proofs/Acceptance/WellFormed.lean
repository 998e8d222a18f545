import CppEmission.Proofs.Dependency
import CppEmission.Declaration.Resource
import CppEmission.Stmt.Script

/-! Programs that the target has a form for, but for the bodies that a method or a constructor has
or lacks. -/

namespace CppEmission

namespace Ty

/-- A value of the type can be declared: no part of the type is that of `null`. -/
def IsNullFree : Ty → Prop
  | null => False
  | array elem _ | list elem => elem.IsNullFree
  | map key value => key.IsNullFree ∧ value.IsNullFree
  | _ => True

def IsConstructible (t : Ty) (hasLength : Bool) : Prop :=
  match t with
  | object _ .value | object _ (.ptr .shared) | array _ (.storage _) | list _ | map _ _ => True
  | array _ (.pointer .shared) => hasLength
  | _ => False

def Accepts (target : Ty) (e : Expr) : Prop := ∃ c, convert target e = .ok c

def listElem? : Ty → Option Ty
  | list elem => some elem
  | _ => none

end Ty

namespace Intrinsic

def argumentCounts : Intrinsic → List Nat
  | stringSubstring => [1, 2]
  | consoleWriteLine => [0, 1]
  | f => [f.arity]

def namesType : Intrinsic → Bool
  | stringLength | listCount | mathMin | mathMax => true
  | _ => false

def target? (f : Intrinsic) (ty : Ty) (receiver : Option Expr) : Option Ty :=
  match f with
  | mathMin | mathMax => some ty
  | listAdd | listInsert | listContains => receiver.bind (·.ty.listElem?)
  | _ => none

def values (f : Intrinsic) (args : List Expr) : List Expr :=
  match f with
  | listInsert => args.drop 1
  | _ => args

structure Accepts (f : Intrinsic) (ty : Ty) (receiver : Option Expr) (args : List Expr) :
    Prop where
  isCalledOn : f.takesReceiver → receiver.isSome
  count : args.length ∈ f.argumentCounts
  isNullFree : f.namesType → ty.IsNullFree
  fit : ∀ t ∈ f.target? ty receiver, ∀ a ∈ f.values args, t.Accepts a

end Intrinsic

def Literal.IsFinite : Literal → Prop
  | float v => v.isFinite
  | _ => True

namespace Expr

mutual

/-- Every part of the expression has a form in the target. The parent's version of the receiver
has one in front of a method alone. -/
def WellFormed (p : Program) : Expr → Prop
  | literal _ l => l.IsFinite
  | symbol _ left _ => optWellFormed p left
  | self _ => True
  | base _ => False
  | prefixed _ _ e | postfixed _ _ e => e.WellFormed p
  | binary _ op l r => l.WellFormed p ∧ r.WellFormed p ∧ (op = .assign → l.ty.Accepts r)
  | conditional note c t f =>
    c.WellFormed p ∧ (t.WellFormed p ∧ note.ty.Accepts t) ∧ f.WellFormed p ∧ note.ty.Accepts f
  | collection note items =>
    allWellFormed p items ∧ ∀ t ∈ note.ty.elem?, ∀ e ∈ items, t.Accepts e
  | varDecl _ _ ty value => ty.IsNullFree ∧ optWellFormed p value ∧ ∀ e ∈ value, ty.Accepts e
  | call _ f receiver args =>
    receiverWellFormed p receiver ∧ allWellFormed p args ∧ ∀ a ∈ f.params.zip args, a.1.Accepts a.2
  | intrinsic note f receiver args =>
    optWellFormed p receiver ∧ allWellFormed p args ∧ f.Accepts note.ty receiver args
  | new note length =>
    optWellFormed p length ∧ note.ty.IsNullFree ∧ note.ty.IsConstructible length.isSome
  | resource _ name => p.hasResource name

def optWellFormed (p : Program) : Option Expr → Prop
  | none => True
  | some e => e.WellFormed p

def receiverWellFormed (p : Program) : Option Expr → Prop
  | none | some (base _) => True
  | some e => e.WellFormed p

def allWellFormed (p : Program) : List Expr → Prop
  | [] => True
  | e :: rest => e.WellFormed p ∧ allWellFormed p rest

end

end Expr

structure Constant.WellFormed (p : Program) (c : Constant) : Prop where
  ty : c.ty.IsNullFree
  value : c.value.WellFormed p
  fits : ∃ t ∈ c.ty.ofConstant?, t.Accepts c.value

namespace Stmt

/-- The branch of a switch over strings ends where the next one begins, and nothing leaves it but a
break at its end. -/
def IsClosed (body : List Stmt) : Prop := anyLeavesSwitch (stripTrailingBreak body) = false

mutual

/-- Every part of the statement has a form in the target, in a method that returns the type. -/
def WellFormed (p : Program) (returns : Option Ty) : Stmt → Prop
  | expr e => e.WellFormed p
  | block body => allWellFormed p returns body
  | ifElse test thenDo elseDo =>
    test.WellFormed p ∧ thenDo.WellFormed p returns ∧ optWellFormed p returns elseDo
  | whileLoop test body | doWhile body test => test.WellFormed p ∧ body.WellFormed p returns
  | forLoop init test advance body =>
    Expr.optWellFormed p init ∧ Expr.optWellFormed p test ∧ Expr.optWellFormed p advance ∧
      body.WellFormed p returns
  | foreach element value collection body =>
    (element.ty.IsNullFree ∧ ∀ v ∈ value, v.ty.IsNullFree) ∧
      (collection.WellFormed p ∧ collection.ty.isArrayPointer = false) ∧ body.WellFormed p returns
  | switch value cases default =>
    value.WellFormed p ∧ casesWellFormed p returns value.ty.isString cases ∧
      defaultWellFormed p returns value.ty.isString default
  | breakOut | continueLoop | native _ => True
  | ret value => Expr.optWellFormed p value ∧ ∀ t ∈ returns, ∀ e ∈ value, t.Accepts e
  | raise message => message.WellFormed p ∧ (Ty.string .storage).Accepts message
  | constant c => c.WellFormed p

def allWellFormed (p : Program) (returns : Option Ty) : List Stmt → Prop
  | [] => True
  | s :: rest => s.WellFormed p returns ∧ allWellFormed p returns rest

def optWellFormed (p : Program) (returns : Option Ty) : Option Stmt → Prop
  | none => True
  | some s => s.WellFormed p returns

def casesWellFormed (p : Program) (returns : Option Ty) (lowered : Bool) :
    List (Case Stmt) → Prop
  | [] => True
  | ⟨values, body, fallsThrough⟩ :: rest =>
    (Expr.allWellFormed p values ∧ allWellFormed p returns body ∧
      (lowered → fallsThrough = false ∧ IsClosed body)) ∧ casesWellFormed p returns lowered rest

def defaultWellFormed (p : Program) (returns : Option Ty) (lowered : Bool) :
    Option (List Stmt) → Prop
  | none => True
  | some body => allWellFormed p returns body ∧ (lowered → IsClosed body)

end

end Stmt

structure Field.WellFormed (p : Program) (f : Field) : Prop where
  ty : f.ty.IsNullFree
  value : Expr.optWellFormed p f.value
  fits : ∀ e ∈ f.value, f.ty.Accepts e

structure Param.WellFormed (p : Program) (x : Param) : Prop where
  ty : x.ty.IsNullFree
  default : Expr.optWellFormed p x.default
  fits : ∀ e ∈ x.default, x.ty.Accepts e

structure Method.WellFormed (p : Program) (m : Method) : Prop where
  returns : ∀ t ∈ m.returnTy, t.IsNullFree
  params : ∀ x ∈ m.params, x.WellFormed p
  body : ∀ s ∈ m.body, s.WellFormed p m.returnTy

structure Class.WellFormed (p : Program) (c : Class) : Prop where
  constants : ∀ d ∈ c.constants, d.WellFormed p
  fields : ∀ f ∈ c.fields, f.WellFormed p
  methods : ∀ m ∈ c.methods, m.WellFormed p
  constructor : ∀ body ∈ c.constructor, Stmt.allWellFormed p none body

structure Program.WellFormed (p : Program) : Prop where
  acyclic : ∀ c, ¬ p.Circular c
  nonempty : ∀ r ∈ p.resources, r.bytes ≠ []
  identifiers : (p.resources.map (·.identifier)).Nodup
  classes : ∀ c ∈ p.classes, c.WellFormed p

/-- What is to be defined in the class has a body, and a class without instances is not given a
constructor. -/
structure Class.HasBodies (c : Class) : Prop where
  methods : ∀ m ∈ c.methods, m.isAbstract = false → m.body.isSome
  constructor : c.isStatic → c.constructor = none

end CppEmission
