import CppEmission.Proofs.Inline.Phrase
import CppEmission.Stmt.Script

namespace CppEmission

inductive Skeleton
  | leaf (line : String)
  | block (body : List Skeleton)
  | chain (branches : List (String × List Skeleton)) (otherwise : Option (List Skeleton))
  | whileLoop (test : String) (body : List Skeleton)
  | doWhile (body : List Skeleton) (test : String)
  | forLoop (header : String) (body : List Skeleton)
  | foreach (header : String) (body : List Skeleton)

namespace Context

def leafSkeleton (text : Except EmitError String) : Option (List Skeleton) :=
  text.toOption.map fun line => [.leaf line]

mutual

def skeleton (cx : Context) (bare : Bool) : Stmt → Option (List Skeleton)
  | .expr e => leafSkeleton (cx.statementText e)
  | .block body => do
    let body ← cx.skeletons body
    return if bare then body else [.block body]
  | .ifElse test thenDo elseDo => do
    let test ← (cx.render test .statement).toOption
    let thenDo ← cx.skeleton true thenDo
    let (others, otherwise) ← cx.elseSkeleton elseDo
    return [.chain ((test, thenDo) :: others) otherwise]
  | .whileLoop test body => do
    let test ← (cx.render test .statement).toOption
    return [.whileLoop test (← cx.skeleton true body)]
  | .doWhile body test => do
    let body ← cx.skeleton true body
    return [.doWhile body (← (cx.render test .statement).toOption)]
  | .forLoop init test advance body => do
    let header ← (cx.forHeader init test advance).toOption
    return [.forLoop header (← cx.skeleton true body)]
  | .foreach element value collection body => do
    let header ← (cx.foreachHeader element value collection).toOption
    return [.foreach header (← cx.skeleton true body)]
  | .breakOut => some [.leaf "break;"]
  | .continueLoop => some [.leaf "continue;"]
  | .ret value => leafSkeleton (cx.returnLine value)
  | .raise message => leafSkeleton (cx.raiseLine message)
  | .constant c => leafSkeleton (cx.constantLine .body c)
  | .switch .. | .native _ => none

def skeletons (cx : Context) : List Stmt → Option (List Skeleton)
  | [] => some []
  | s :: rest => do
    let first ← cx.skeleton false s
    return first ++ (← cx.skeletons rest)

def elseSkeleton (cx : Context) :
    Option Stmt → Option (List (String × List Skeleton) × Option (List Skeleton))
  | none => some ([], none)
  | some (.ifElse test thenDo elseDo) => do
    let test ← (cx.render test .statement).toOption
    let thenDo ← cx.skeleton true thenDo
    let (others, otherwise) ← cx.elseSkeleton elseDo
    return ((test, thenDo) :: others, otherwise)
  | some s => do
    let body ← cx.skeleton true s
    return ([], some body)

end

end Context

namespace Stmt

mutual

def IsPlain : Stmt → Prop
  | expr e | raise e => e.NamesIdentifiers
  | block body => allPlain body
  | ifElse test thenDo elseDo => test.NamesIdentifiers ∧ thenDo.IsPlain ∧ optPlain elseDo
  | whileLoop test body | doWhile body test => test.NamesIdentifiers ∧ body.IsPlain
  | forLoop init test advance body =>
    Expr.optNamesIdentifiers init ∧ Expr.optNamesIdentifiers test ∧
      Expr.optNamesIdentifiers advance ∧ body.IsPlain
  | foreach element value collection body =>
    (Grammar.isIdentifier element.name ∧ element.ty.NamesIdentifiers) ∧
      (∀ v ∈ value, Grammar.isIdentifier v.name) ∧ collection.NamesIdentifiers ∧ body.IsPlain
  | breakOut | continueLoop => True
  | ret value => Expr.optNamesIdentifiers value
  | constant c =>
    Grammar.isIdentifier c.name ∧ c.ty.NamesIdentifiers ∧ c.value.NamesIdentifiers
  | switch .. | native _ => False

def allPlain : List Stmt → Prop
  | [] => True
  | s :: rest => s.IsPlain ∧ allPlain rest

def optPlain : Option Stmt → Prop
  | none => True
  | some s => s.IsPlain

end

end Stmt

end CppEmission
