import CppEmission.Expr

namespace CppEmission

structure Case (σ : Type) where
  values : List Expr
  body : List σ
  fallsThrough : Bool := false

inductive Stmt
  | expr (value : Expr)
  | block (body : List Stmt)
  | ifElse (test : Expr) (thenDo : Stmt) (elseDo : Option Stmt)
  | whileLoop (test : Expr) (body : Stmt)
  | doWhile (body : Stmt) (test : Expr)
  | forLoop (init test advance : Option Expr) (body : Stmt)
  | foreach (element : VarDecl) (value : Option VarDecl) (collection : Expr) (body : Stmt)
  | switch (value : Expr) (cases : List (Case Stmt)) (default : Option (List Stmt))
  | breakOut
  | continueLoop
  | ret (value : Option Expr)
  | raise (message : Expr)
  | native (text : String)
  | constant (decl : Constant)

namespace Stmt

mutual

/-- Control may reach the end of the statement; loops and switches are assumed to end. -/
def completes : Stmt → Bool
  | breakOut | continueLoop | ret _ | raise _ => false
  | block body => completesAll body
  | ifElse _ thenDo (some elseDo) => thenDo.completes || elseDo.completes
  | _ => true

def completesAll : List Stmt → Bool
  | [] => true
  | [s] => s.completes
  | _ :: s :: rest => completesAll (s :: rest)

end

def declaresLocal : Stmt → Bool
  | constant _ => true
  | expr e => e.isVarDecl
  | _ => false

mutual

/-- The statement holds a break that leaves the switch around it; loops and switches inside keep
their own breaks. -/
def leavesSwitch : Stmt → Bool
  | breakOut => true
  | block body => anyLeavesSwitch body
  | ifElse _ thenDo elseDo => thenDo.leavesSwitch || optLeavesSwitch elseDo
  | _ => false

def anyLeavesSwitch : List Stmt → Bool
  | [] => false
  | s :: rest => s.leavesSwitch || anyLeavesSwitch rest

def optLeavesSwitch : Option Stmt → Bool
  | none => false
  | some s => s.leavesSwitch

end

mutual

/-- A list of statements without the break at its end, also where that ends a block. -/
def stripTrailingBreak : List Stmt → List Stmt
  | [] => []
  | [s] => stripBreak s
  | s :: t :: rest => s :: stripTrailingBreak (t :: rest)

def stripBreak : Stmt → List Stmt
  | breakOut => []
  | block body => [block (stripTrailingBreak body)]
  | s => [s]

end

end Stmt

end CppEmission
