import CppEmission.Decimal.Binary64
import CppEmission.Operator
import CppEmission.Ty

namespace CppEmission

structure Span where
  start : Nat := 0
  stop : Nat := 0
  deriving DecidableEq

def Span.display (s : Span) : String := Nat.repr s.start ++ ".." ++ Nat.repr s.stop

structure Note where
  ty : Ty
  span : Span := {}
  deriving DecidableEq

inductive Literal
  | null
  | bool (value : Bool)
  | int (value : Int64)
  | float (value : Decimal.Binary64)
  | string (value : String)
  deriving DecidableEq

def Literal.isNegative : Literal → Bool
  | int v => v < 0
  | float v => v.isNegative
  | _ => false

inductive SymbolKind
  | localVar
  | parameter
  | field (className : String) (isStatic : Bool)
  | constant (className : Option String)
  | enumConstant (enumName : String)
  deriving DecidableEq

structure Symbol where
  name : String
  kind : SymbolKind
  deriving DecidableEq

inductive Intrinsic
  | stringContains
  | stringStartsWith
  | stringEndsWith
  | stringSubstring
  | stringLength
  | listAdd
  | listInsert
  | listRemoveAt
  | listClear
  | listCount
  | listContains
  | mapContainsKey
  | mapRemove
  | mapClear
  | mathMin
  | mathMax
  | mathAbs
  | consoleWriteLine
  deriving DecidableEq

namespace Intrinsic

def all : List Intrinsic :=
  [stringContains, stringStartsWith, stringEndsWith, stringSubstring, stringLength, listAdd,
    listInsert, listRemoveAt, listClear, listCount, listContains, mapContainsKey, mapRemove,
    mapClear, mathMin, mathMax, mathAbs, consoleWriteLine]

theorem mem_all (f : Intrinsic) : f ∈ all := by cases f <;> decide

def name : Intrinsic → String
  | stringContains => "StringContains"
  | stringStartsWith => "StringStartsWith"
  | stringEndsWith => "StringEndsWith"
  | stringSubstring => "StringSubstring"
  | stringLength => "StringLength"
  | listAdd => "ListAdd"
  | listInsert => "ListInsert"
  | listRemoveAt => "ListRemoveAt"
  | listClear => "ListClear"
  | listCount => "ListCount"
  | listContains => "ListContains"
  | mapContainsKey => "MapContainsKey"
  | mapRemove => "MapRemove"
  | mapClear => "MapClear"
  | mathMin => "MathMin"
  | mathMax => "MathMax"
  | mathAbs => "MathAbs"
  | consoleWriteLine => "ConsoleWriteLine"

end Intrinsic

structure Signature where
  className : String
  name : String
  isStatic : Bool
  params : List Ty
  deriving DecidableEq

inductive Expr
  | literal (note : Note) (value : Literal)
  | symbol (note : Note) (left : Option Expr) (symbol : Symbol)
  | self (note : Note)
  | base (note : Note)
  | prefixed (note : Note) (op : PrefixOp) (operand : Expr)
  | postfixed (note : Note) (op : PostfixOp) (operand : Expr)
  | binary (note : Note) (op : BinaryOp) (left right : Expr)
  | conditional (note : Note) (test onTrue onFalse : Expr)
  | collection (note : Note) (items : List Expr)
  | varDecl (note : Note) (name : String) (ty : Ty) (value : Option Expr)
  | call (note : Note) (callee : Signature) (receiver : Option Expr) (args : List Expr)
  | intrinsic (note : Note) (callee : Intrinsic) (receiver : Option Expr) (args : List Expr)
  | new (note : Note) (length : Option Expr)
  | resource (note : Note) (name : String)

namespace Expr

def note : Expr → Note
  | literal n _ | symbol n _ _ | self n | base n | prefixed n _ _ | postfixed n _ _
  | binary n _ _ _ | conditional n _ _ _ | collection n _ | varDecl n _ _ _ | call n _ _ _
  | intrinsic n _ _ _ | new n _ | resource n _ => n

def ty (e : Expr) : Ty := e.note.ty

def span (e : Expr) : Span := e.note.span

def isLiteral : Expr → Bool
  | literal .. => true
  | _ => false

def isSelf : Expr → Bool
  | self _ => true
  | _ => false

def isBase : Expr → Bool
  | base _ => true
  | _ => false

def isVarDecl : Expr → Bool
  | varDecl .. => true
  | _ => false

def ofString (text : String) : Expr := literal ⟨.string .view, {}⟩ (.string text)

end Expr

def PrefixOp.resultTy : PrefixOp → Ty → Ty
  | .not, _ => .bool
  | _, t => t

structure VarDecl where
  name : String
  ty : Ty
  value : Option Expr := none

inductive Visibility
  | published
  | inherited
  | internal
  | hidden
  deriving DecidableEq

def Visibility.all : List Visibility := [published, inherited, internal, hidden]

structure Constant where
  name : String
  ty : Ty
  value : Expr
  visibility : Visibility := .published

end CppEmission
