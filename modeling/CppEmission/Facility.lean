import CppEmission.Program

namespace CppEmission

inductive Facility
  | fixedWidthInts
  | stringViews
  | stringStorage
  | sharedPointers
  | lists
  | maps
  | storageArrays
  | throws
  | resources
  | numberFormatting
  | intrinsic (callee : Intrinsic)
  deriving DecidableEq

def ArrayShape.facilities : ArrayShape → List Facility
  | storage _ => [.storageArrays]
  | pointer .shared => [.sharedPointers]
  | pointer _ => []

def Ownership.facilities : Ownership → List Facility
  | ptr .shared => [.sharedPointers]
  | _ => []

def Ty.facilities : Ty → List Facility
  | null | bool | float | double | enum _ => []
  | int _ => [.fixedWidthInts]
  | string .view => [.stringViews]
  | string .storage => [.stringStorage]
  | array elem shape => shape.facilities ++ elem.facilities
  | object _ held => held.facilities
  | list elem => .lists :: elem.facilities
  | map key value =>
    .maps :: (if key.isString then [.stringStorage] else []) ++ key.facilities ++ value.facilities

def BinaryOp.formatsNumber (op : BinaryOp) (ty left right : Ty) : Bool :=
  (op = .add || op = .addAssign) && ty.isString && !(left.isString && right.isString)

namespace Expr

mutual

def facilities : Expr → List Facility
  | literal note _ | self note | base note | resource note _ => note.ty.facilities
  | symbol note left _ => note.ty.facilities ++ optFacilities left
  | prefixed note _ e | postfixed note _ e => note.ty.facilities ++ e.facilities
  | binary note op l r =>
    note.ty.facilities ++
      (if op.formatsNumber note.ty l.ty r.ty then [.numberFormatting] else []) ++
      l.facilities ++ r.facilities
  | conditional note c t f => note.ty.facilities ++ c.facilities ++ t.facilities ++ f.facilities
  | collection note items => note.ty.facilities ++ allFacilities items
  | varDecl note _ ty value => note.ty.facilities ++ ty.facilities ++ optFacilities value
  | call note _ receiver args =>
    note.ty.facilities ++ optFacilities receiver ++ allFacilities args
  | intrinsic note f receiver args =>
    note.ty.facilities ++ .intrinsic f :: optFacilities receiver ++ allFacilities args
  | new note length => note.ty.facilities ++ optFacilities length

def optFacilities : Option Expr → List Facility
  | none => []
  | some e => e.facilities

def allFacilities : List Expr → List Facility
  | [] => []
  | e :: rest => e.facilities ++ allFacilities rest

end

end Expr

def Constant.facilities (c : Constant) : List Facility :=
  (if c.ty.isString then [.stringViews] else []) ++ c.ty.facilities ++ c.value.facilities

namespace Stmt

mutual

def facilities : Stmt → List Facility
  | expr e => e.facilities
  | block body => allFacilities body
  | ifElse test thenDo elseDo => test.facilities ++ thenDo.facilities ++ optFacilities elseDo
  | whileLoop test body => test.facilities ++ body.facilities
  | doWhile body test => test.facilities ++ body.facilities
  | forLoop init test advance body =>
    Expr.optFacilities init ++ Expr.optFacilities test ++ Expr.optFacilities advance ++
      body.facilities
  | foreach element value collection body =>
    element.ty.facilities ++ (value.map (·.ty.facilities)).getD [] ++ collection.facilities ++
      body.facilities
  | switch value cases default =>
    value.facilities ++ casesFacilities cases ++ defaultFacilities default
  | ret value => Expr.optFacilities value
  | raise message => .throws :: .stringStorage :: message.facilities
  | constant c => c.facilities
  | breakOut | continueLoop | native _ => []

def optFacilities : Option Stmt → List Facility
  | none => []
  | some s => s.facilities

def allFacilities : List Stmt → List Facility
  | [] => []
  | s :: rest => s.facilities ++ allFacilities rest

def casesFacilities : List (Case Stmt) → List Facility
  | [] => []
  | ⟨values, body, _⟩ :: rest =>
    Expr.allFacilities values ++ allFacilities body ++ casesFacilities rest

def defaultFacilities : Option (List Stmt) → List Facility
  | none => []
  | some body => allFacilities body

end

end Stmt

def Field.facilities (f : Field) : List Facility :=
  f.ty.facilities ++ Expr.optFacilities f.value

def Param.facilities (p : Param) : List Facility :=
  p.ty.facilities ++ Expr.optFacilities p.default

def Method.facilities (m : Method) : List Facility :=
  (m.returnTy.map (·.facilities)).getD [] ++ m.params.flatMap (·.facilities) ++
    Stmt.optFacilities m.body

def Class.facilities (c : Class) : List Facility :=
  c.constants.flatMap (·.facilities) ++ c.fields.flatMap (·.facilities) ++
    (c.constructor.map Stmt.allFacilities).getD [] ++ c.methods.flatMap (·.facilities)

def Program.facilities (p : Program) : List Facility :=
  (if p.resources.isEmpty then [] else [.resources]) ++ p.classes.flatMap (·.facilities)

def Program.uses (p : Program) (f : Facility) : Bool := p.facilities.contains f

structure Header where
  name : String
  provides : List Facility

def Header.all : List Header :=
  [⟨"algorithm", [.intrinsic .listContains, .intrinsic .mathMin, .intrinsic .mathMax]⟩,
    ⟨"array", [.storageArrays]⟩,
    ⟨"cmath", [.intrinsic .mathAbs]⟩,
    ⟨"cstdint", [.fixedWidthInts, .resources]⟩,
    ⟨"cstdlib", [.intrinsic .mathAbs]⟩,
    ⟨"iostream", [.intrinsic .consoleWriteLine]⟩,
    ⟨"map", [.maps]⟩,
    ⟨"memory", [.sharedPointers]⟩,
    ⟨"stdexcept", [.throws]⟩,
    ⟨"string", [.stringStorage, .numberFormatting, .intrinsic .stringContains]⟩,
    ⟨"string_view", [.stringViews]⟩,
    ⟨"vector", [.lists]⟩]

def Header.needed (used : List Facility) : List String :=
  (Header.all.filter (·.provides.any used.contains)).map (·.name)

end CppEmission
