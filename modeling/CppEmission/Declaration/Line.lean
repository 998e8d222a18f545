import CppEmission.Phrase.OfExpr

namespace CppEmission

inductive ConstantPlace
  | member
  | body
  deriving DecidableEq

def ConstantPlace.keyword : ConstantPlace → String
  | member => "static constexpr"
  | body => "constexpr"

/-- The type a constant is declared with, where its type has literals. An owning string has none,
so that every string constant is a view. -/
def Ty.ofConstant? : Ty → Option Ty
  | string _ => some (.string .view)
  | object .. | list _ | map .. => none
  | t => some t

def MethodKind.declaredPrefix : MethodKind → String
  | static => "static "
  | abstract | virtual => "virtual "
  | normal | override | sealed => ""

def MethodKind.declaredSuffix : MethodKind → String
  | abstract => " = 0"
  | override => " override"
  | sealed => " final"
  | static | normal | virtual => ""

def Method.qualifier (m : Method) : String :=
  if m.mutates || m.isStatic then "" else " const"

namespace Context

def constantLine (cx : Context) (place : ConstantPlace) (c : Constant) :
    Except EmitError String :=
  match c.ty.ofConstant? with
  | none => cx.refuse c.value.span (.nonLiteralConstant c.name c.ty)
  | some t => do
    let typeName ← cx.typeName t
    let value ← cx.coerce t c.value .assign
    return place.keyword ++ " " ++ typeName ++ " " ++ Keyword.escape c.name ++ " = " ++ value ++ ";"

def fieldLine (cx : Context) (f : Field) : Except EmitError String := do
  let isStatic := f.isStatic || cx.scope.class?.any (·.isStatic)
  let text ← cx.declared f.name f.ty (cx.operand? f.value)
  return (if isStatic then "static inline " else "") ++ text ++ ";"

def returnName (cx : Context) (m : Method) : Except EmitError String :=
  match m.returnTy with
  | some t => cx.typeName t
  | none => .ok "void"

def paramText (cx : Context) (p : Param) : Except EmitError String := do
  return (← cx.typeName p.ty) ++ " " ++ Keyword.escape p.name

def paramTextWithDefault (cx : Context) (p : Param) : Except EmitError String := do
  let text ← cx.paramText p
  match p.default with
  | some e => return text ++ " = " ++ (← cx.coerce p.ty e .assign)
  | none => return text

def methodLine (cx : Context) (m : Method) : Except EmitError String := do
  let typeName ← cx.returnName m
  let params ← m.params.mapM cx.paramTextWithDefault
  return m.kind.declaredPrefix ++ typeName ++ " " ++ Keyword.escape m.name ++
    "(" ++ joined params ++ ")" ++ m.qualifier ++ m.kind.declaredSuffix ++ ";"

def methodHeader (cx : Context) (className : String) (m : Method) : Except EmitError String := do
  let typeName ← cx.returnName m
  let params ← m.params.mapM cx.paramText
  return typeName ++ " " ++ className ++ "::" ++ Keyword.escape m.name ++
    "(" ++ joined params ++ ")" ++ m.qualifier

end Context

end CppEmission
