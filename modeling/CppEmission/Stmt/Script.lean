import CppEmission.Declaration.Line
import CppEmission.Script

namespace CppEmission

def Ty.isBoundByValue : Ty → Bool
  | bool | int _ | float | double | enum _ | string .view => true
  | object _ (.ptr h) => h.isBorrow
  | _ => false

def Ty.isArrayPointer : Ty → Bool
  | array _ (.pointer _) => true
  | _ => false

def fallthroughLine : String := "[[fallthrough]];"

namespace Context

def statementText (cx : Context) (e : Expr) : Except EmitError String := do
  return (← cx.render e .statement) ++ ";"

def optionalText (cx : Context) : Option Expr → Except EmitError (Option String)
  | none => .ok none
  | some e => (cx.render e .statement).map some

def forHeader (cx : Context) (init test advance : Option Expr) : Except EmitError String := do
  let init ← cx.optionalText init
  let test ← cx.optionalText test
  let advance ← cx.optionalText advance
  let spaced (t : Option String) : String := (t.map (" " ++ ·)).getD ""
  return "for (" ++ init.getD "" ++ ";" ++ spaced test ++ ";" ++ spaced advance ++ ")"

def foreachHeader (cx : Context) (element : VarDecl) (value : Option VarDecl)
    (collection : Expr) : Except EmitError String :=
  if collection.ty.isArrayPointer then cx.refuse collection.span .foreachOverPointer
  else do
    let range ← cx.render collection .statement
    let name := Keyword.escape element.name
    match value with
    | some v => return "for (const auto &[" ++ name ++ ", " ++ Keyword.escape v.name ++ "] : " ++
        range ++ ")"
    | none =>
      if element.ty.isBoundByValue then
        return "for (" ++ (← cx.typeName element.ty) ++ " " ++ name ++ " : " ++ range ++ ")"
      else return "for (auto &" ++ name ++ " : " ++ range ++ ")"

def returnLine (cx : Context) : Option Expr → Except EmitError String
  | none => .ok "return;"
  | some e => do
    let text ← match cx.scope.returnTy? with
      | some t => cx.coerce t e .statement
      | none => cx.render e .statement
    return "return " ++ text ++ ";"

/-- An error carries its message as an owning string. -/
def raiseLine (cx : Context) (message : Expr) : Except EmitError String := do
  return "throw std::runtime_error(" ++
    (← cx.coerce (.string .storage) message .statement) ++ ");"

def caseLabel (cx : Context) (value : Expr) : Script :=
  .after (cx.render value .statement) fun t => .op (.outdentedLine ("case " ++ t ++ ":"))

def branchTest (cx : Context) (value : Expr) (labels : List Expr) : Except EmitError String := do
  let tests ← labels.mapM fun l => cx.compared .eq (cx.operand value) (cx.operand l) .condOr
  return String.intercalate " || " tests

end Context

/-- A branch of a switch with the line that leaves it. A branch that declares names has a scope
of its own, so that no later label jumps into it past a declaration. -/
def Script.branch (declares : Bool) (body : Script) (exit : Option String) : Script :=
  let whole := body ++ (match exit with
    | some text => line text
    | none => {})
  if declares then block "" whole else whole

def Stmt.exitLine (fallsThrough : Bool) (body : List Stmt) : Option String :=
  if fallsThrough then some fallthroughLine
  else if completesAll body then some "break;"
  else none

namespace Context

mutual

/-- What a statement writes. A `bare` block stands inside braces already. -/
def emit (cx : Context) (bare : Bool) : Stmt → Script
  | .expr e => .after (cx.statementText e) .line
  | .block body => if bare then cx.emitAll body else .block "" (cx.emitAll body)
  | .ifElse test thenDo elseDo =>
    .after (cx.render test .statement) fun t =>
      .openBlock ("if (" ++ t ++ ")") ++ cx.emit true thenDo ++ cx.emitElse elseDo
  | .whileLoop test body =>
    .after (cx.render test .statement) fun t => .block ("while (" ++ t ++ ")") (cx.emit true body)
  | .doWhile body test =>
    .openBlock "do" ++ cx.emit true body ++
      .after (cx.render test .statement) fun t =>
        .op (.closeBlockWith ("\x7d while (" ++ t ++ ");"))
  | .forLoop init test advance body =>
    .after (cx.forHeader init test advance) fun h => .block h (cx.emit true body)
  | .foreach element value collection body =>
    .after (cx.foreachHeader element value collection) fun h => .block h (cx.emit true body)
  | .switch value cases default =>
    if value.ty.isString && !cx.dialect.stringSwitch then
      cx.emitTests value false cases ++ cx.emitOtherwise value (!cases.isEmpty) default
    else
      .after (cx.render value .statement) fun t =>
        .block ("switch (" ++ t ++ ")") (cx.emitCases cases ++ cx.emitDefault default)
  | .breakOut => .line "break;"
  | .continueLoop => .line "continue;"
  | .ret value => .after (cx.returnLine value) .line
  | .raise message => .after (cx.raiseLine message) .line
  | .native text => .op (.raw text)
  | .constant c => .after (cx.constantLine .body c) .line

def emitAll (cx : Context) : List Stmt → Script
  | [] => {}
  | s :: rest => cx.emit false s ++ cx.emitAll rest

def emitElse (cx : Context) : Option Stmt → Script
  | none => .closeBlock
  | some (.ifElse test thenDo elseDo) =>
    .op .dedent ++
      .after (cx.render test .statement) fun t =>
        .line ("\x7d else if (" ++ t ++ ") \x7b") ++ .op .indent ++ cx.emit true thenDo ++
          cx.emitElse elseDo
  | some s =>
    .op .dedent ++ .line "\x7d else \x7b" ++ .op .indent ++ cx.emit true s ++ .closeBlock

def emitCases (cx : Context) : List (Case Stmt) → Script
  | [] => {}
  | ⟨values, body, fallsThrough⟩ :: rest =>
    .concat (values.map cx.caseLabel) ++
      .branch (body.any Stmt.declaresLocal) (cx.emitAll body)
        (Stmt.exitLine fallsThrough body) ++
      cx.emitCases rest

def emitDefault (cx : Context) : Option (List Stmt) → Script
  | none => {}
  | some body =>
    .op (.outdentedLine "default:") ++
      .branch (body.any Stmt.declaresLocal) (cx.emitAll body) (Stmt.exitLine false body)

def emitStripped (cx : Context) : List Stmt → Script
  | [] => {}
  | [.breakOut] => {}
  | [.block body] => .block "" (cx.emitStripped body)
  | [s] => cx.emit false s
  | s :: t :: rest => cx.emit false s ++ cx.emitStripped (t :: rest)

def emitTests (cx : Context) (value : Expr) (opened : Bool) : List (Case Stmt) → Script
  | [] => {}
  | ⟨values, body, fallsThrough⟩ :: rest =>
    if fallsThrough then .fail (.refused .loweredFallthrough (cx.location value.span))
    else if Stmt.anyLeavesSwitch (Stmt.stripTrailingBreak body) then
      .fail (.refused .loweredBreak (cx.location value.span))
    else
      (.after (cx.branchTest value values) fun t =>
        if opened then .op .dedent ++ .line ("\x7d else if (" ++ t ++ ") \x7b") ++ .op .indent
        else .openBlock ("if (" ++ t ++ ")")) ++
        cx.emitStripped body ++ cx.emitTests value true rest

def emitOtherwise (cx : Context) (value : Expr) (opened : Bool) : Option (List Stmt) → Script
  | none => if opened then .closeBlock else {}
  | some body =>
    if Stmt.anyLeavesSwitch (Stmt.stripTrailingBreak body) then
      .fail (.refused .loweredBreak (cx.location value.span))
    else
      (if opened then .op .dedent ++ .line "\x7d else \x7b" ++ .op .indent
        else .openBlock "") ++
        cx.emitStripped body ++ .closeBlock

end

end Context

end CppEmission
