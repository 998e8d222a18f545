import CppEmission.Units

namespace CppEmission

open Keyword (escape)

namespace Keyword

theorem isReserved_append_underscore (name : String) : isReserved (name ++ "_") = false := by
  refine Bool.eq_false_iff.2 fun h => (reserved_spelling _ (List.contains_iff_mem.1 h)).2 ?_
  rw [String.toList_append]
  exact List.getLast?_concat

theorem isReserved_escape (name : String) : isReserved (escape name) = false := by
  cases word : isReserved name with
  | false => rwa [escape_of_not_isReserved word]
  | true =>
    rw [escape_of_isReserved word]
    exact isReserved_append_underscore name

@[simp] theorem escape_escape (name : String) : escape (escape name) = escape name :=
  escape_of_not_isReserved (isReserved_escape name)

end Keyword

namespace Expr

mutual

def escaped : Expr → Expr
  | literal note l => literal note l
  | symbol note left s => symbol note (optEscaped left) { s with name := escape s.name }
  | self note => self note
  | base note => base note
  | prefixed note op e => prefixed note op e.escaped
  | postfixed note op e => postfixed note op e.escaped
  | binary note op l r => binary note op l.escaped r.escaped
  | conditional note c t f => conditional note c.escaped t.escaped f.escaped
  | collection note items => collection note (allEscaped items)
  | varDecl note name ty value => varDecl note (escape name) ty (optEscaped value)
  | call note f receiver args =>
    call note { f with name := escape f.name } (optEscaped receiver) (allEscaped args)
  | intrinsic note f receiver args => intrinsic note f (optEscaped receiver) (allEscaped args)
  | new note length => new note (optEscaped length)
  | resource note name => resource note name

def optEscaped : Option Expr → Option Expr
  | none => none
  | some e => some e.escaped

def allEscaped : List Expr → List Expr
  | [] => []
  | e :: rest => e.escaped :: allEscaped rest

end

mutual

/-- The names that an expression declares or refers to, those of classes and enums aside. -/
def names : Expr → List String
  | literal .. | self _ | base _ | resource .. => []
  | symbol _ left s => s.name :: optNames left
  | prefixed _ _ e | postfixed _ _ e => e.names
  | binary _ _ l r => l.names ++ r.names
  | conditional _ c t f => c.names ++ t.names ++ f.names
  | collection _ items => allNames items
  | varDecl _ name _ value => name :: optNames value
  | call _ f receiver args => f.name :: optNames receiver ++ allNames args
  | intrinsic _ _ receiver args => optNames receiver ++ allNames args
  | new _ length => optNames length

def optNames : Option Expr → List String
  | none => []
  | some e => e.names

def allNames : List Expr → List String
  | [] => []
  | e :: rest => e.names ++ allNames rest

end

theorem allEscaped_eq_map (es : List Expr) : allEscaped es = es.map escaped := by
  induction es with
  | nil => rfl
  | cons e es ih => rw [allEscaped, ih, List.map_cons]

@[simp] theorem note_escaped (e : Expr) : e.escaped.note = e.note := by cases e <;> rfl

@[simp] theorem ty_escaped (e : Expr) : e.escaped.ty = e.ty := congrArg Note.ty e.note_escaped

@[simp] theorem span_escaped (e : Expr) : e.escaped.span = e.span :=
  congrArg Note.span e.note_escaped

@[simp] theorem isLiteral_escaped (e : Expr) : e.escaped.isLiteral = e.isLiteral := by
  cases e <;> rfl

@[simp] theorem isSelf_escaped (e : Expr) : e.escaped.isSelf = e.isSelf := by cases e <;> rfl

@[simp] theorem isBase_escaped (e : Expr) : e.escaped.isBase = e.isBase := by cases e <;> rfl

@[simp] theorem isVarDecl_escaped (e : Expr) : e.escaped.isVarDecl = e.isVarDecl := by
  cases e <;> rfl

@[simp] theorem isPromoted_escaped (e : Expr) : e.escaped.isPromoted = e.isPromoted := by
  cases e <;> rfl

mutual

theorem names_escaped : ∀ e : Expr, e.escaped.names = e.names.map escape
  | literal .. | self _ | base _ | resource .. => rfl
  | symbol _ left s => by simp [escaped, names, optNames_escaped left]
  | prefixed _ _ e | postfixed _ _ e => by rw [escaped, names, names, names_escaped e]
  | binary _ _ l r => by simp [escaped, names, names_escaped l, names_escaped r]
  | conditional _ c t f => by
    simp [escaped, names, names_escaped c, names_escaped t, names_escaped f]
  | collection _ items => by rw [escaped, names, names, allNames_escaped items]
  | varDecl _ name _ value => by simp [escaped, names, optNames_escaped value]
  | call _ f receiver args => by
    simp [escaped, names, optNames_escaped receiver, allNames_escaped args]
  | intrinsic _ _ receiver args => by
    simp [escaped, names, optNames_escaped receiver, allNames_escaped args]
  | new _ length => by rw [escaped, names, names, optNames_escaped length]

theorem optNames_escaped : ∀ o : Option Expr,
    optNames (optEscaped o) = (optNames o).map escape
  | none => rfl
  | some e => names_escaped e

theorem allNames_escaped : ∀ es : List Expr,
    allNames (allEscaped es) = (allNames es).map escape
  | [] => rfl
  | e :: rest => by
    rw [allEscaped, allNames, allNames, List.map_append, names_escaped e, allNames_escaped rest]

end

mutual

theorem facilities_escaped : ∀ e : Expr, e.escaped.facilities = e.facilities
  | literal .. | self _ | base _ | resource .. => rfl
  | symbol _ left s => by rw [escaped, facilities, facilities, optFacilities_escaped left]
  | prefixed _ _ e | postfixed _ _ e => by
    rw [escaped, facilities, facilities, facilities_escaped e]
  | binary _ _ l r => by
    rw [escaped, facilities, facilities, facilities_escaped l, facilities_escaped r, ty_escaped,
      ty_escaped]
  | conditional _ c t f => by
    rw [escaped, facilities, facilities, facilities_escaped c, facilities_escaped t,
      facilities_escaped f]
  | collection _ items => by rw [escaped, facilities, facilities, allFacilities_escaped items]
  | varDecl _ name _ value => by rw [escaped, facilities, facilities, optFacilities_escaped value]
  | call _ f receiver args | intrinsic _ f receiver args => by
    rw [escaped, facilities, facilities, optFacilities_escaped receiver,
      allFacilities_escaped args]
  | new _ length => by rw [escaped, facilities, facilities, optFacilities_escaped length]

theorem optFacilities_escaped : ∀ o : Option Expr, optFacilities (optEscaped o) = optFacilities o
  | none => rfl
  | some e => facilities_escaped e

theorem allFacilities_escaped : ∀ es : List Expr,
    allFacilities (allEscaped es) = allFacilities es
  | [] => rfl
  | e :: rest => by
    rw [allEscaped, allFacilities, allFacilities, facilities_escaped e, allFacilities_escaped rest]

end

end Expr

theorem convert_escaped (t : Ty) (e : Expr) : convert t e.escaped = convert t e := by
  simp only [convert, Expr.arithmeticKind, Expr.ty_escaped, Expr.isLiteral_escaped,
    Expr.isPromoted_escaped]
  rfl

def Constant.escaped (c : Constant) : Constant :=
  { c with name := escape c.name, value := c.value.escaped }

def Constant.names (c : Constant) : List String := c.name :: c.value.names

def VarDecl.escaped (v : VarDecl) : VarDecl :=
  { v with name := escape v.name, value := Expr.optEscaped v.value }

def VarDecl.names (v : VarDecl) : List String := v.name :: Expr.optNames v.value

namespace Stmt

mutual

def escaped : Stmt → Stmt
  | expr e => expr e.escaped
  | block body => block (allEscaped body)
  | ifElse test thenDo elseDo => ifElse test.escaped thenDo.escaped (optEscaped elseDo)
  | whileLoop test body => whileLoop test.escaped body.escaped
  | doWhile body test => doWhile body.escaped test.escaped
  | forLoop init test advance body =>
    forLoop (Expr.optEscaped init) (Expr.optEscaped test) (Expr.optEscaped advance) body.escaped
  | foreach element value collection body =>
    foreach element.escaped (value.map (·.escaped)) collection.escaped body.escaped
  | switch value cases default => switch value.escaped (casesEscaped cases) (defaultEscaped default)
  | breakOut => breakOut
  | continueLoop => continueLoop
  | ret value => ret (Expr.optEscaped value)
  | raise message => raise message.escaped
  | native text => native text
  | constant c => constant c.escaped

def optEscaped : Option Stmt → Option Stmt
  | none => none
  | some s => some s.escaped

def allEscaped : List Stmt → List Stmt
  | [] => []
  | s :: rest => s.escaped :: allEscaped rest

def casesEscaped : List (Case Stmt) → List (Case Stmt)
  | [] => []
  | ⟨values, body, fallsThrough⟩ :: rest =>
    ⟨Expr.allEscaped values, allEscaped body, fallsThrough⟩ :: casesEscaped rest

def defaultEscaped : Option (List Stmt) → Option (List Stmt)
  | none => none
  | some body => some (allEscaped body)

end

mutual

def names : Stmt → List String
  | expr e => e.names
  | block body => allNames body
  | ifElse test thenDo elseDo => test.names ++ thenDo.names ++ optNames elseDo
  | whileLoop test body | doWhile body test => test.names ++ body.names
  | forLoop init test advance body =>
    Expr.optNames init ++ Expr.optNames test ++ Expr.optNames advance ++ body.names
  | foreach element value collection body =>
    element.names ++ (value.map (·.names)).getD [] ++ collection.names ++ body.names
  | switch value cases default => value.names ++ casesNames cases ++ defaultNames default
  | ret value => Expr.optNames value
  | raise message => message.names
  | constant c => c.names
  | breakOut | continueLoop | native _ => []

def optNames : Option Stmt → List String
  | none => []
  | some s => s.names

def allNames : List Stmt → List String
  | [] => []
  | s :: rest => s.names ++ allNames rest

def casesNames : List (Case Stmt) → List String
  | [] => []
  | ⟨values, body, _⟩ :: rest => Expr.allNames values ++ allNames body ++ casesNames rest

def defaultNames : Option (List Stmt) → List String
  | none => []
  | some body => allNames body

end

theorem allEscaped_eq_map (ss : List Stmt) : allEscaped ss = ss.map escaped := by
  induction ss with
  | nil => rfl
  | cons s ss ih => rw [allEscaped, ih, List.map_cons]

@[simp] theorem isEmpty_casesEscaped (cs : List (Case Stmt)) :
    (casesEscaped cs).isEmpty = cs.isEmpty := by
  cases cs <;> rfl

mutual

theorem names_escaped : ∀ s : Stmt, s.escaped.names = s.names.map escape
  | expr e => by rw [escaped, names, names, e.names_escaped]
  | block body => by rw [escaped, names, names, allNames_escaped body]
  | ifElse test thenDo elseDo => by
    simp [escaped, names, test.names_escaped, names_escaped thenDo, optNames_escaped elseDo]
  | whileLoop test body | doWhile body test => by
    simp [escaped, names, test.names_escaped, names_escaped body]
  | forLoop init test advance body => by
    simp [escaped, names, Expr.optNames_escaped, names_escaped body]
  | foreach element value collection body => by
    cases value <;>
      simp [escaped, names, VarDecl.escaped, VarDecl.names, Expr.optNames_escaped,
        collection.names_escaped, names_escaped body]
  | switch value cases default => by
    simp [escaped, names, value.names_escaped, casesNames_escaped cases,
      defaultNames_escaped default]
  | ret value => by rw [escaped, names, names, Expr.optNames_escaped]
  | raise message => by rw [escaped, names, names, message.names_escaped]
  | constant c => by
    simp [escaped, names, Constant.escaped, Constant.names, c.value.names_escaped]
  | breakOut | continueLoop | native _ => rfl

theorem optNames_escaped : ∀ o : Option Stmt, optNames (optEscaped o) = (optNames o).map escape
  | none => rfl
  | some s => names_escaped s

theorem allNames_escaped : ∀ ss : List Stmt, allNames (allEscaped ss) = (allNames ss).map escape
  | [] => rfl
  | s :: rest => by
    rw [allEscaped, allNames, allNames, List.map_append, names_escaped s, allNames_escaped rest]

theorem casesNames_escaped : ∀ cs : List (Case Stmt),
    casesNames (casesEscaped cs) = (casesNames cs).map escape
  | [] => rfl
  | ⟨values, body, _⟩ :: rest => by
    simp [casesEscaped, casesNames, Expr.allNames_escaped, allNames_escaped body,
      casesNames_escaped rest]

theorem defaultNames_escaped : ∀ default : Option (List Stmt),
    defaultNames (defaultEscaped default) = (defaultNames default).map escape
  | none => rfl
  | some body => allNames_escaped body

end

theorem constant_facilities_escaped (c : Constant) : c.escaped.facilities = c.facilities :=
  congrArg (_ ++ ·) c.value.facilities_escaped

mutual

theorem facilities_escaped : ∀ s : Stmt, s.escaped.facilities = s.facilities
  | expr e => by rw [escaped, facilities, facilities, e.facilities_escaped]
  | block body => by rw [escaped, facilities, facilities, allFacilities_escaped body]
  | ifElse test thenDo elseDo => by
    rw [escaped, facilities, facilities, test.facilities_escaped, facilities_escaped thenDo,
      optFacilities_escaped elseDo]
  | whileLoop test body | doWhile body test => by
    rw [escaped, facilities, facilities, test.facilities_escaped, facilities_escaped body]
  | forLoop init test advance body => by
    simp only [escaped, facilities, Expr.optFacilities_escaped, facilities_escaped body]
  | foreach element value collection body => by
    rw [escaped, facilities, facilities, collection.facilities_escaped, facilities_escaped body]
    cases value <;> rfl
  | switch value cases default => by
    rw [escaped, facilities, facilities, value.facilities_escaped, casesFacilities_escaped cases,
      defaultFacilities_escaped default]
  | ret value => by rw [escaped, facilities, facilities, Expr.optFacilities_escaped]
  | raise message => by rw [escaped, facilities, facilities, message.facilities_escaped]
  | constant c => constant_facilities_escaped c
  | breakOut | continueLoop | native _ => rfl

theorem optFacilities_escaped : ∀ o : Option Stmt, optFacilities (optEscaped o) = optFacilities o
  | none => rfl
  | some s => facilities_escaped s

theorem allFacilities_escaped : ∀ ss : List Stmt,
    allFacilities (allEscaped ss) = allFacilities ss
  | [] => rfl
  | s :: rest => by
    rw [allEscaped, allFacilities, allFacilities, facilities_escaped s, allFacilities_escaped rest]

theorem casesFacilities_escaped : ∀ cs : List (Case Stmt),
    casesFacilities (casesEscaped cs) = casesFacilities cs
  | [] => rfl
  | ⟨values, body, _⟩ :: rest => by
    rw [casesEscaped, casesFacilities, casesFacilities, Expr.allFacilities_escaped,
      allFacilities_escaped body, casesFacilities_escaped rest]

theorem defaultFacilities_escaped : ∀ default : Option (List Stmt),
    defaultFacilities (defaultEscaped default) = defaultFacilities default
  | none => rfl
  | some body => allFacilities_escaped body

end

mutual

theorem completes_escaped : ∀ s : Stmt, s.escaped.completes = s.completes
  | block body => by rw [escaped, completes, completes, completesAll_escaped body]
  | ifElse _ thenDo (some elseDo) => by
    rw [escaped, optEscaped, completes, completes, completes_escaped thenDo,
      completes_escaped elseDo]
  | ifElse _ _ none | expr _ | whileLoop .. | doWhile .. | forLoop .. | foreach .. | switch ..
  | breakOut | continueLoop | ret _ | raise _ | native _ | constant _ => rfl

theorem completesAll_escaped : ∀ ss : List Stmt, completesAll (allEscaped ss) = completesAll ss
  | [] => rfl
  | [s] => completes_escaped s
  | _ :: s :: rest => completesAll_escaped (s :: rest)

end

theorem declaresLocal_escaped (s : Stmt) : s.escaped.declaresLocal = s.declaresLocal := by
  cases s <;> simp [escaped, declaresLocal]

theorem any_declaresLocal_escaped (ss : List Stmt) :
    (allEscaped ss).any declaresLocal = ss.any declaresLocal := by
  rw [allEscaped_eq_map, List.any_map]
  exact congrArg ss.any (funext declaresLocal_escaped)

theorem exitLine_escaped (fallsThrough : Bool) (ss : List Stmt) :
    exitLine fallsThrough (allEscaped ss) = exitLine fallsThrough ss := by
  rw [exitLine, exitLine, completesAll_escaped]

mutual

theorem leavesSwitch_escaped : ∀ s : Stmt, s.escaped.leavesSwitch = s.leavesSwitch
  | block body => by rw [escaped, leavesSwitch, leavesSwitch, anyLeavesSwitch_escaped body]
  | ifElse _ thenDo elseDo => by
    rw [escaped, leavesSwitch, leavesSwitch, leavesSwitch_escaped thenDo,
      optLeavesSwitch_escaped elseDo]
  | expr _ | whileLoop .. | doWhile .. | forLoop .. | foreach .. | switch .. | breakOut
  | continueLoop | ret _ | raise _ | native _ | constant _ => rfl

theorem anyLeavesSwitch_escaped : ∀ ss : List Stmt,
    anyLeavesSwitch (allEscaped ss) = anyLeavesSwitch ss
  | [] => rfl
  | s :: rest => by
    rw [allEscaped, anyLeavesSwitch, anyLeavesSwitch, leavesSwitch_escaped s,
      anyLeavesSwitch_escaped rest]

theorem optLeavesSwitch_escaped : ∀ o : Option Stmt,
    optLeavesSwitch (optEscaped o) = optLeavesSwitch o
  | none => rfl
  | some s => leavesSwitch_escaped s

end

mutual

theorem stripTrailingBreak_escaped : ∀ ss : List Stmt,
    stripTrailingBreak (allEscaped ss) = allEscaped (stripTrailingBreak ss)
  | [] => rfl
  | [s] => stripBreak_escaped s
  | s :: t :: rest => congrArg (s.escaped :: ·) (stripTrailingBreak_escaped (t :: rest))

theorem stripBreak_escaped : ∀ s : Stmt, stripBreak s.escaped = allEscaped (stripBreak s)
  | block body => by
    rw [escaped, stripBreak, stripBreak, stripTrailingBreak_escaped body]
    rfl
  | expr _ | ifElse .. | whileLoop .. | doWhile .. | forLoop .. | foreach .. | switch ..
  | breakOut | continueLoop | ret _ | raise _ | native _ | constant _ => rfl

end

end Stmt

namespace Field

def escaped (f : Field) : Field :=
  { f with name := escape f.name, value := Expr.optEscaped f.value }

def names (f : Field) : List String := f.name :: Expr.optNames f.value

end Field

namespace Param

def escaped (p : Param) : Param :=
  { p with name := escape p.name, default := Expr.optEscaped p.default }

def names (p : Param) : List String := p.name :: Expr.optNames p.default

end Param

namespace Method

def escaped (m : Method) : Method :=
  { m with
    name := escape m.name
    params := m.params.map (·.escaped)
    body := Stmt.optEscaped m.body }

def names (m : Method) : List String :=
  m.name :: m.params.flatMap (·.names) ++ Stmt.optNames m.body

end Method

namespace Class

def escaped (c : Class) : Class :=
  { c with
    constructor := Stmt.defaultEscaped c.constructor
    constants := c.constants.map (·.escaped)
    fields := c.fields.map (·.escaped)
    methods := c.methods.map (·.escaped) }

def names (c : Class) : List String :=
  c.constants.flatMap (·.names) ++ c.fields.flatMap (·.names) ++
    Stmt.defaultNames c.constructor ++ c.methods.flatMap (·.names)

end Class

def EnumConstant.escaped (c : EnumConstant) : EnumConstant := { c with name := escape c.name }

namespace Enum

def escaped (e : Enum) : Enum := { e with constants := e.constants.map (·.escaped) }

def names (e : Enum) : List String := e.constants.map (·.name)

end Enum

namespace Program

def escaped (p : Program) : Program :=
  { p with classes := p.classes.map (·.escaped), enums := p.enums.map (·.escaped) }

/-- The names that the program declares or refers to, those of classes and enums aside. -/
def names (p : Program) : List String := p.classes.flatMap (·.names) ++ p.enums.flatMap (·.names)

def typeNames (p : Program) : List String :=
  p.classes.flatMap (fun c => c.name :: c.base.toList) ++ p.enums.map (·.name)

end Program

section Lists

variable {α : Type} {f : α → α} {g : α → List String} {h : α → List Facility}

theorem flatMap_names_escaped (each : ∀ a, g (f a) = (g a).map escape) (as : List α) :
    (as.map f).flatMap g = (as.flatMap g).map escape := by
  rw [List.flatMap_map, List.map_flatMap, funext each]

theorem flatMap_facilities_escaped (each : ∀ a, h (f a) = h a) (as : List α) :
    (as.map f).flatMap h = as.flatMap h := by
  rw [List.flatMap_map, funext each]

end Lists

theorem Constant.names_escaped (c : Constant) : c.escaped.names = c.names.map escape :=
  congrArg (escape c.name :: ·) c.value.names_escaped

theorem Field.names_escaped (f : Field) : f.escaped.names = f.names.map escape :=
  congrArg (escape f.name :: ·) (Expr.optNames_escaped f.value)

theorem Field.facilities_escaped (f : Field) : f.escaped.facilities = f.facilities :=
  congrArg (f.ty.facilities ++ ·) (Expr.optFacilities_escaped f.value)

theorem Param.names_escaped (p : Param) : p.escaped.names = p.names.map escape :=
  congrArg (escape p.name :: ·) (Expr.optNames_escaped p.default)

theorem Param.facilities_escaped (p : Param) : p.escaped.facilities = p.facilities :=
  congrArg (p.ty.facilities ++ ·) (Expr.optFacilities_escaped p.default)

theorem Method.names_escaped (m : Method) : m.escaped.names = m.names.map escape := by
  have params := flatMap_names_escaped Param.names_escaped m.params
  simp only [names, escaped, params, Stmt.optNames_escaped, List.map_cons, List.map_append]

theorem Method.facilities_escaped (m : Method) : m.escaped.facilities = m.facilities := by
  have params := flatMap_facilities_escaped Param.facilities_escaped m.params
  simp only [facilities, escaped, params, Stmt.optFacilities_escaped]

theorem Class.names_escaped (c : Class) : c.escaped.names = c.names.map escape := by
  have constants := flatMap_names_escaped Constant.names_escaped c.constants
  have fields := flatMap_names_escaped Field.names_escaped c.fields
  have methods := flatMap_names_escaped Method.names_escaped c.methods
  simp only [names, escaped, constants, fields, Stmt.defaultNames_escaped, methods,
    List.map_append]

theorem Class.facilities_escaped (c : Class) : c.escaped.facilities = c.facilities := by
  have constants := flatMap_facilities_escaped Stmt.constant_facilities_escaped c.constants
  have fields := flatMap_facilities_escaped Field.facilities_escaped c.fields
  have methods := flatMap_facilities_escaped Method.facilities_escaped c.methods
  have constructor : ((Stmt.defaultEscaped c.constructor).map Stmt.allFacilities).getD [] =
      (c.constructor.map Stmt.allFacilities).getD [] := by
    cases c.constructor with
    | none => rfl
    | some body => exact Stmt.allFacilities_escaped body
  simp only [facilities, escaped, constants, fields, constructor, methods]

theorem Class.dependencies_escaped (c : Class) : c.escaped.dependencies = c.dependencies := by
  simp only [dependencies, escaped, List.filterMap_map]
  rfl

theorem Enum.names_escaped (e : Enum) : e.escaped.names = e.names.map escape := by
  simp only [names, escaped, List.map_map]
  rfl

namespace Program

theorem names_escaped (p : Program) : p.escaped.names = p.names.map escape := by
  have classes := flatMap_names_escaped Class.names_escaped p.classes
  have enums := flatMap_names_escaped Enum.names_escaped p.enums
  simp only [names, escaped, classes, enums, List.map_append]

theorem facilities_escaped (p : Program) : p.escaped.facilities = p.facilities := by
  have classes := flatMap_facilities_escaped Class.facilities_escaped p.classes
  exact congrArg ((if p.resources.isEmpty then [] else [.resources]) ++ ·) classes

theorem typeNames_escaped (p : Program) : p.escaped.typeNames = p.typeNames := by
  simp only [typeNames, escaped, List.flatMap_map, List.map_map]
  rfl

end Program

namespace Member

def escaped : Member → Member
  | constructor => constructor
  | destructor => destructor
  | constant i d => constant i d.escaped
  | field i f => field i f.escaped
  | method i m => method i m.escaped

end Member

def VisibilityGroup.escaped (g : VisibilityGroup) : VisibilityGroup :=
  { g with members := g.members.map (·.escaped) }

namespace Class

variable (c : Class) (v : Visibility)

theorem hasDestructor_escaped : c.escaped.hasDestructor = c.hasDestructor := by
  simp only [hasDestructor, declaresVirtualMethods, escaped, List.any_map]
  rfl

theorem membersOf_escaped : c.escaped.membersOf v = (c.membersOf v).map (·.escaped) := by
  have constructor : c.escaped.constructorOf v = (c.constructorOf v).map (·.escaped) := by
    by_cases own : c.kind.constructorVisibility = v <;>
      simp [constructorOf, escaped, own, Member.escaped]
  have destructor : c.escaped.destructorOf v = (c.destructorOf v).map (·.escaped) := by
    by_cases own : v = .published ∧ c.hasDestructor <;>
      simp [destructorOf, hasDestructor_escaped, own, Member.escaped]
  have constants : c.escaped.constantsOf v = (c.constantsOf v).map (·.escaped) := by
    simp only [constantsOf, escaped, List.zipIdx_map, List.filter_map, List.map_map]
    rfl
  have fields : c.escaped.fieldsOf v = (c.fieldsOf v).map (·.escaped) := by
    simp only [fieldsOf, escaped, List.zipIdx_map, List.filter_map, List.map_map]
    rfl
  have methods : c.escaped.methodsOf v = (c.methodsOf v).map (·.escaped) := by
    simp only [methodsOf, escaped, List.zipIdx_map, List.filter_map, List.map_map]
    rfl
  simp only [membersOf, constructor, destructor, constants, fields, methods, List.map_append]

theorem groups_escaped : c.escaped.groups = c.groups.map (·.escaped) := by
  have groups : (Visibility.all.map fun v => (⟨v, c.escaped.membersOf v⟩ : VisibilityGroup)) =
      (Visibility.all.map fun v => ⟨v, c.membersOf v⟩).map VisibilityGroup.escaped := by
    simp only [membersOf_escaped, List.map_map]
    rfl
  have filled (g : VisibilityGroup) : (!g.escaped.members.isEmpty) = !g.members.isEmpty := by
    rw [VisibilityGroup.escaped, List.isEmpty_map]
  rw [Class.groups, Class.groups, groups, List.filter_map]
  exact congrArg _ (List.filter_congr fun g _ => filled g)

end Class

end CppEmission
