import CppEmission.Stmt

namespace CppEmission

inductive ClassKind
  | normal
  | static
  | abstract
  | sealed
  deriving DecidableEq

inductive MethodKind
  | static
  | normal
  | abstract
  | virtual
  | override
  | sealed
  deriving DecidableEq

def MethodKind.isVirtual : MethodKind → Bool
  | abstract | virtual => true
  | _ => false

structure Field where
  name : String
  ty : Ty
  value : Option Expr := none
  visibility : Visibility := .published
  isStatic : Bool := false

structure Param where
  name : String
  ty : Ty
  default : Option Expr := none

structure Method where
  name : String
  kind : MethodKind := .normal
  returnTy : Option Ty := none
  mutates : Bool := false
  params : List Param := []
  body : Option Stmt := none
  visibility : Visibility := .published
  span : Span := {}

def Method.isStatic (m : Method) : Bool := m.kind = .static

def Method.isAbstract (m : Method) : Bool := m.kind = .abstract

structure Class where
  name : String
  base : Option String := none
  kind : ClassKind := .normal
  constructor : Option (List Stmt) := none
  constants : List Constant := []
  fields : List Field := []
  methods : List Method := []
  span : Span := {}

def Class.isStatic (c : Class) : Bool := c.kind = .static

def Class.declaresVirtualMethods (c : Class) : Bool := c.methods.any (·.kind.isVirtual)

structure EnumConstant where
  name : String
  value : Option Int64 := none
  deriving DecidableEq

structure Enum where
  name : String
  constants : List EnumConstant := []
  deriving DecidableEq

structure Resource where
  name : String
  bytes : List UInt8
  deriving DecidableEq

def Resource.insert (r : Resource) (rs : List Resource) : List Resource :=
  rs.filter (·.name ≠ r.name) ++ [r]

structure Program where
  classes : List Class := []
  enums : List Enum := []
  resources : List Resource := []
  natives : List String := []

namespace Program

def class? (p : Program) (name : String) : Option Class := p.classes.find? (·.name == name)

def hasResource (p : Program) (name : String) : Bool := p.resources.any (·.name == name)

def withResource (p : Program) (r : Resource) : Program :=
  { p with resources := r.insert p.resources }

theorem mem_of_class? {p : Program} {name : String} {c : Class} (h : p.class? name = some c) :
    c ∈ p.classes ∧ c.name = name :=
  ⟨List.mem_of_find?_eq_some h, by simpa using List.find?_some h⟩

end Program

end CppEmission
