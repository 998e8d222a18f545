import CppEmission.Program

namespace CppEmission

inductive Member
  | constructor
  | destructor
  | constant (place : Nat) (decl : Constant)
  | field (place : Nat) (decl : Field)
  | method (place : Nat) (decl : Method)

structure VisibilityGroup where
  visibility : Visibility
  members : List Member

def ClassKind.constructorVisibility : ClassKind → Visibility
  | normal | sealed => .published
  | abstract => .inherited
  | static => .hidden

namespace Class

/-- The root of a hierarchy with dynamic dispatch is destroyed by dynamic dispatch too. -/
def hasDestructor (c : Class) : Bool := c.base.isNone && c.declaresVirtualMethods

def constructorOf (c : Class) (v : Visibility) : List Member :=
  if c.kind.constructorVisibility = v then [.constructor] else []

def destructorOf (c : Class) (v : Visibility) : List Member :=
  if v = .published ∧ c.hasDestructor then [.destructor] else []

def constantsOf (c : Class) (v : Visibility) : List Member :=
  (c.constants.zipIdx.filter (·.1.visibility = v)).map fun (d, i) => .constant i d

def fieldsOf (c : Class) (v : Visibility) : List Member :=
  (c.fields.zipIdx.filter (·.1.visibility = v)).map fun (d, i) => .field i d

def methodsOf (c : Class) (v : Visibility) : List Member :=
  (c.methods.zipIdx.filter (·.1.visibility = v)).map fun (d, i) => .method i d

def membersOf (c : Class) (v : Visibility) : List Member :=
  c.constructorOf v ++ c.destructorOf v ++ c.constantsOf v ++ c.fieldsOf v ++ c.methodsOf v

def groups (c : Class) : List VisibilityGroup :=
  (Visibility.all.map fun v => ⟨v, c.membersOf v⟩).filter (!·.members.isEmpty)

end Class

end CppEmission
