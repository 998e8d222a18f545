namespace CppEmission

inductive IntKind
  | i8 | i16 | i32 | i64
  | u8 | u16 | u32 | u64
  deriving DecidableEq

namespace IntKind

def bits : IntKind → Nat
  | i8 | u8 => 8
  | i16 | u16 => 16
  | i32 | u32 => 32
  | i64 | u64 => 64

def isSigned : IntKind → Bool
  | i8 | i16 | i32 | i64 => true
  | u8 | u16 | u32 | u64 => false

def isNarrow (k : IntKind) : Bool := k.bits < 32

def widens (source target : IntKind) : Bool :=
  if source.isSigned = target.isSigned then source.bits ≤ target.bits
  else !source.isSigned && source.bits < target.bits

def display (k : IntKind) : String := (if k.isSigned then "i" else "u") ++ Nat.repr k.bits

end IntKind

inductive StringShape
  | view
  | storage
  deriving DecidableEq

inductive Handle
  | readOnly
  | mutable
  | shared
  deriving DecidableEq

namespace Handle

def isBorrow : Handle → Bool
  | readOnly | mutable => true
  | shared => false

def display : Handle → String
  | readOnly => ""
  | mutable => "!"
  | shared => "#"

def name : Handle → String
  | readOnly => "ReadOnly"
  | mutable => "Mutable"
  | shared => "Shared"

end Handle

inductive Ownership
  | value
  | ptr (handle : Handle)
  deriving DecidableEq

def Ownership.name : Ownership → String
  | value => "Value"
  | ptr h => "Ptr(" ++ h.name ++ ")"

inductive ArrayShape
  | storage (length : Nat)
  | pointer (handle : Handle)
  deriving DecidableEq

def ArrayShape.name : ArrayShape → String
  | storage n => "Storage \x7b len: " ++ Nat.repr n ++ " \x7d"
  | pointer h => "Pointer(" ++ h.name ++ ")"

inductive Ty
  | null
  | bool
  | int (kind : IntKind)
  | float
  | double
  | string (shape : StringShape)
  | array (elem : Ty) (shape : ArrayShape)
  | object (className : String) (held : Ownership)
  | enum (name : String)
  | list (elem : Ty)
  | map (key value : Ty)
  deriving DecidableEq

namespace Ty

def isString : Ty → Bool
  | string _ => true
  | _ => false

def isNumeric : Ty → Bool
  | int _ | float | double => true
  | _ => false

def handle? : Ty → Option Handle
  | object _ (.ptr h) => some h
  | array _ (.pointer h) => some h
  | _ => none

def embedded? : Ty → Option String
  | object c .value => some c
  | array elem (.storage _) => elem.embedded?
  | _ => none

def elem? : Ty → Option Ty
  | list elem | array elem _ => some elem
  | _ => none

/-- Types that a variable without an explicit value leaves indeterminate unless it is followed by
an empty initializer; class types, strings, containers and shared handles construct themselves. -/
def needsInitializer : Ty → Bool
  | bool | int _ | float | double | enum _ => true
  | array _ (.storage _) => true
  | array _ (.pointer h) => h.isBorrow
  | object _ (.ptr h) => h.isBorrow
  | _ => false

def display : Ty → String
  | null => "null"
  | bool => "bool"
  | int k => k.display
  | float => "float"
  | double => "double"
  | string .view => "string"
  | string .storage => "string()"
  | array elem (.storage n) => elem.display ++ "[" ++ Nat.repr n ++ "]"
  | array elem (.pointer h) => elem.display ++ "[]" ++ h.display
  | object c .value => c ++ "()"
  | object c (.ptr h) => c ++ h.display
  | enum e => e
  | list elem => "List<" ++ elem.display ++ ">"
  | map key value => "SortedDictionary<" ++ key.display ++ ", " ++ value.display ++ ">"

end Ty

end CppEmission
