import CppEmission.Decimal.Shortest
import CppEmission.Quoted
import CppEmission.Refusal

namespace CppEmission

def IntKind.spelling : IntKind → String
  | i8 => "int8_t"
  | i16 => "int16_t"
  | i32 => "int32_t"
  | i64 => "int64_t"
  | u8 => "uint8_t"
  | u16 => "uint16_t"
  | u32 => "uint32_t"
  | u64 => "uint64_t"

def Ownership.spelling (className : String) : Ownership → String
  | value => className
  | ptr .readOnly => "const " ++ className ++ " *"
  | ptr .mutable => className ++ " *"
  | ptr .shared => "std::shared_ptr<" ++ className ++ ">"

def ArrayShape.spelling (elem : String) : ArrayShape → String
  | storage n => "std::array<" ++ elem ++ ", " ++ Nat.repr n ++ ">"
  | pointer .readOnly => "const " ++ elem ++ " *"
  | pointer .mutable => elem ++ " *"
  | pointer .shared => "std::shared_ptr<" ++ elem ++ "[]>"

namespace Ty

/-- The name of a type. The keys of a map own their text, whatever the shape of their strings: a
view would outlive the buffer it looks into. -/
def spelling : Ty → Except Refusal String
  | null => .error .nullType
  | bool => .ok "bool"
  | int k => .ok k.spelling
  | float => .ok "float"
  | double => .ok "double"
  | string .view => .ok "std::string_view"
  | string .storage => .ok "std::string"
  | array elem shape => elem.spelling.map shape.spelling
  | object c held => .ok (held.spelling c)
  | enum e => .ok e
  | list elem => elem.spelling.map fun t => "std::vector<" ++ t ++ ">"
  | map key value => do
    let k ← if key.isString then .ok "std::string" else key.spelling
    let v ← value.spelling
    return "std::map<" ++ k ++ ", " ++ v ++ ">"

def promoted : Ty → Except Refusal String
  | int k => .ok (if k.isNarrow then "int" else k.spelling)
  | t => t.spelling

def initializer (t : Ty) : String := if t.needsInitializer then "\x7b\x7d" else ""

end Ty

/-- An integer. The least one has no numeral, since a minus sign applies to a literal that would
be out of range. -/
def integerText (v : Int64) : String :=
  if v = Int64.minValue then "INT64_MIN" else Int.repr v.toInt

def Literal.text (ty : Ty) : Literal → Except Refusal String
  | null => .ok "nullptr"
  | bool b => .ok (if b then "true" else "false")
  | int v => .ok (integerText v)
  | float v =>
    if v.isFinite then .ok (if ty = .float then v.text ++ "f" else v.text)
    else .error (.nonFinite v)
  | string s => .ok (Quoted.quote s)

end CppEmission
