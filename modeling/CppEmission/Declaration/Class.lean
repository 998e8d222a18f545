import CppEmission.Declaration.Line
import CppEmission.Member
import CppEmission.Script

namespace CppEmission

def Visibility.access : Visibility → String
  | published | internal => "public"
  | inherited => "protected"
  | hidden => "private"

namespace Class

def header (c : Class) : String :=
  "class " ++ c.name ++ (if c.kind = .sealed then " final" else "") ++
    (c.base.map (" : public " ++ ·)).getD ""

def forwardLine (c : Class) : String := "class " ++ c.name ++ ";"

def constructorLine (c : Class) : String :=
  c.name ++ "()" ++
    (if c.isStatic then " = delete" else if c.constructor.isSome then "" else " = default") ++ ";"

def destructorLine (c : Class) : String := "virtual ~" ++ c.name ++ "() = default;"

def constructorHeader (c : Class) : String := c.name ++ "::" ++ c.name ++ "()"

end Class

def accessLabel (access : String) : Script := .op (.outdentedLine (access ++ ":"))

def closeClass : Script := .op (.closeBlockWith "\x7d;")

def EnumConstant.text (c : EnumConstant) : String :=
  Keyword.escape c.name ++ (c.value.map fun v => " = " ++ Int.repr v.toInt).getD ""

def Enum.line (e : Enum) : String :=
  "enum class " ++ e.name ++
    (if e.constants.isEmpty then " \x7b\x7d;"
      else " \x7b " ++ joined (e.constants.map (·.text)) ++ " \x7d;")

end CppEmission
