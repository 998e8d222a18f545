import CppEmission.Writer

namespace CppEmission

structure Settings where
  enclosing : Option String := none
  interfaceFile : String := "output.hpp"
  indentWidth : Nat := 4
  banner : String := "Generated automatically with \"ember\". Do not edit."
  deriving DecidableEq

def Settings.writer (s : Settings) : Writer := { indentWidth := s.indentWidth }

def lineComment (text : String) : String := "// " ++ text

end CppEmission
