namespace CppEmission

/-- A text that grows line by line at a level of indentation. -/
structure Writer where
  buffer : String := ""
  level : Nat := 0
  indentWidth : Nat := 4
  deriving DecidableEq

namespace Writer

inductive Op
  | line (text : String)
  | raw (text : String)
  | blankLine
  | indent
  | dedent
  | outdentedLine (text : String)
  | openBlock (header : String)
  | closeBlockWith (closing : String)
  deriving DecidableEq

def Op.closeBlock : Op := .closeBlockWith "\x7d"

def blockHeader (header : String) : String :=
  if header.isEmpty then "\x7b" else header ++ " \x7b"

def margin (width level : Nat) : String := String.ofList (List.replicate (level * width) ' ')

def terminated (text : String) : String :=
  if text.toList.getLast? = some '\n' then text else text ++ "\n"

def writeLine (text : String) (w : Writer) : Writer :=
  { w with buffer := w.buffer ++ margin w.indentWidth w.level ++ text ++ "\n" }

def indented (w : Writer) : Writer := { w with level := w.level + 1 }

def dedented (w : Writer) : Writer := { w with level := w.level - 1 }

def step (w : Writer) : Op → Writer
  | .line text => w.writeLine text
  | .raw text => { w with buffer := w.buffer ++ terminated text }
  | .blankLine => { w with buffer := w.buffer ++ "\n" }
  | .indent => w.indented
  | .dedent => w.dedented
  | .outdentedLine text => (w.dedented.writeLine text).indented
  | .openBlock header => (w.writeLine (blockHeader header)).indented
  | .closeBlockWith closing => w.dedented.writeLine closing

def run (w : Writer) (ops : List Op) : Writer := ops.foldl step w

@[simp] theorem run_nil (w : Writer) : w.run [] = w := rfl

@[simp] theorem run_cons (w : Writer) (op : Op) (ops : List Op) :
    w.run (op :: ops) = (w.step op).run ops := rfl

theorem run_append (w : Writer) (s t : List Op) : w.run (s ++ t) = (w.run s).run t := by
  simp [run]

end Writer

end CppEmission
