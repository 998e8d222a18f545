namespace CppEmission.Quoted

def octalDigit (n : Nat) : Char := Char.ofNat (48 + n % 8)

/-- Three octal digits, so that no digit of the text that follows is read with them. -/
def octal (n : Nat) : List Char := [octalDigit (n / 64), octalDigit (n / 8), octalDigit n]

def escapeChar (c : Char) : List Char :=
  if c = '"' then ['\\', '"']
  else if c = '\\' then ['\\', '\\']
  else if c = '\n' then ['\\', 'n']
  else if c = '\r' then ['\\', 'r']
  else if c = '\t' then ['\\', 't']
  else if c.toNat = 0 then ['\\', '0']
  else if c.toNat < 32 ∨ c.toNat = 127 then '\\' :: octal c.toNat
  else [c]

def escape : List Char → List Char
  | [] => []
  | c :: rest => escapeChar c ++ escape rest

def quote (text : String) : String := String.ofList ('"' :: escape text.toList ++ ['"'])

end CppEmission.Quoted
