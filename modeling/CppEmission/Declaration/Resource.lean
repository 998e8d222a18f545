import CppEmission.Phrase.OfExpr
import CppEmission.Script

namespace CppEmission

def Resource.identifier (r : Resource) : String := resourceIdentifier r.name

def byteText (b : UInt8) : String :=
  String.ofList ['0', 'x', Nat.digitChar (b.toNat / 16), Nat.digitChar (b.toNat % 16)]

def byteRows : List UInt8 → List (List UInt8)
  | [] => []
  | b :: rest => (b :: rest).take 16 :: byteRows ((b :: rest).drop 16)
termination_by bytes => bytes.length
decreasing_by
  rw [List.length_drop, List.length_cons]
  omega

def withCommas : List String → List String
  | [] => []
  | [line] => [line]
  | line :: next :: rest => (line ++ ",") :: withCommas (next :: rest)

def byteLines (bytes : List UInt8) : List String :=
  withCommas ((byteRows bytes).map fun row => joined (row.map byteText))

namespace Script

def lines (texts : List String) : Script := ⟨texts.map .line, none⟩

def resourceDeclaration (identifier : String) (length : Nat) : Script :=
  line ("extern const uint8_t " ++ identifier ++ "[" ++ Nat.repr length ++ "];")

def resourceDefinition (identifier : String) (bytes : List UInt8) : Script :=
  openBlock ("const uint8_t " ++ identifier ++ "[" ++ Nat.repr bytes.length ++ "] =") ++
    lines (byteLines bytes) ++ op (.closeBlockWith "\x7d;")

end Script

/-- In the order of their names, each resource has bytes, and its identifier is not `claimed` by
one before it. -/
def checkResources (claimed : List (String × String)) : List Resource → Except EmitError Unit
  | [] => .ok ()
  | r :: rest =>
    if r.bytes.isEmpty then .error (.refused (.emptyResource r.name) (.resource r.name))
    else match claimed.lookup r.identifier with
      | some previous =>
        .error (.refused (.sharedIdentifier previous r.name r.identifier) (.resource r.name))
      | none => checkResources ((r.identifier, r.name) :: claimed) rest

namespace Program

def sortedResources (p : Program) : List Resource :=
  p.resources.mergeSort fun r s => r.name ≤ s.name

def embeddable (p : Program) : Except EmitError (List Resource) := do
  checkResources [] p.sortedResources
  return p.sortedResources

end Program

end CppEmission
