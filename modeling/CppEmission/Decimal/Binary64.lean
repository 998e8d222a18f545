namespace CppEmission.Decimal

structure Binary64 where
  bits : UInt64
  deriving DecidableEq

namespace Binary64

def isNegative (v : Binary64) : Bool := v.bits.toNat >>> 63 = 1

def exponentField (v : Binary64) : Nat := v.bits.toNat >>> 52 % 2048

def leadingBit : Nat := 1 <<< 52

def fraction (v : Binary64) : Nat := v.bits.toNat % leadingBit

def isFinite (v : Binary64) : Bool := v.exponentField ≠ 2047

def isNaN (v : Binary64) : Bool := v.exponentField = 2047 && v.fraction ≠ 0

def isZero (v : Binary64) : Bool := v.exponentField = 0 && v.fraction = 0

def significand (v : Binary64) : Nat :=
  if v.exponentField = 0 then v.fraction else leadingBit + v.fraction

def scale (v : Binary64) : Nat := v.exponentField - 1

def lowerGapIsHalf (v : Binary64) : Bool := v.fraction = 0 && v.exponentField > 1

def nonFiniteName (v : Binary64) : String :=
  if v.isNaN then "NaN" else if v.isNegative then "-inf" else "inf"

end Binary64

end CppEmission.Decimal
