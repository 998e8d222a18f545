import CppEmission.Decimal.Binary64

namespace CppEmission.Decimal

structure Interval where
  low : Nat
  value : Nat
  high : Nat
  step : Nat
  closed : Bool

namespace Interval

def Contains (i : Interval) (n : Nat) : Prop :=
  if i.closed then i.low ≤ n ∧ n ≤ i.high else i.low < n ∧ n < i.high

instance (i : Interval) (n : Nat) : Decidable (i.Contains n) :=
  inferInstanceAs (Decidable (if i.closed then _ else _))

def gridPoint? (i : Interval) : Option Nat :=
  let below := i.value / i.step
  let above := below + 1
  if i.Contains (above * i.step) then
    if i.Contains (below * i.step) ∧ i.value - below * i.step < above * i.step - i.value then
      some below
    else some above
  else if i.Contains (below * i.step) then some below
  else none

end Interval

def Binary64.interval (v : Binary64) (exponent : Int) : Interval :=
  let unit := Nat.pow 10 (-exponent).toNat <<< v.scale
  let m := 4 * v.significand
  { low := (m - if v.lowerGapIsHalf then 1 else 2) * unit
    value := m * unit
    high := (m + 2) * unit
    step := Nat.pow 10 exponent.toNat <<< 1076
    closed := v.significand % 2 = 0 }

structure Shortest where
  digits : Nat
  exponent : Int

def Binary64.shortestBelow (v : Binary64) (high : Int) : Nat → Option Shortest
  | 0 => none
  | count + 1 =>
    match (v.interval (high - 1)).gridPoint? with
    | some digits => some ⟨digits, high - 1⟩
    | none => v.shortestBelow (high - 1) count

/-- The decimal number with the fewest digits that rounds to the value, nearest to it among
those. No double reaches `10 ^ 309`, and the finest grid needed is that of `10 ^ (-324)`. -/
def Binary64.shortest (v : Binary64) : Shortest :=
  if v.isZero then ⟨0, 0⟩ else (v.shortestBelow 310 640).getD ⟨0, 0⟩

structure Layout where
  positionalFrom : Int
  scientificFrom : Int

def literalLayout : Layout := ⟨-4, 16⟩

def zeros (n : Nat) : String := String.ofList (List.replicate n '0')

def pointed (digits : String) (n : Nat) : String :=
  if digits.length ≤ n then digits ++ zeros (n - digits.length) ++ ".0"
  else String.ofList (digits.toList.take n) ++ "." ++ String.ofList (digits.toList.drop n)

def scientific (digits : String) (exponent : Int) : String :=
  let tail := digits.toList.drop 1
  String.ofList (digits.toList.take 1) ++
    (if tail.isEmpty then "" else "." ++ String.ofList tail) ++ "e" ++ Int.repr exponent

def Shortest.text (layout : Layout) (s : Shortest) : String :=
  let digits := Nat.repr s.digits
  let first := s.exponent + digits.length - 1
  if s.digits = 0 then "0.0"
  else if first < layout.positionalFrom ∨ layout.scientificFrom ≤ first then scientific digits first
  else if first < 0 then "0." ++ zeros (-first - 1).toNat ++ digits
  else pointed digits (first.toNat + 1)

/-- The text of a finite value: its sign, that of zero included, and its shortest decimal. -/
def Binary64.text (v : Binary64) : String :=
  (if v.isNegative then "-" else "") ++ v.shortest.text literalLayout

end CppEmission.Decimal
