import CppEmission.Declaration.Class
import CppEmission.Proofs.Grammar.Reading

namespace CppEmission

open Grammar

def signedNumeral (v : Int64) : String := Int.repr v.toInt

namespace Grammar

def numeralValue? (n : Nat) : Option Int := if n ≤ Int64.maxValue.toInt then some n else none

def integer? : List Token → Option Int
  | [.word "INT64_MIN"] => some Int64.minValue.toInt
  | [.number n] => numeralValue? n
  | [.mark "-", .number n] => (numeralValue? n).map (- ·)
  | _ => none

theorem integer?_number (n : Nat) : integer? [.number n] = numeralValue? n := rfl

theorem integer?_negative (n : Nat) :
    integer? [.mark "-", .number n] = (numeralValue? n).map (- ·) := rfl

def readInteger (text : String) : Option Int := (Token.lex text).bind integer?

theorem lexes_negative (n : Nat) : Lexes ("-" ++ Nat.repr n) [.mark "-", .number n] := by
  obtain ⟨c, cs, hcs⟩ := List.exists_cons_of_ne_nil (@Nat.toDigits_ne_nil n 10)
  have digit : c.isDigit :=
    Nat.isDigit_of_mem_toDigits (b := 10) (n := n) (by decide) (by decide) (by simp [hcs])
  have apart : (extensions "-").all (!·.isDigit) := by decide
  have free : c ∉ extensions "-" := fun mem => by
    simpa [digit] using List.all_eq_true.1 apart c mem
  exact (Lexes.number n).mark_append (by decide) ⟨c, by simp [Nat.toList_repr, hcs], free⟩

end Grammar

structure SpellsInteger (v : Int64) (text : String) : Prop where
  form : text = "INT64_MIN" ∨ text = (if v < 0 then "-" else "") ++ Nat.repr v.toInt.natAbs
  reads : readInteger text = some v.toInt

theorem signedNumeral_eq (v : Int64) :
    signedNumeral v = (if v < 0 then "-" else "") ++ Nat.repr v.toInt.natAbs := by
  have sign : v < 0 ↔ v.toInt < 0 := by simp [Int64.lt_iff_toInt_lt]
  rw [signedNumeral]
  cases h : v.toInt with
  | ofNat n =>
    rw [if_neg (by rw [sign, h]; exact Int.not_lt.2 (Int.natCast_nonneg n)), String.empty_append]
    rfl
  | negSucc n =>
    rw [if_pos (by rw [sign, h]; exact Int.negSucc_lt_zero n)]
    rfl

theorem natAbs_le_iff (v : Int64) : v.toInt.natAbs ≤ Int64.maxValue.toInt ↔ v ≠ Int64.minValue := by
  have range : -2 ^ 63 ≤ v.toInt ∧ v.toInt < 2 ^ 63 := ⟨v.le_toInt, v.toInt_lt⟩
  have greatest : Int64.maxValue.toInt = 2 ^ 63 - 1 := by decide
  have least : Int64.minValue.toInt = -2 ^ 63 := by decide
  rw [ne_eq, ← Int64.toInt_inj, greatest, least]
  omega

theorem readInteger_signedNumeral (v : Int64) :
    readInteger (signedNumeral v) = if v = Int64.minValue then none else some v.toInt := by
  have value : readInteger (signedNumeral v) =
      if v.toInt.natAbs ≤ Int64.maxValue.toInt then some v.toInt else none := by
    rw [signedNumeral, readInteger]
    cases v.toInt with
    | ofNat n =>
      have lexed : Token.lex (Int.repr (.ofNat n)) = some [.number n] := (Lexes.number n).lex_eq
      rw [lexed, Option.bind_some, integer?_number, numeralValue?]
      rfl
    | negSucc n =>
      have lexed : Token.lex (Int.repr (.negSucc n)) = some [.mark "-", .number (n + 1)] :=
        (lexes_negative (n + 1)).lex_eq
      rw [lexed, Option.bind_some, integer?_negative, numeralValue?, apply_ite (Option.map (- ·))]
      rfl
  rw [value]
  by_cases least : v = Int64.minValue
  · rw [if_pos least, if_neg (mt (natAbs_le_iff v).1 (not_not_intro least))]
  · rw [if_neg least, if_pos ((natAbs_le_iff v).2 least)]

theorem spellsInteger_signedNumeral_iff (v : Int64) :
    SpellsInteger v (signedNumeral v) ↔ v ≠ Int64.minValue := by
  constructor
  · rintro ⟨-, reads⟩ rfl
    rw [readInteger_signedNumeral, if_pos rfl] at reads
    cases reads
  · intro other
    exact ⟨.inr (signedNumeral_eq v), by rw [readInteger_signedNumeral, if_neg other]⟩

theorem spellsInteger_integerText (v : Int64) : SpellsInteger v (integerText v) := by
  rw [integerText]
  by_cases least : v = Int64.minValue
  · rw [if_pos least, least]
    exact ⟨.inl rfl, by decide⟩
  · rw [if_neg least]
    exact (spellsInteger_signedNumeral_iff v).2 least

theorem integerText_eq_signedNumeral_iff (v : Int64) :
    integerText v = signedNumeral v ↔ v ≠ Int64.minValue := by
  constructor
  · intro same
    exact (spellsInteger_signedNumeral_iff v).1 (same ▸ spellsInteger_integerText v)
  · exact fun other => if_neg other

theorem integerText_injective : Function.Injective integerText := by
  intro v w same
  have reads := (spellsInteger_integerText v).reads
  rw [same, (spellsInteger_integerText w).reads] at reads
  exact (Int64.toInt_inj.1 (Option.some.inj reads)).symm

theorem signedNumeral_injective : Function.Injective signedNumeral := by
  intro v w same
  have reads := readInteger_signedNumeral v
  rw [same, readInteger_signedNumeral] at reads
  split at reads <;> split at reads
  next hw hv => exact hv.trans hw.symm
  next => cases reads
  next => cases reads
  next => exact (Int64.toInt_inj.1 (Option.some.inj reads)).symm

theorem joined_cons (text : String) (after : List String) :
    joined (text :: after) = text ++ String.join (after.map (", " ++ ·)) := by
  induction after generalizing text with
  | nil => simp [joined]
  | cons next after ih =>
    have rest := ih next
    rw [joined] at rest ⊢
    rw [String.intercalate_cons_cons, rest]
    simp [String.append_assoc]

theorem joined_append_cons (before : List String) (text : String) (after : List String) :
    joined (before ++ text :: after) =
      String.join (before.map (· ++ ", ")) ++ text ++ String.join (after.map (", " ++ ·)) := by
  induction before with
  | nil => simpa using joined_cons text after
  | cons first before ih =>
    rw [joined] at ih ⊢
    rw [List.cons_append, String.intercalate_cons_of_ne_nil (by simp), ih]
    simp [String.append_assoc]

theorem Enum.line_eq (enum name : String) (v : Int64) (before after : List EnumConstant) :
    (Enum.mk enum (before ++ ⟨name, some v⟩ :: after)).line =
      "enum class " ++ enum ++ " \x7b " ++ String.join (before.map (·.text ++ ", ")) ++
        (Keyword.escape name ++ " = " ++ signedNumeral v) ++
        String.join (after.map (", " ++ ·.text)) ++ " \x7d;" := by
  have text : (EnumConstant.mk name (some v)).text =
      Keyword.escape name ++ " = " ++ signedNumeral v := String.append_assoc.symm
  have some_constants : (before ++ EnumConstant.mk name (some v) :: after).isEmpty = false := by
    simp
  rw [Enum.line, some_constants, List.map_append, List.map_cons, joined_append_cons, text]
  simp [String.append_assoc, Function.comp_def]

/-- A literal is the name of the least integer or a numeral with its sign, and is read as the
integer that it is written for. The value of a constant stands in the declaration of its enum in the
same text, but for the least integer: its numeral is out of range and is not read at all. On either
side no other integer has the text. -/
theorem integers_spelled_alike_iff (v : Int64) :
    (∀ ty, (Literal.int v).text ty = .ok (integerText v)) ∧
      (∀ enum name before after, (Enum.mk enum (before ++ ⟨name, some v⟩ :: after)).line =
        "enum class " ++ enum ++ " \x7b " ++ String.join (before.map (·.text ++ ", ")) ++
          (Keyword.escape name ++ " = " ++ signedNumeral v) ++
          String.join (after.map (", " ++ ·.text)) ++ " \x7d;") ∧
      SpellsInteger v (integerText v) ∧
      (integerText v = signedNumeral v ↔ v ≠ Int64.minValue) ∧
      (SpellsInteger v (signedNumeral v) ↔ v ≠ Int64.minValue) ∧
      (∀ w, integerText w = integerText v ↔ w = v) ∧
      ∀ w, signedNumeral w = signedNumeral v ↔ w = v :=
  ⟨fun _ => rfl, fun enum name => Enum.line_eq enum name v, spellsInteger_integerText v,
    integerText_eq_signedNumeral_iff v, spellsInteger_signedNumeral_iff v,
    fun _ => integerText_injective.eq_iff, fun _ => signedNumeral_injective.eq_iff⟩

/-- The least integer is a literal under its name, and the value of a constant as a numeral that no
integer of 64 bits has. -/
theorem least_enum_constant_out_of_range :
    (Literal.int Int64.minValue).text (.int .i64) = .ok "INT64_MIN" ∧
      (Enum.mk "Bound" [⟨"Low", some Int64.minValue⟩]).line =
        "enum class Bound \x7b Low = -9223372036854775808 \x7d;" ∧
      Token.lex "-9223372036854775808" = some [.mark "-", .number 9223372036854775808] ∧
      readInteger "-9223372036854775808" = none :=
  ⟨rfl, by decide, by decide, by decide⟩

end CppEmission
