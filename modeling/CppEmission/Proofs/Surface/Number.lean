import CppEmission.Proofs.Inline.Text
import CppEmission.Proofs.Surface.Lexer

namespace CppEmission.Surface

open Grammar Decimal

namespace Token

def isFigure (c : Char) : Bool := c.isDigit || c == '.' || c == 'f'

def Runs (c : Char) (cs : List Char) (last : Char) : Prop :=
  ∀ rest, numberRun c (cs ++ rest) = cs ++ numberRun last rest

namespace Runs

theorem append {c d e : Char} {cs ds : List Char} (h : Runs c cs d) (h' : Runs d ds e) :
    Runs c (cs ++ ds) e := by
  intro rest
  rw [List.append_assoc, h, h', List.append_assoc]

theorem figures {cs : List Char} (h : cs.all isFigure) (c : Char) : Runs c cs (cs.getLastD c) := by
  refine numberRun_append fun d hd => ?_
  have figure := List.all_eq_true.1 h d hd
  simp only [isFigure, Bool.or_eq_true, beq_iff_eq] at figure
  rcases figure with (digit | rfl) | rfl
  · simp [isNumberChar, isWordChar, digit]
  · rfl
  · rfl

theorem exponent : Runs 'e' ['-'] '-' := fun _ => rfl

end Runs

theorem not_exponent_of_isFigure {c : Char} (h : isFigure c) : c ≠ 'e' ∧ c ≠ 'E' := by
  refine ⟨?_, ?_⟩ <;> rintro rfl <;> cases h

theorem isFigure_getLastD {cs : List Char} (h : cs.all isFigure) {c : Char} (hc : isFigure c) :
    isFigure (cs.getLastD c) := by
  cases last : cs.getLast? with
  | none => simpa [List.getLastD_eq_getLast?, last] using hc
  | some d =>
    have mem : d ∈ cs := List.mem_of_mem_getLast? last
    simpa [List.getLastD_eq_getLast?, last] using List.all_eq_true.1 h d mem

namespace IsNumber

variable {text exponent : String}

theorem figures (first : text.toList.head?.any Char.isDigit) (h : text.toList.all isFigure) :
    IsNumber text := by
  cases hcs : text.toList with
  | nil => simp [hcs] at first
  | cons c cs =>
    rw [hcs] at first h
    obtain ⟨hc, hcs'⟩ : isFigure c ∧ cs.all isFigure := by simpa using h
    exact ⟨c, cs, _, hcs, by simpa using first,
      not_exponent_of_isFigure (isFigure_getLastD hcs' hc), Runs.figures hcs' c⟩

theorem scientific {sign : String} (hsign : sign = "" ∨ sign = "-")
    (first : text.toList.head?.any Char.isDigit) (h : text.toList.all isFigure)
    (nonempty : exponent ≠ "") (hexponent : exponent.toList.all isFigure) :
    IsNumber (text ++ "e" ++ sign ++ exponent) := by
  cases hcs : text.toList with
  | nil => simp [hcs] at first
  | cons c cs =>
    rw [hcs] at first h
    obtain ⟨hc, hcs'⟩ : isFigure c ∧ cs.all isFigure := by simpa using h
    obtain ⟨d, ds, hds⟩ := List.exists_cons_of_ne_nil (mt String.toList_eq_nil_iff.1 nonempty)
    rw [hds] at hexponent
    obtain ⟨hd, hds'⟩ : isFigure d ∧ ds.all isFigure := by simpa using hexponent
    have letter (c : Char) : Runs c ['e'] 'e' := fun _ => rfl
    have front := (Runs.figures hcs' c).append (letter _)
    have back (c : Char) : Runs c (d :: ds) (ds.getLastD d) := by
      simpa only [List.getLastD_cons] using Runs.figures hexponent c
    have last := not_exponent_of_isFigure (isFigure_getLastD hds' hd)
    rcases hsign with rfl | rfl
    · exact ⟨c, _, _, by simp [hcs, hds], by simpa using first, last, front.append (back _)⟩
    · exact ⟨c, _, _, by simp [hcs, hds], by simpa using first, last,
        (front.append Runs.exponent).append (back _)⟩

end IsNumber

end Token

open Token (isFigure IsNumber)

theorem all_isFigure_repr (n : Nat) : (Nat.repr n).toList.all isFigure := by
  rw [Nat.toList_repr, List.all_eq_true]
  intro c hc
  have digit : c.isDigit := Nat.isDigit_of_mem_toDigits (by decide) (by decide) hc
  simp [isFigure, digit]

theorem head_repr (n : Nat) : (Nat.repr n).toList.head?.any Char.isDigit := by
  obtain ⟨c, cs, hcs⟩ := List.exists_cons_of_ne_nil (@Nat.toDigits_ne_nil n 10)
  have digit : c.isDigit :=
    Nat.isDigit_of_mem_toDigits (b := 10) (n := n) (by decide) (by decide) (by simp [hcs])
  simp [Nat.toList_repr, hcs, digit]

theorem isNumber_repr (n : Nat) : IsNumber (Nat.repr n) :=
  .figures (head_repr n) (all_isFigure_repr n)

theorem all_isFigure_sublist {cs ds : List Char} (h : ds.all isFigure) (sub : cs.Sublist ds) :
    cs.all isFigure := by
  rw [List.all_eq_true] at h ⊢
  exact fun c hc => h c (sub.mem hc)

theorem all_isFigure_zeros (n : Nat) : (zeros n).toList.all isFigure := by
  simp [zeros, isFigure]

variable {digits suffix : String}

theorem isNumber_scientific (first : digits.toList.head?.any Char.isDigit)
    (h : digits.toList.all isFigure) (hs : suffix.toList.all isFigure) (exponent : Int) :
    IsNumber (scientific digits exponent ++ suffix) := by
  have lead := all_isFigure_sublist h (List.take_sublist 1 _)
  have others := all_isFigure_sublist h (List.drop_sublist 1 _)
  have front : ∃ text, scientific digits exponent = text ++ "e" ++ Int.repr exponent ∧
      text.toList.head?.any Char.isDigit ∧ text.toList.all isFigure := by
    refine ⟨_, rfl, ?_, ?_⟩
    · cases hcs : digits.toList with
      | nil => simp [hcs] at first
      | cons c cs => simpa [hcs] using first
    · split <;> simp_all [isFigure]
  obtain ⟨text, whole, first, figures⟩ := front
  have exp (n : Nat) : (Nat.repr n ++ suffix).toList.all isFigure := by
    rw [String.toList_append, List.all_append, all_isFigure_repr, hs]
    rfl
  have nonempty (n : Nat) : Nat.repr n ++ suffix ≠ "" := by
    simp
  rw [whole]
  cases exponent with
  | ofNat n =>
    have number := IsNumber.scientific (.inl rfl) first figures (nonempty n) (exp n)
    rwa [String.append_empty, ← String.append_assoc] at number
  | negSucc n =>
    have number := IsNumber.scientific (.inr rfl) first figures (nonempty (n + 1)) (exp (n + 1))
    have signed : text ++ "e" ++ Int.repr (.negSucc n) ++ suffix =
        text ++ "e" ++ "-" ++ (Nat.repr (n + 1) ++ suffix) := by
      simp [Int.repr, ← String.toList_inj]
    rwa [signed]

theorem isNumber_pointed (first : digits.toList.head?.any Char.isDigit)
    (h : digits.toList.all isFigure) (hs : suffix.toList.all isFigure) (n : Nat) :
    IsNumber (pointed digits (n + 1) ++ suffix) := by
  have lead := all_isFigure_sublist h (List.take_sublist (n + 1) _)
  have others := all_isFigure_sublist h (List.drop_sublist (n + 1) _)
  have zero := all_isFigure_zeros (n + 1 - digits.length)
  cases hcs : digits.toList with
  | nil => simp [hcs] at first
  | cons c cs =>
    rw [pointed]
    refine .figures ?_ ?_
    · split <;> simpa [hcs] using first
    · split
      · rw [String.toList_append, String.toList_append, String.toList_append, List.all_append,
          List.all_append, List.all_append, h, zero, hs]
        decide
      · simp_all [isFigure]

theorem isNumber_text (layout : Decimal.Layout) (s : Shortest) (hs : suffix.toList.all isFigure) :
    IsNumber (s.text layout ++ suffix) := by
  have first := head_repr s.digits
  have figures := all_isFigure_repr s.digits
  simp only [Shortest.text]
  split
  · exact .figures (by simp) (by simp_all [isFigure])
  split
  · exact isNumber_scientific first figures hs _
  split
  · have zero := all_isFigure_zeros (-(s.exponent + (Nat.repr s.digits).length - 1) - 1).toNat
    refine .figures (by simp) ?_
    simp_all [isFigure]
  · exact isNumber_pointed first figures hs _

end CppEmission.Surface
