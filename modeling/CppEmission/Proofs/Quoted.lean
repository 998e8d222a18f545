import CppEmission.Quoted
import Mathlib.Data.List.Chain
import Mathlib.Data.List.TakeWhile

/-! What a string literal is read as. Every escape is read as the character that it was written for,
but for that of a NUL, which takes octal digits behind it for its own. -/

namespace CppEmission.Quoted

def isOctalDigit (c : Char) : Bool := '0' ≤ c && c ≤ '7'

def simple? : Char → Option Char
  | '"' => some '"'
  | '\'' => some '\''
  | '?' => some '?'
  | '\\' => some '\\'
  | 'a' => some '\x07'
  | 'b' => some '\x08'
  | 'f' => some '\x0c'
  | 'n' => some '\n'
  | 'r' => some '\r'
  | 't' => some '\t'
  | 'v' => some '\x0b'
  | _ => none

def digitRun (most : Nat) (cs : List Char) : List Char := (cs.take most).takeWhile isOctalDigit

def ofDigits (ds : List Char) : Char := Char.ofNat (Nat.ofDigitChars 8 ds 0)

def readEscape : List Char → Option (Char × List Char)
  | [] => none
  | c :: cs =>
    if isOctalDigit c then
      some (ofDigits (c :: digitRun 2 cs), cs.drop (digitRun 2 cs).length)
    else (simple? c).map (·, cs)

theorem readEscape_shorter {cs rest : List Char} {c : Char} (h : readEscape cs = some (c, rest)) :
    rest.length < cs.length := by
  cases cs with
  | nil => cases h
  | cons d cs =>
    rw [readEscape] at h
    split at h
    · cases h
      rw [List.length_drop, List.length_cons]
      omega
    · obtain ⟨_, -, ⟨⟩⟩ := Option.map_eq_some_iff.1 h
      exact Nat.lt_succ_self _

/-- The text of a literal from what follows the opening quote, and what follows the closing one. A
literal ends on the line it begins on. -/
def readBody (cs : List Char) : Option (List Char × List Char) :=
  match cs with
  | [] => none
  | c :: cs =>
    if c = '"' then some ([], cs)
    else if c = '\n' then none
    else if c = '\\' then
      match _h : readEscape cs with
      | none => none
      | some (d, rest) => (readBody rest).map fun (s, rest) => (d :: s, rest)
    else (readBody cs).map fun (s, rest) => (c :: s, rest)
termination_by cs.length
decreasing_by
  · exact Nat.lt_succ_of_lt (readEscape_shorter _h)
  · exact Nat.lt_succ_self _

def read : List Char → Option (List Char × List Char)
  | '"' :: cs => readBody cs
  | _ => none

theorem readBody_quote (cs : List Char) : readBody ('"' :: cs) = some ([], cs) := by
  rw [readBody]; rfl

theorem readBody_escape {cs rest : List Char} {c : Char} (h : readEscape cs = some (c, rest)) :
    readBody ('\\' :: cs) = (readBody rest).map fun (s, rest) => (c :: s, rest) := by
  rw [readBody, if_neg (by decide), if_neg (by decide), if_pos rfl]
  split
  · next none => cases none.symm.trans h
  · next some => cases some.symm.trans h; rfl

theorem readBody_plain {c : Char} (quote : c ≠ '"') (line : c ≠ '\n') (back : c ≠ '\\')
    (cs : List Char) : readBody (c :: cs) = (readBody cs).map fun (s, rest) => (c :: s, rest) := by
  rw [readBody, if_neg quote, if_neg line, if_neg back]

theorem toNat_octalDigit (n : Nat) : (octalDigit n).toNat = 48 + n % 8 :=
  (by decide : ∀ d < 8, (Char.ofNat (48 + d)).toNat = 48 + d) _ (Nat.mod_lt _ (by decide))

theorem isOctalDigit_octalDigit (n : Nat) : isOctalDigit (octalDigit n) = true :=
  (by decide : ∀ d < 8, isOctalDigit (Char.ofNat (48 + d)) = true) _ (Nat.mod_lt _ (by decide))

theorem ofDigits_octal {n : Nat} (h : n < 512) : ofDigits (octal n) = Char.ofNat n := by
  have value : Nat.ofDigitChars 8 (octal n) 0 = n := by
    simp only [octal, Nat.ofDigitChars, List.foldl, toNat_octalDigit, Char.reduceToNat]
    omega
  rw [ofDigits, value]

theorem digitRun_of_not_isOctalDigit {c : Char} (h : isOctalDigit c = false) (most : Nat)
    (cs : List Char) : digitRun most (c :: cs) = [] := by
  cases most with
  | zero => rfl
  | succ most => simp [digitRun, h]

theorem digitRun_of_isOctalDigit {c : Char} (h : isOctalDigit c = true) (most : Nat)
    (cs : List Char) : digitRun (most + 1) (c :: cs) = c :: digitRun most cs := by
  simp [digitRun, h]

theorem readEscape_octal {n : Nat} (h : n < 512) (cs : List Char) :
    readEscape (octal n ++ cs) = some (Char.ofNat n, cs) := by
  have run : digitRun 2 (octalDigit (n / 8) :: octalDigit n :: cs) =
      [octalDigit (n / 8), octalDigit n] := by
    simp [digitRun, isOctalDigit_octalDigit]
  rw [octal, List.cons_append, List.cons_append, List.cons_append, List.nil_append, readEscape,
    if_pos (isOctalDigit_octalDigit _), run, ← ofDigits_octal h]
  rfl

theorem escapeChar_eq_self {c : Char} (quote : c ≠ '"') (back : c ≠ '\\') (code : 32 ≤ c.toNat)
    (delete : c.toNat ≠ 127) : escapeChar c = [c] := by
  have control {d : Char} (h : d.toNat < 32) : c ≠ d := by
    rintro rfl
    omega
  rw [escapeChar, if_neg quote, if_neg back, if_neg (control (by decide)),
    if_neg (control (by decide)), if_neg (control (by decide)), if_neg (by omega),
    if_neg (by omega)]

theorem escapeChar_of_isOctalDigit {c : Char} (h : isOctalDigit c = true) : escapeChar c = [c] := by
  simp only [isOctalDigit, Bool.and_eq_true, decide_eq_true_eq] at h
  have low : 48 ≤ c.toNat := h.1
  have high : c.toNat ≤ 55 := h.2
  have other {d : Char} (h : d.toNat < 48 ∨ 55 < d.toNat) : c ≠ d := by
    rintro rfl
    omega
  exact escapeChar_eq_self (other (by decide)) (other (by decide)) (by omega) (by omega)

theorem head_escapeChar (c : Char) : escapeChar c = [c] ∨ ∃ tail, escapeChar c = '\\' :: tail := by
  rw [escapeChar]
  split_ifs
  iterate 7 exact .inr ⟨_, rfl⟩
  exact .inl rfl

theorem digitRun_escape (most : Nat) (s rest : List Char) :
    digitRun most (escape s ++ '"' :: rest) = digitRun most s := by
  induction s generalizing most with
  | nil =>
    rw [escape, List.nil_append, digitRun_of_not_isOctalDigit rfl]
    cases most <;> rfl
  | cons c s ih =>
    rw [escape, List.append_assoc]
    cases digit : isOctalDigit c with
    | true =>
      rw [escapeChar_of_isOctalDigit digit]
      cases most with
      | zero => rfl
      | succ most =>
        rw [digitRun_of_isOctalDigit digit, ← ih, List.singleton_append,
          digitRun_of_isOctalDigit digit]
    | false =>
      rw [digitRun_of_not_isOctalDigit digit]
      obtain self | ⟨tail, back⟩ := head_escapeChar c
      · rw [self, List.singleton_append, digitRun_of_not_isOctalDigit digit]
      · rw [back, List.cons_append, digitRun_of_not_isOctalDigit rfl]

theorem digitRun_isPrefix (most : Nat) (cs : List Char) : digitRun most cs <+: cs :=
  ( List.takeWhile_prefix _).trans ( List.take_prefix _ _)

theorem drop_escape {s : List Char} {n : Nat} (digits : ∀ c ∈ s.take n, isOctalDigit c = true)
    (within : n ≤ s.length) (rest : List Char) :
    (escape s ++ rest).drop n = escape (s.drop n) ++ rest := by
  induction n generalizing s with
  | zero => rfl
  | succ n ih =>
    cases s with
    | nil => cases within
    | cons c s =>
      rw [List.take_succ_cons, List.forall_mem_cons] at digits
      rw [escape, escapeChar_of_isOctalDigit digits.1, List.append_assoc, List.singleton_append,
        List.drop_succ_cons, List.drop_succ_cons]
      exact ih digits.2 (Nat.le_of_succ_le_succ within)

theorem drop_digitRun_escape (most : Nat) (s rest : List Char) :
    (escape s ++ rest).drop (digitRun most s).length =
      escape (s.drop (digitRun most s).length) ++ rest := by
  have isPrefix := digitRun_isPrefix most s
  refine drop_escape (fun c h => ?_) isPrefix.length_le rest
  rw [← List.prefix_iff_eq_take.1 isPrefix] at h
  exact List.mem_takeWhile_imp h

theorem readBody_escapeChar {c : Char} (h : c ≠ '\x00') (cs : List Char) :
    readBody (escapeChar c ++ cs) = (readBody cs).map fun (s, rest) => (c :: s, rest) := by
  have code : c.toNat ≠ 0 := fun zero => h (by rw [← Char.ofNat_toNat c, zero])
  rw [escapeChar]
  split_ifs with quote back line carriage tab octals
  · subst quote; exact readBody_escape rfl
  · subst back; exact readBody_escape rfl
  · subst line; exact readBody_escape rfl
  · subst carriage; exact readBody_escape rfl
  · subst tab; exact readBody_escape rfl
  · have read := readBody_escape (readEscape_octal (n := c.toNat) (by omega) cs)
    rwa [Char.ofNat_toNat] at read
  · exact readBody_plain quote line back cs

def meant : List Char → List Char
  | [] => []
  | c :: cs =>
    if c = '\x00' then ofDigits ('0' :: digitRun 2 cs) :: meant (cs.drop (digitRun 2 cs).length)
    else c :: meant cs
termination_by cs => cs.length
decreasing_by
  · rw [List.length_drop, List.length_cons]; omega
  · exact Nat.lt_succ_self _

theorem readBody_escape_quote (s rest : List Char) :
    readBody (escape s ++ '"' :: rest) = some (meant s, rest) := by
  induction s using meant.induct with
  | case1 => rw [meant]; exact readBody_quote rest
  | case2 cs ih =>
    have read : readEscape ('0' :: (escape cs ++ '"' :: rest)) =
        some (ofDigits ('0' :: digitRun 2 cs),
          escape (cs.drop (digitRun 2 cs).length) ++ '"' :: rest) := by
      rw [readEscape, if_pos (by decide), digitRun_escape, drop_digitRun_escape]
    show readBody ('\\' :: '0' :: (escape cs ++ '"' :: rest)) = _
    rw [readBody_escape read, ih, meant, if_pos rfl]
    rfl
  | case3 c cs other ih =>
    rw [escape, List.append_assoc, readBody_escapeChar other, ih, meant, if_neg other]
    rfl

theorem length_meant_le (s : List Char) : (meant s).length ≤ s.length := by
  induction s using meant.induct with
  | case1 => rw [meant]
  | case2 cs ih =>
    rw [meant, if_pos rfl, List.length_cons, List.length_cons]
    rw [List.length_drop] at ih
    omega
  | case3 c cs other ih =>
    rw [meant, if_neg other, List.length_cons, List.length_cons]
    exact Nat.succ_le_succ ih

/-- The first character does not take the second for a digit of its own escape. -/
def Apart (c d : Char) : Prop := c = '\x00' → isOctalDigit d = false

theorem digitRun_eq_nil_iff (most : Nat) (cs : List Char) :
    digitRun (most + 1) cs = [] ↔ ∀ d ∈ cs.head?, isOctalDigit d = false := by
  cases cs with
  | nil => simp [digitRun]
  | cons c cs => simp [digitRun]

theorem meant_eq_self_iff (s : List Char) : meant s = s ↔ s.IsChain Apart := by
  induction s using meant.induct with
  | case1 => simp [meant]
  | case2 cs ih =>
    rw [meant, if_pos rfl, List.isChain_cons]
    by_cases clear : ∀ d ∈ cs.head?, isOctalDigit d = false
    · rw [(digitRun_eq_nil_iff 1 cs).2 clear, List.length_nil, List.drop_zero] at ih ⊢
      rw [show ofDigits ['0'] = '\x00' from rfl, List.cons_inj_right, ih]
      exact (and_iff_right fun d h _ => clear d h).symm
    · -- The run is not empty, and what it holds is missing from the text.
      have taken : 0 < (digitRun 2 cs).length :=
        List.length_pos_iff.2 (mt (digitRun_eq_nil_iff 1 cs).1 clear)
      refine iff_of_false (fun same => ?_) fun chain => clear fun d h => chain.1 d h rfl
      have length := congrArg List.length same
      have short := length_meant_le (cs.drop (digitRun 2 cs).length)
      have within := (digitRun_isPrefix 2 cs).length_le
      rw [List.length_drop] at short
      rw [List.length_cons, List.length_cons] at length
      omega
  | case3 c cs other ih =>
    rw [meant, if_neg other, List.cons_inj_right, ih, List.isChain_cons]
    exact (and_iff_right fun _ _ nul => absurd nul other).symm

theorem read_quote (text : String) (rest : List Char) :
    read ((quote text).toList ++ rest) = some (meant text.toList, rest) := by
  rw [quote, String.toList_ofList, List.append_assoc, List.singleton_append]
  exact readBody_escape_quote text.toList rest

/-- A text is read from its literal, which ends at the closing quote, exactly when no NUL in it stands
directly before an octal digit. -/
theorem read_quote_iff (text : String) (rest : List Char) :
    read ((quote text).toList ++ rest) = some (text.toList, rest) ↔ text.toList.IsChain Apart := by
  rw [read_quote, ← meant_eq_self_iff]
  simp

/-- A NUL before a `1` is read as U+0001. -/
theorem read_quote_nul_one :
    read (quote "\x001").toList = some (['\x01'], []) := by
  have read := read_quote "\x001" []
  rw [List.append_nil] at read
  rw [read, show "\x001".toList = ['\x00', '1'] from rfl, meant, if_pos rfl]
  simp [digitRun, isOctalDigit, meant]
  rfl

end CppEmission.Quoted
