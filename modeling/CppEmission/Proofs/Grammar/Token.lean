import CppEmission.Keyword

namespace CppEmission.Grammar

inductive Token
  | word (text : String)
  | number (value : Nat)
  | mark (text : String)
  deriving DecidableEq

def isWordStart (c : Char) : Bool := c.isAlpha || c == '_' || 127 < c.toNat

def isWordChar (c : Char) : Bool := isWordStart c || c.isDigit

def isNumberChar (c : Char) : Bool := isWordChar c || c == '.'

def marks : List String :=
  ["%:%:", "...", "<=>", "<<=", ">>=", "->*",
    "++", "--", "&&", "||", "==", "!=", "<=", ">=", "<<", ">>", "+=", "-=", "*=", "/=", "%=", "&=",
    "|=", "^=", "->", ".*", "::", "##", "//", "/*", "<:", ":>", "<%", "%>", "%:",
    "(", ")", "[", "]", "\x7b", "\x7d", "?", ":", ";", ",", ".", "=", "+", "-", "*", "/", "%", "&",
    "|", "^", "~", "!", "<", ">", "#"]

def numeral? (digits : List Char) : Option Nat :=
  if digits.all Char.isDigit ∧ (digits.head? = some '0' → digits = ['0']) then
    some (Nat.ofDigitChars 10 digits 0)
  else none

def longestMark? (cs : List Char) : Option String :=
  marks.find? fun m => m.toList.isPrefixOf cs

namespace Token

def first? : List Char → Option (Token × Nat)
  | [] => none
  | c :: rest =>
    if isWordStart c then
      let text := (c :: rest).takeWhile isWordChar
      some (.word (String.ofList text), text.length)
    else if c.isDigit then
      let text := (c :: rest).takeWhile isNumberChar
      (numeral? text).map fun n => (.number n, text.length)
    else (longestMark? (c :: rest)).map fun m => (.mark m, m.toList.length)

def scan : (skip : Nat) → List Char → Option (List Token)
  | _, [] => some []
  | skip + 1, _ :: rest => scan skip rest
  | 0, c :: rest =>
    if c.isWhitespace then scan 0 rest
    else match first? (c :: rest) with
      | some (t, length) => (scan (length - 1) rest).map (t :: ·)
      | none => none

def lex (text : String) : Option (List Token) := scan 0 text.toList

end Token

def isIdentifier (name : String) : Bool :=
  match name.toList with
  | [] => false
  | c :: rest => isWordStart c && rest.all isWordChar && !Keyword.isReserved name

def extensions (m : String) : List Char :=
  marks.filterMap fun l =>
    if m.toList.isPrefixOf l.toList then l.toList[m.toList.length]? else none

theorem marks_sorted : marks.Pairwise fun l m => m.toList.length ≤ l.toList.length := by
  decide

theorem mem_extensions {m l : String} {c : Char} (hl : l ∈ marks)
    (h : m.toList ++ [c] <+: l.toList) : c ∈ extensions m := by
  obtain ⟨rest, hrest⟩ := h
  refine List.mem_filterMap.2 ⟨l, hl, ?_⟩
  simp [← hrest]

theorem prefix_of_longer {l m : String} {rest : List Char} (hl : l ∈ marks)
    (h : l.toList <+: m.toList ++ rest) (hrest : ∀ c ∈ rest.head?, c ∉ extensions m) :
    l.toList <+: m.toList := by
  rcases List.prefix_or_prefix_of_prefix h (List.prefix_append m.toList rest) with h' | ⟨tail, ht⟩
  · exact h'
  · rw [← ht, List.prefix_append_right_inj] at h
    obtain ⟨more, rfl⟩ := h
    cases tail with
    | nil => simp [← ht]
    | cons c tail =>
      have longer : m.toList ++ [c] <+: l.toList := ⟨tail, by simp [← ht]⟩
      exact absurd (mem_extensions hl longer) (hrest c rfl)

theorem longestMark?_append {m : String} {rest : List Char} (hm : m ∈ marks)
    (hrest : ∀ c ∈ rest.head?, c ∉ extensions m) :
    longestMark? (m.toList ++ rest) = some m := by
  have isPrefix : m.toList.isPrefixOf (m.toList ++ rest) = true := by simp
  obtain ⟨l, hl⟩ : ∃ l, longestMark? (m.toList ++ rest) = some l :=
    Option.isSome_iff_exists.1 (List.find?_isSome.2 ⟨m, hm, isPrefix⟩)
  obtain ⟨hpre, front, back, hmarks, hfront⟩ := List.find?_eq_some_iff_append.1 hl
  have hlm : l.toList <+: m.toList :=
    prefix_of_longer (List.mem_of_find?_eq_some hl) (by simpa using hpre) hrest
  have sorted := marks_sorted
  rw [hmarks] at hm sorted
  rcases List.mem_append.1 hm with h | h
  · have notPrefix := hfront m h
    simp [isPrefix] at notPrefix
  rcases List.mem_cons.1 h with rfl | h
  · exact hl
  · have shorter : m.toList.length ≤ l.toList.length :=
      List.rel_of_pairwise_cons (List.pairwise_append.1 sorted).2.1 h
    rw [hl, String.toList_inj.1 (hlm.eq_of_length_le shorter)]

def Delimits (rest : List Char) : Prop := ∀ c ∈ rest.head?, isNumberChar c = false

theorem Delimits.not_isWordChar {rest : List Char} (h : Delimits rest) :
    ∀ c ∈ rest.head?, isWordChar c = false := by
  intro c hc
  have := h c hc
  simp_all [isNumberChar]

theorem takeWhile_append {p : Char → Bool} {text rest : List Char} (ht : ∀ c ∈ text, p c)
    (hrest : ∀ c ∈ rest.head?, p c = false) : (text ++ rest).takeWhile p = text := by
  rw [List.takeWhile_append_of_pos ht]
  cases rest with
  | nil => simp
  | cons c rest => simp [hrest c rfl]

theorem isWordChar_of_isIdentifier {name : String} (h : isIdentifier name) :
    ∀ c ∈ name.toList, isWordChar c := by
  simp only [isIdentifier] at h
  split at h
  · simp at h
  next c cs hcs =>
    simp only [Bool.and_eq_true, List.all_eq_true] at h
    rw [hcs]
    intro d hd
    rcases List.mem_cons.1 hd with rfl | hd
    · simp [isWordChar, h.1.1]
    · exact h.1.2 d hd

theorem isAlpha_of_isDigit {c : Char} (h : c.isDigit) : c.isAlpha = false := by
  have high : c.toNat ≤ 57 := (Char.isDigit_iff_toNat.1 h).2
  refine Bool.eq_false_iff.2 fun letter => ?_
  rcases Bool.or_eq_true_iff.1 letter with upper | lower
  · have low : 65 ≤ c.toNat := (of_decide_eq_true upper).1
    omega
  · have low : 97 ≤ c.toNat := of_decide_eq_true (Bool.and_eq_true_iff.1 lower).1
    omega

theorem isWordStart_of_isDigit {c : Char} (h : c.isDigit) : isWordStart c = false := by
  have high : c.toNat ≤ 57 := (Char.isDigit_iff_toNat.1 h).2
  have underscore : c ≠ '_' := by
    rintro rfl
    simp at h
  simp [isWordStart, isAlpha_of_isDigit h, underscore]
  omega

theorem isWhitespace_eq_false {p : Char → Bool} {c : Char}
    (hp : [' ', '\t', '\r', '\n'].any p = false) (h : p c) : c.isWhitespace = false := by
  refine Bool.eq_false_iff.2 fun blank => ?_
  have mem : c ∈ [' ', '\t', '\r', '\n'] := by
    simpa [Char.isWhitespace, or_assoc] using blank
  exact List.any_eq_false.1 hp c mem h

theorem head_of_mem_marks {m : String} (hm : m ∈ marks) : ∃ c cs, m.toList = c :: cs ∧
    isWordStart c = false ∧ c.isDigit = false ∧ c.isWhitespace = false := by
  have starts : ∀ m ∈ marks, m.toList.head?.any
      (fun c => !isWordStart c && !c.isDigit && !c.isWhitespace) := by decide
  obtain ⟨c, hc, h⟩ := (Option.any_eq_true _ _).1 (starts m hm)
  obtain ⟨cs, hcs⟩ := List.head?_eq_some_iff.1 hc
  exact ⟨c, cs, hcs, by simpa [and_assoc] using h⟩

theorem toDigits_of_head_zero (n : Nat) (h : (Nat.toDigits 10 n).head? = some '0') : n = 0 := by
  induction n using Nat.strongRecOn with
  | ind n ih =>
    by_cases small : n < 10
    · rw [Nat.toDigits_of_lt_base small] at h
      simpa using h
    · obtain ⟨c, cs, hcs⟩ := List.exists_cons_of_ne_nil (@Nat.toDigits_ne_nil (n / 10) 10)
      rw [Nat.toDigits_of_base_le (by decide) (by omega), hcs] at h
      have := ih (n / 10) (by omega) (by simpa [hcs] using h)
      omega

theorem numeral?_toDigits (n : Nat) : numeral? (Nat.toDigits 10 n) = some n := by
  have digits : (Nat.toDigits 10 n).all Char.isDigit := by
    simpa using fun c hc => Nat.isDigit_of_mem_toDigits (by decide) (by decide) hc
  have lead : (Nat.toDigits 10 n).head? = some '0' → Nat.toDigits 10 n = ['0'] := by
    intro h
    rw [toDigits_of_head_zero n h, Nat.toDigits_zero]
  simp only [numeral?, digits, true_and]
  rw [if_pos lead, Nat.ofDigitChars_ten_toDigits]

namespace Token

theorem scan_eq_drop (n : Nat) (cs : List Char) : scan n cs = scan 0 (cs.drop n) := by
  induction cs generalizing n with
  | nil => cases n <;> rfl
  | cons c cs ih =>
    cases n with
    | zero => rfl
    | succ n => simp [scan, ih n]

theorem scan_append {c : Char} {text rest : List Char} {t : Token}
    (hc : c.isWhitespace = false)
    (h : first? (c :: text ++ rest) = some (t, (c :: text).length)) :
    scan 0 (c :: text ++ rest) = (scan 0 rest).map (t :: ·) := by
  rw [List.cons_append] at h ⊢
  simp [scan, hc, h, scan_eq_drop text.length]

theorem scan_mark {m : String} {rest : List Char} (hm : m ∈ marks)
    (hrest : ∀ c ∈ rest.head?, c ∉ extensions m) :
    scan 0 (m.toList ++ rest) = (scan 0 rest).map (.mark m :: ·) := by
  have longest := longestMark?_append hm hrest
  obtain ⟨c, cs, hcs, hword, hdigit, hblank⟩ := head_of_mem_marks hm
  rw [hcs] at longest ⊢
  apply scan_append hblank
  rw [List.cons_append] at longest ⊢
  simp [first?, hword, hdigit, longest, hcs]

theorem scan_word {c : Char} {cs rest : List Char} (hc : isWordStart c)
    (hcs : ∀ d ∈ cs, isWordChar d) (hrest : Delimits rest) :
    scan 0 (c :: cs ++ rest) = (scan 0 rest).map (.word (String.ofList (c :: cs)) :: ·) := by
  have all : ∀ d ∈ c :: cs, isWordChar d := by
    simpa [isWordChar, hc] using hcs
  have text := takeWhile_append all hrest.not_isWordChar
  apply scan_append (isWhitespace_eq_false (by decide) hc)
  rw [List.cons_append] at text ⊢
  simp [first?, hc, text]

theorem scan_number {rest : List Char} (n : Nat) (hrest : Delimits rest) :
    scan 0 ((Nat.repr n).toList ++ rest) = (scan 0 rest).map (.number n :: ·) := by
  have digits : ∀ c ∈ Nat.toDigits 10 n, c.isDigit := fun c hc =>
    Nat.isDigit_of_mem_toDigits (by decide) (by decide) hc
  have numeral := numeral?_toDigits n
  rw [Nat.toList_repr]
  cases h : Nat.toDigits 10 n with
  | nil => exact absurd h Nat.toDigits_ne_nil
  | cons c cs =>
    rw [h] at digits numeral
    have digit : c.isDigit := digits c (by simp)
    have all : ∀ d ∈ c :: cs, isNumberChar d := fun d hd => by
      simp [isNumberChar, isWordChar, digits d hd]
    have text := takeWhile_append all hrest
    apply scan_append (isWhitespace_eq_false (by decide) digit)
    rw [List.cons_append] at text ⊢
    simp [first?, isWordStart_of_isDigit digit, digit, text, numeral]

end Token

end CppEmission.Grammar
