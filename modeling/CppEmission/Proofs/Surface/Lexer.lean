import CppEmission.Proofs.Grammar.Token
import CppEmission.Proofs.Surface.Derivation
import CppEmission.Quoted

namespace CppEmission.Surface

open Grammar

namespace Token

def literalWords : List String := ["this", "nullptr", "true", "false"]

def templates : List String :=
  ["static_cast<", "std::min<", "std::max<", "std::make_shared<", "std::array<", "std::vector<",
    "std::map<"]

def nameRun : List Char → List Char
  | ':' :: ':' :: c :: rest =>
    if isWordStart c then ':' :: ':' :: c :: nameRun rest else []
  | c :: rest => if isWordChar c then c :: nameRun rest else []
  | [] => []

def argumentRun : (depth : Nat) → List Char → Option (List Char)
  | _, [] => none
  | depth, c :: rest =>
    if c = '<' then (argumentRun (depth + 1) rest).map (c :: ·)
    else if c = '>' then
      if depth ≤ 1 then some [c] else (argumentRun (depth - 1) rest).map (c :: ·)
    else (argumentRun depth rest).map (c :: ·)

def numberRun (last : Char) : List Char → List Char
  | [] => []
  | c :: rest =>
    if isNumberChar c || ((c == '+' || c == '-') && (last == 'e' || last == 'E')) then
      c :: numberRun c rest
    else []

def quotedRun (quote : Char) : List Char → Option (List Char)
  | [] => none
  | '\\' :: c :: rest => (quotedRun quote rest).map ('\\' :: c :: ·)
  | c :: rest =>
    if c = '\n' then none
    else if c = quote then some [c]
    else (quotedRun quote rest).map (c :: ·)

def text : Token String → String
  | name x => x
  | literal s => s
  | mark s => s

def first? : List Char → Option (Token String)
  | [] => none
  | c :: rest =>
    if isWordStart c then
      let word := String.ofList (c :: nameRun rest)
      let behind := rest.drop (nameRun rest).length
      if behind.head? = some '<' ∧ word ++ "<" ∈ templates then
        (argumentRun 0 behind).map fun args => name (word ++ String.ofList args)
      else if word ∈ literalWords then some (literal word)
      else if Keyword.isReserved word then none
      else some (name word)
    else if c.isDigit then some (literal (String.ofList (c :: numberRun c rest)))
    else if c = '"' ∨ c = '\'' then
      (quotedRun c rest).map fun run => literal (String.ofList (c :: run))
    else (longestMark? (c :: rest)).map mark

def scan : (skip : Nat) → List Char → Option (List (Token String))
  | _, [] => some []
  | skip + 1, _ :: rest => scan skip rest
  | 0, c :: rest =>
    if c.isWhitespace then scan 0 rest
    else match first? (c :: rest) with
      | some t => (scan (t.text.toList.length - 1) rest).map (t :: ·)
      | none => none

def lex (text : String) : Option (List (Token String)) := scan 0 text.toList

def EndsBefore (rest : List Char) : Token String → Prop
  | name _ => ∀ c ∈ rest.head?, isWordChar c = false ∧ c ≠ ':' ∧ c ≠ '<'
  | literal s => ∀ c ∈ rest.head?, isWordChar c = false ∧ c ≠ ':' ∧
      (s.toList.head?.any Char.isDigit → c ≠ '.')
  | mark m => ∀ c ∈ rest.head?, c ∉ extensions m

structure Readable (t : Token String) : Prop where
  lead : ∃ c cs, t.text.toList = c :: cs ∧ c.isWhitespace = false
  read : ∀ rest, t.EndsBefore rest → first? (t.text.toList ++ rest) = some t

theorem scan_eq_drop (n : Nat) (cs : List Char) : scan n cs = scan 0 (cs.drop n) := by
  induction cs generalizing n with
  | nil => cases n <;> rfl
  | cons c cs ih =>
    cases n with
    | zero => rfl
    | succ n => simp [scan, ih n]

theorem Readable.scan_append {t : Token String} (h : t.Readable) {rest : List Char}
    (hrest : t.EndsBefore rest) :
    scan 0 (t.text.toList ++ rest) = (scan 0 rest).map (t :: ·) := by
  obtain ⟨c, cs, hcs, blank⟩ := h.lead
  have read := h.read rest hrest
  rw [hcs, List.cons_append] at read ⊢
  simp [scan, blank, read, hcs, scan_eq_drop cs.length]

def Stops (rest : List Char) : Prop := ∀ c ∈ rest.head?, isWordChar c = false ∧ c ≠ ':'

theorem nameRun_stops {rest : List Char} (h : Stops rest) : nameRun rest = [] := by
  cases rest with
  | nil => rfl
  | cons c rest =>
    obtain ⟨notWord, notColon⟩ := h c rfl
    rw [nameRun, if_neg (by simp [notWord])]
    exact fun _ _ colon => absurd colon notColon

theorem nameRun_word {c : Char} (h : isWordChar c) (rest : List Char) :
    nameRun (c :: rest) = c :: nameRun rest := by
  rw [nameRun, if_pos h]
  rintro _ _ rfl
  cases h

theorem nameRun_words {cs : List Char} (h : ∀ c ∈ cs, isWordChar c) (rest : List Char) :
    nameRun (cs ++ rest) = cs ++ nameRun rest := by
  induction cs with
  | nil => rfl
  | cons c cs ih =>
    obtain ⟨hc, hcs⟩ := List.forall_mem_cons.1 h
    rw [List.cons_append, nameRun_word hc, ih hcs, List.cons_append]

theorem nameRun_append {cs rest : List Char} (h : nameRun cs = cs) (hrest : Stops rest) :
    nameRun (cs ++ rest) = cs := by
  fun_induction nameRun cs with
  | case1 d cs start ih =>
    simp only [List.cons.injEq, true_and] at h
    simp [nameRun, start, ih h]
  | case2 => cases h
  | case3 c cs notQualifier word ih =>
    simp only [List.cons.injEq, true_and] at h
    rw [List.cons_append, nameRun_word word, ih h]
  | case4 => cases h
  | case5 => exact nameRun_stops hrest

def isName (text : String) : Bool :=
  match text.toList with
  | [] => false
  | c :: cs => isWordStart c && nameRun cs == cs && !Keyword.isReserved text

theorem isName_of_isIdentifier {x : String} (h : isIdentifier x) : isName x := by
  simp only [isIdentifier] at h
  rw [isName]
  split at h
  · cases h
  next c cs hcs =>
    simp only [Bool.and_eq_true, List.all_eq_true] at h
    have run := nameRun_words h.1.2 []
    rw [List.append_nil] at run
    simp [hcs, h, run, nameRun]

theorem isReserved_of_mem {x : String} (h : ':' ∈ x.toList) : Keyword.isReserved x = false := by
  refine Bool.eq_false_iff.2 fun reserved => ?_
  have letters := (Keyword.reserved_spelling x (List.contains_iff_mem.1 reserved)).1
  exact absurd (List.all_eq_true.1 letters ':' h) (by decide)

theorem isName_qualified {c x : String} (hc : isIdentifier c) (hx : isIdentifier x) :
    isName (c ++ "::" ++ x) := by
  have qualifier := isWordChar_of_isIdentifier hc
  have member := isWordChar_of_isIdentifier hx
  have free : Keyword.isReserved (c ++ "::" ++ x) = false := isReserved_of_mem (by simp)
  simp only [isIdentifier] at hc hx
  split at hc
  · cases hc
  next d ds hds =>
  split at hx
  · cases hx
  next e es hes =>
    simp only [Bool.and_eq_true] at hc hx
    rw [hds] at qualifier
    rw [hes] at member
    have text : (c ++ "::" ++ x).toList = d :: (ds ++ ':' :: ':' :: e :: es) := by simp [hds, hes]
    have tail := nameRun_words (List.forall_mem_cons.1 member).2 []
    have run : nameRun (ds ++ ':' :: ':' :: e :: es) = ds ++ ':' :: ':' :: e :: es := by
      rw [nameRun_words (List.forall_mem_cons.1 qualifier).2, nameRun, if_pos hx.1.1]
      simpa [nameRun] using tail
    simp only [isName, text, hc.1.1, run, free]
    simp

theorem stops_of_endsBefore {x : String} {rest : List Char} (h : (name x).EndsBefore rest) :
    Stops rest := fun c hc => ⟨(h c hc).1, (h c hc).2.1⟩

theorem literalWords_reserved : ∀ s ∈ literalWords, Keyword.isReserved s := by decide

theorem first?_word {c : Char} {cs rest : List Char} (hc : isWordStart c) (hcs : nameRun cs = cs)
    (hrest : Stops rest) : first? (c :: (cs ++ rest)) =
      if rest.head? = some '<' ∧ String.ofList (c :: cs) ++ "<" ∈ templates then
        (argumentRun 0 rest).map fun args => name (String.ofList (c :: cs) ++ String.ofList args)
      else if String.ofList (c :: cs) ∈ literalWords then some (literal (String.ofList (c :: cs)))
      else if Keyword.isReserved (String.ofList (c :: cs)) then none
      else some (name (String.ofList (c :: cs))) := by
  rw [first?, if_pos hc, nameRun_append hcs hrest]
  simp

theorem isWhitespace_of_isWordStart {c : Char} (h : isWordStart c) : c.isWhitespace = false :=
  isWhitespace_eq_false (by decide) h

namespace Readable

theorem name {x : String} (h : isName x) : (Token.name x).Readable := by
  rw [isName] at h
  split at h
  · cases h
  next c cs hcs =>
    simp only [Bool.and_eq_true, beq_iff_eq, Bool.not_eq_true'] at h
    obtain ⟨⟨start, run⟩, free⟩ := h
    have whole : String.ofList (c :: cs) = x := by rw [← hcs, String.ofList_toList]
    refine ⟨⟨c, cs, hcs, isWhitespace_of_isWordStart start⟩, fun rest hrest => ?_⟩
    have notBracket : rest.head? ≠ some '<' := fun bracket => (hrest _ bracket).2.2 rfl
    have notLiteral : x ∉ literalWords := fun mem => by simp [literalWords_reserved x mem] at free
    show first? (x.toList ++ rest) = _
    rw [hcs, List.cons_append, first?_word start run (stops_of_endsBefore hrest), whole]
    simp [notBracket, notLiteral, free]

theorem word {s : String} (h : s ∈ literalWords) : (Token.literal s).Readable := by
  have words : ∀ s ∈ literalWords, s ++ "<" ∉ templates ∧
      s.toList.head?.any isWordStart ∧ nameRun (s.toList.drop 1) = s.toList.drop 1 := by decide
  obtain ⟨notTemplate, start, run⟩ := words s h
  obtain ⟨c, cs, hcs⟩ : ∃ c cs, s.toList = c :: cs := by
    cases hs : s.toList with
    | nil => simp [hs] at start
    | cons c cs => exact ⟨c, cs, rfl⟩
  rw [hcs] at start run
  have whole : String.ofList (c :: cs) = s := by rw [← hcs, String.ofList_toList]
  refine ⟨⟨c, cs, hcs, isWhitespace_of_isWordStart (by simpa using start)⟩, fun rest hrest => ?_⟩
  have stops : Stops rest := fun c hc => ⟨(hrest c hc).1, (hrest c hc).2.1⟩
  show first? (s.toList ++ rest) = _
  rw [hcs, List.cons_append, first?_word (by simpa using start) (by simpa using run) stops, whole]
  simp [notTemplate, h]

end Readable

def Balanced (text : String) : Prop := ∀ depth rest,
  argumentRun (depth + 1) (text.toList ++ rest) =
    (argumentRun (depth + 1) rest).map (text.toList ++ ·)

def isBracket (c : Char) : Bool := c == '<' || c == '>'

namespace Balanced

variable {s t : String}

theorem append (hs : Balanced s) (ht : Balanced t) : Balanced (s ++ t) := by
  intro depth rest
  rw [String.toList_append, List.append_assoc, hs, ht, Option.map_map]
  simp [Function.comp_def]

theorem plain (h : s.toList.all (!isBracket ·)) : Balanced s := by
  intro depth rest
  revert h
  generalize s.toList = cs
  intro h
  induction cs with
  | nil => simp
  | cons c cs ih =>
    simp only [List.all_cons, Bool.and_eq_true] at h
    have notOpen : c ≠ '<' := by
      rintro rfl
      simp [isBracket] at h
    have notClose : c ≠ '>' := by
      rintro rfl
      simp [isBracket] at h
    rw [List.cons_append, argumentRun, if_neg notOpen, if_neg notClose, ih h.2, Option.map_map]
    rfl

theorem arguments (hs : s.toList.dropLast.all (!isBracket ·))
    (bracket : s.toList.getLast? = some '<') (ht : Balanced t) : Balanced (s ++ t ++ ">") := by
  intro depth rest
  obtain ⟨cs, hcs⟩ := List.getLast?_eq_some_iff.1 bracket
  have front : Balanced (String.ofList cs) := .plain (by simpa [hcs] using hs)
  have inner := ht (depth + 1) ('>' :: rest)
  rw [argumentRun, if_neg (by decide), if_pos rfl, if_neg (by omega)] at inner
  have outer := front depth ('<' :: (t.toList ++ '>' :: rest))
  rw [argumentRun, if_pos rfl, inner] at outer
  simpa [hcs, Function.comp_def] using outer

end Balanced

theorem argumentRun_balanced {args : String} (h : Balanced args) (rest : List Char) :
    argumentRun 0 ('<' :: args.toList ++ '>' :: rest) = some ('<' :: args.toList ++ ['>']) := by
  rw [List.cons_append, argumentRun, if_pos rfl, h, argumentRun, if_neg (by decide), if_pos rfl,
    if_pos (by decide)]
  simp

theorem Readable.template {s args : String} (hs : s ∈ templates) (h : Balanced args) :
    (Token.name (s ++ args ++ ">")).Readable := by
  have names : ∀ s ∈ templates, s = String.ofList s.toList.dropLast ++ "<" ∧
      s.toList.dropLast.head?.any isWordStart ∧
      nameRun s.toList.dropLast.tail = s.toList.dropLast.tail := by decide
  obtain ⟨c, cs, rfl, start, run⟩ : ∃ c cs, s = String.ofList (c :: cs) ++ "<" ∧
      isWordStart c ∧ nameRun cs = cs := by
    obtain ⟨whole, start, run⟩ := names s hs
    cases h : s.toList.dropLast with
    | nil => simp [h] at start
    | cons c cs => exact ⟨c, cs, h ▸ whole, by simpa [h] using start, by simpa [h] using run⟩
  have text : (String.ofList (c :: cs) ++ "<" ++ args ++ ">").toList =
      c :: (cs ++ ('<' :: args.toList ++ ['>'])) := by simp
  refine ⟨⟨c, _, text, isWhitespace_of_isWordStart start⟩, fun rest _ => ?_⟩
  have stops : Stops ('<' :: args.toList ++ '>' :: rest) := by
    simp [Stops, isWordChar, isWordStart]
  have split : (String.ofList (c :: cs) ++ "<" ++ args ++ ">").toList ++ rest =
      c :: (cs ++ ('<' :: args.toList ++ '>' :: rest)) := by simp
  show first? ((String.ofList (c :: cs) ++ "<" ++ args ++ ">").toList ++ rest) = _
  rw [split, first?_word start run stops, if_pos ⟨rfl, hs⟩, argumentRun_balanced h]
  simp [← String.toList_inj]

theorem numberRun_append {c : Char} {cs : List Char} (h : ∀ d ∈ cs, isNumberChar d)
    (rest : List Char) : numberRun c (cs ++ rest) = cs ++ numberRun (cs.getLastD c) rest := by
  induction cs generalizing c with
  | nil => rfl
  | cons d cs ih =>
    obtain ⟨hd, hcs⟩ := List.forall_mem_cons.1 h
    rw [List.cons_append, numberRun, if_pos (by simp [hd]), ih hcs, List.getLastD_cons,
      List.cons_append]

theorem numberRun_delimits {c : Char} {rest : List Char} (hc : c ≠ 'e' ∧ c ≠ 'E')
    (h : Delimits rest) : numberRun c rest = [] := by
  cases rest with
  | nil => rfl
  | cons d rest => simp [numberRun, h d rfl, hc]

def IsNumber (text : String) : Prop :=
  ∃ c cs last, text.toList = c :: cs ∧ c.isDigit ∧ (last ≠ 'e' ∧ last ≠ 'E') ∧
    ∀ rest, numberRun c (cs ++ rest) = cs ++ numberRun last rest

theorem Readable.number {s : String} (h : IsNumber s) : (Token.literal s).Readable := by
  obtain ⟨c, cs, last, hcs, digit, notExponent, run⟩ := h
  have blank : c.isWhitespace = false := isWhitespace_eq_false (by decide) digit
  refine ⟨⟨c, cs, hcs, blank⟩, fun rest hrest => ?_⟩
  have delimits : Delimits rest := by
    intro d hd
    obtain ⟨notWord, -, notPoint⟩ := hrest d hd
    have notPoint := notPoint (by simp [hcs, digit])
    simp [isNumberChar, notWord, notPoint]
  have whole : String.ofList (c :: cs) = s := by rw [← hcs, String.ofList_toList]
  show first? (s.toList ++ rest) = _
  rw [hcs, List.cons_append, first?, if_neg (by simp [isWordStart_of_isDigit digit]), if_pos digit,
    run, numberRun_delimits notExponent delimits, List.append_nil, whole]

theorem quotedRun_char {c : Char} (plain : c ≠ '\n' ∧ c ≠ '"' ∧ c ≠ '\\') (rest : List Char) :
    quotedRun '"' (c :: rest) = (quotedRun '"' rest).map (c :: ·) := by
  rw [quotedRun, if_neg plain.1, if_neg plain.2.1]
  exact fun _ _ backslash => absurd backslash plain.2.2

theorem quotedRun_escapeChar (c : Char) (rest : List Char) :
    quotedRun '"' (Quoted.escapeChar c ++ rest) =
      (quotedRun '"' rest).map (Quoted.escapeChar c ++ ·) := by
  have digit (n : Nat) : Quoted.octalDigit n ≠ '\n' ∧ Quoted.octalDigit n ≠ '"' ∧
      Quoted.octalDigit n ≠ '\\' := by
    have (m : Fin 8) : Char.ofNat (48 + m) ≠ '\n' ∧ Char.ofNat (48 + m) ≠ '"' ∧
        Char.ofNat (48 + m) ≠ '\\' := by
      revert m
      decide
    exact this ⟨n % 8, Nat.mod_lt n (by decide)⟩
  unfold Quoted.escapeChar
  split
  · rfl
  split
  · rfl
  split
  · rfl
  split
  · rfl
  split
  · rfl
  split
  · rfl
  split
  · simp only [Quoted.octal, List.cons_append, List.nil_append]
    rw [quotedRun, quotedRun_char (digit _), quotedRun_char (digit _)]
    simp [Function.comp_def]
  · next quote backslash newline _ _ _ _ => exact quotedRun_char ⟨newline, quote, backslash⟩ rest

theorem quotedRun_escape (cs rest : List Char) :
    quotedRun '"' (Quoted.escape cs ++ '"' :: rest) = some (Quoted.escape cs ++ ['"']) := by
  induction cs with
  | nil => rfl
  | cons c cs ih => rw [Quoted.escape, List.append_assoc, quotedRun_escapeChar, ih]; simp

theorem Readable.quote (s : String) : (Token.literal (Quoted.quote s)).Readable := by
  have text : (Quoted.quote s).toList = '"' :: (Quoted.escape s.toList ++ ['"']) := by
    simp [Quoted.quote]
  refine ⟨⟨_, _, text, by decide⟩, fun rest _ => ?_⟩
  show first? ((Quoted.quote s).toList ++ rest) = _
  rw [text, List.cons_append, List.append_assoc, List.singleton_append, first?,
    if_neg (by decide), if_neg (by decide), if_pos (by decide), quotedRun_escape]
  simp [Quoted.quote]

theorem Readable.newline : (Token.literal "'\\n'").Readable :=
  ⟨⟨'\'', _, rfl, by decide⟩, fun _ _ => rfl⟩

theorem Readable.mark {m : String} (hm : m ∈ marks) : (Token.mark m).Readable := by
  have notQuote : ∀ m ∈ marks, '"' ∉ m.toList ∧ '\'' ∉ m.toList := by decide
  obtain ⟨c, cs, hcs, notWord, notDigit, notBlank⟩ := head_of_mem_marks hm
  refine ⟨⟨c, cs, hcs, notBlank⟩, fun rest hrest => ?_⟩
  have longest := longestMark?_append hm hrest
  have apart := notQuote m hm
  show first? (m.toList ++ rest) = _
  rw [hcs] at apart longest ⊢
  rw [List.cons_append] at longest ⊢
  have notQuote : ¬ (c = '"' ∨ c = '\'') := by
    rintro (rfl | rfl)
    · simp at apart
    · simp at apart
  rw [first?, if_neg (by simp [notWord]), if_neg (by simp [notDigit]), if_neg notQuote, longest]
  rfl

end Token

end CppEmission.Surface
