import CppEmission.Phrase.Operation
import CppEmission.Proofs.Grammar.Unambiguous

namespace CppEmission.Grammar

def Lexes (text : String) (ts : List Token) : Prop :=
  ∀ rest, Delimits rest →
    Token.scan 0 (text.toList ++ rest) = (Token.scan 0 rest).map (ts ++ ·)

theorem Lexes.lex_eq (h : Lexes text ts) : Token.lex text = some ts := by
  simpa [Token.lex, Token.scan] using h [] (by simp [Delimits])

theorem Lexes.word {x : String} (h : isIdentifier x) : Lexes x [.word x] := by
  intro rest hrest
  have spelled := h
  simp only [isIdentifier] at h
  split at h
  · simp at h
  next c cs hcs =>
    simp only [Bool.and_eq_true, List.all_eq_true] at h
    rw [hcs, Token.scan_word h.1.1 h.1.2 hrest, ← hcs, String.ofList_toList]
    rfl

theorem Lexes.number (n : Nat) : Lexes (Nat.repr n) [.number n] :=
  fun _ hrest => Token.scan_number n hrest

theorem Lexes.mark_append {m text : String} (hm : m ∈ marks)
    (hhead : ∃ c ∈ text.toList.head?, c ∉ extensions m) (h : Lexes text ts) :
    Lexes (m ++ text) (.mark m :: ts) := by
  intro rest hrest
  obtain ⟨c, hc, hext⟩ := hhead
  obtain ⟨cs, hcs⟩ := List.head?_eq_some_iff.1 hc
  have next : ∀ d ∈ (text.toList ++ rest).head?, d ∉ extensions m := by
    simpa [hcs] using hext
  rw [String.toList_append, List.append_assoc, Token.scan_mark hm next, h rest hrest]
  simp [Function.comp_def]

theorem Lexes.append {s t : String} (hs : Lexes s ts) (ht : Lexes t us)
    (hhead : ∃ c ∈ t.toList.head?, isNumberChar c = false) : Lexes (s ++ t) (ts ++ us) := by
  intro rest hrest
  obtain ⟨c, hc, hfree⟩ := hhead
  obtain ⟨cs, hcs⟩ := List.head?_eq_some_iff.1 hc
  have delimits : Delimits (t.toList ++ rest) := by
    simpa [Delimits, hcs] using hfree
  rw [String.toList_append, List.append_assoc, hs _ delimits, ht rest hrest]
  simp [Function.comp_def]

theorem Lexes.mark {m : String} (hm : m ∈ marks) (h : extensions m = []) : Lexes m [.mark m] := by
  intro rest _
  rw [Token.scan_mark hm (by simp [h])]
  rfl

theorem Lexes.space {text : String} (h : Lexes text ts) : Lexes (" " ++ text) ts := by
  intro rest hrest
  rw [String.toList_append, List.append_assoc, ← h rest hrest]
  rfl

theorem space_not_mem_extensions : ∀ m ∈ marks, ' ' ∉ extensions m := by decide

theorem Lexes.between {s m t : String} (hs : Lexes s ts) (hm : m ∈ marks) (ht : Lexes t us) :
    Lexes (s ++ " " ++ m ++ " " ++ t) (ts ++ .mark m :: us) := by
  have spaced := ht.space.mark_append hm ⟨' ', by simp, space_not_mem_extensions m hm⟩
  simpa [String.append_assoc] using hs.append spaced.space ⟨' ', by simp, by decide⟩

def startsOperand (c : Char) : Bool := isWordChar c || ['(', '-', '+', '~', '!'].contains c

def Starts (text : String) : Prop := ∃ c ∈ text.toList.head?, startsOperand c

theorem Starts.append (h : Starts s) (t : String) : Starts (s ++ t) := by
  obtain ⟨c, hc, hstart⟩ := h
  obtain ⟨cs, hcs⟩ := List.head?_eq_some_iff.1 hc
  exact ⟨c, by simp [hcs], hstart⟩

def Reads (text : String) (p : Priority) (t : Flat) : Prop :=
  Starts text ∧ ∃ ts u, Lexes text ts ∧ Derives p ts u ∧ u.flat = t

theorem Reads.of_le {p q : Priority} (h : Reads text q t) (hpq : p ≤ q) : Reads text p t := by
  obtain ⟨start, ts, u, hlex, hder, flat⟩ := h
  exact ⟨start, ts, u, hlex, hder.of_le hpq, flat⟩

theorem isReserved_of_isIdentifier {x : String} (h : isIdentifier x) :
    Keyword.isReserved x = false := by
  simp only [isIdentifier] at h
  split at h <;> simp_all

theorem Reads.name {x : String} (h : isIdentifier x) : Reads x .primary (.name x) := by
  refine ⟨?_, _, .name x, .word h, .name (isReserved_of_isIdentifier h), rfl⟩
  simp only [isIdentifier] at h
  split at h <;> simp_all [Starts, startsOperand, isWordChar]

theorem Reads.number (n : Nat) : Reads (Nat.repr n) .primary (.number n) := by
  refine ⟨?_, _, .number n, .number n, .number, rfl⟩
  obtain ⟨c, cs, hcs⟩ := List.exists_cons_of_ne_nil (@Nat.toDigits_ne_nil n 10)
  have digit : c.isDigit :=
    Nat.isDigit_of_mem_toDigits (b := 10) (n := n) (by decide) (by decide) (by simp [hcs])
  exact ⟨c, by simp [Nat.toList_repr, hcs], by simp [startsOperand, isWordChar, digit]⟩

theorem Reads.group (h : Reads text .statement t) : Reads ("(" ++ text ++ ")") .primary t := by
  obtain ⟨⟨c, hc, _⟩, ts, u, hlex, hder, flat⟩ := h
  have opened : Lexes ("(" ++ text) (.mark "(" :: ts) :=
    hlex.mark_append (by decide) ⟨c, hc, List.not_mem_nil⟩
  have close : Lexes ")" [.mark ")"] := .mark (by decide) (by decide)
  refine ⟨⟨'(', by simp, by decide⟩, _, u, ?_, hder.group, flat⟩
  exact opened.append close ⟨')', by simp, by decide⟩

theorem Reads.index (ha : Reads a .primary t) (hi : Reads i .statement u) :
    Reads (a ++ "[" ++ i ++ "]") .primary (t.join .index u) := by
  obtain ⟨start, ts, t', hlex, hder, rfl⟩ := ha
  obtain ⟨⟨c, hc, _⟩, us, u', hlex', hder', rfl⟩ := hi
  have opened : Lexes ("[" ++ i) (.mark "[" :: us) :=
    hlex'.mark_append (by decide) ⟨c, hc, List.not_mem_nil⟩
  have close : Lexes "]" [.mark "]"] := .mark (by decide) (by decide)
  refine ⟨by simpa [String.append_assoc] using start.append _, _, _, ?_, hder.index hder', rfl⟩
  simpa [String.append_assoc] using
    (hlex.append opened ⟨'[', by simp, by decide⟩).append close ⟨']', by simp, by decide⟩

theorem postfix_spelling (op : PostfixOp) : (op.spelling, op) ∈ postfixes ∧
    op.spelling ∈ marks ∧ extensions op.spelling = [] ∧
      op.spelling.toList.head?.any (!isNumberChar ·) := by
  cases op <;> decide

theorem Reads.after {op : PostfixOp} (h : Reads text .primary t) :
    Reads (text ++ op.spelling) .primary (.after op t) := by
  obtain ⟨start, ts, u, hlex, hder, rfl⟩ := h
  obtain ⟨hop, hm, free, hhead⟩ := postfix_spelling op
  obtain ⟨c, hc, apart⟩ := (Option.any_eq_true _ _).1 hhead
  have lexes := hlex.append (.mark hm free) ⟨c, hc, by simpa using apart⟩
  exact ⟨start.append _, _, _, lexes, hder.after hop, rfl⟩

theorem prefix_spelling (op : PrefixOp) : (op.spelling, op) ∈ prefixes ∧ op.spelling ∈ marks ∧
    op.spelling.toList.head?.any startsOperand ∧
      (extensions op.spelling).all fun c => !startsOperand c || some c == op.sign? := by
  cases op <;> decide

theorem Reads.before {op : PrefixOp} (h : Reads text .unary t) :
    Reads (op.spelling ++ (if op.needsSpace text then " " else "") ++ text) .unary
      (.before op t) := by
  obtain ⟨⟨c, hc, hstart⟩, ts, u, hlex, hder, rfl⟩ := h
  obtain ⟨hop, hm, start, ext⟩ := prefix_spelling op
  have starts : Starts op.spelling := (Option.any_eq_true _ _).1 start
  refine ⟨by simpa [String.append_assoc] using starts.append _, _, _, ?_, hder.before hop, rfl⟩
  by_cases space : op.needsSpace text
  · rw [if_pos space, String.append_assoc]
    exact hlex.space.mark_append hm ⟨' ', by simp, space_not_mem_extensions _ hm⟩
  · rw [if_neg space, String.append_empty]
    refine hlex.mark_append hm ⟨c, hc, fun mem => space ?_⟩
    have sign := List.all_eq_true.1 ext c mem
    simp_all [PrefixOp.needsSpace]

theorem infix_spelling (op : BinaryOp) (h : op.isAssignment = false) (hi : op ≠ .index) :
    (op.spelling, op) ∈ infixes op.priority ∧ op.spelling ∈ marks ∧
      op.priority ≤ op.leftPriority ∧ (chains op → op.rightPriority = op.priority) ∧
      (chains op = false → op.priority.tighter ≤ op.rightPriority) := by
  revert h hi
  cases op <;> decide

theorem assignment_spelling (op : BinaryOp) (h : op.isAssignment) :
    (op.spelling, op) ∈ assignments ∧ op.spelling ∈ marks ∧ op.leftPriority = .condOr ∧
      op.rightPriority = .assign ∧ chains op = false := by
  revert h
  cases op <;> decide

theorem Reads.infixed {op : BinaryOp} (h : op.isAssignment = false) (hi : op ≠ .index)
    (hl : Reads l op.leftPriority t) (hr : Reads r op.rightPriority u) :
    Reads (l ++ " " ++ op.spelling ++ " " ++ r) op.priority (t.join op u) := by
  obtain ⟨hop, hm, left, chained, unchained⟩ := infix_spelling op h hi
  obtain ⟨start, ts, t', hlex, hder, rfl⟩ := hl.of_le left
  obtain ⟨-, us, u', hlex', hder', rfl⟩ := hr
  have starts : Starts (l ++ " " ++ op.spelling ++ " " ++ r) := by
    simpa [String.append_assoc] using start.append _
  have lexes := hlex.between hm hlex'
  by_cases chain : chains op
  · rw [chained chain] at hder'
    obtain ⟨v, hv, flat⟩ := hder.chain hop chain hder'
    exact ⟨starts, _, v, lexes, hv, flat⟩
  · have right := hder'.of_le (unchained (by simpa using chain))
    exact ⟨starts, _, _, lexes, hder.between hop right, rfl⟩

theorem Reads.assigned {op : BinaryOp} (h : op.isAssignment) (hl : Reads l op.leftPriority t)
    (hr : Reads r op.rightPriority u) :
    Reads (l ++ " " ++ op.spelling ++ " " ++ r) .assign (t.join op u) := by
  obtain ⟨hop, hm, left, right, -⟩ := assignment_spelling op h
  rw [left] at hl
  rw [right] at hr
  obtain ⟨start, ts, t', hlex, hder, rfl⟩ := hl
  obtain ⟨-, us, u', hlex', hder', rfl⟩ := hr
  refine ⟨?_, _, _, hlex.between hm hlex', hder.assignment hop hder', rfl⟩
  simpa [String.append_assoc] using start.append _

theorem Reads.conditional (hc : Reads c .condOr t) (ht : Reads y .cond u) (hf : Reads n .cond v) :
    Reads (c ++ " ? " ++ y ++ " : " ++ n) .cond (.conditional t u v) := by
  obtain ⟨start, ts, t', hlex, hder, rfl⟩ := hc
  obtain ⟨-, us, u', hlex', hder', rfl⟩ := ht.of_le (p := .statement) (by decide)
  obtain ⟨-, vs, v', hlex'', hder'', rfl⟩ := hf.of_le (p := .assign) (by decide)
  have question : " ? " = " " ++ "?" ++ " " := by decide
  have colon : " : " = " " ++ ":" ++ " " := by decide
  have lexes := (hlex.between (m := "?") (by decide) hlex').between (m := ":") (by decide) hlex''
  refine ⟨?_, _, _, ?_, hder.conditional hder' hder'', rfl⟩
  · simpa [String.append_assoc] using start.append _
  · simpa only [question, colon, String.append_assoc] using lexes

end CppEmission.Grammar
