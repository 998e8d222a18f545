import CppEmission.Phrase.OfExpr
import CppEmission.Proofs.Grammar.Reading
import CppEmission.Proofs.Outcome

namespace CppEmission

open Grammar

inductive Quoting
  | outside
  | inside
  | escaping
  deriving DecidableEq

namespace Quoting

/-- The character is read unless it ends the line or, outside of quotes, a statement. -/
def step : Quoting → Char → Option Quoting
  | q, c =>
    if c = '\n' then none
    else match q with
    | outside => if c = ';' then none else some (if c = '"' then inside else outside)
    | inside => some (if c = '"' then outside else if c = '\\' then escaping else inside)
    | escaping => some inside

def scan (q : Quoting) (text : List Char) : Option Quoting := text.foldlM step q

theorem scan_append (q : Quoting) (s t : List Char) :
    q.scan (s ++ t) = (q.scan s).bind (·.scan t) :=
  List.foldlM_append

theorem scan_cons (q : Quoting) (c : Char) (rest : List Char) :
    q.scan (c :: rest) = (q.step c).bind (·.scan rest) :=
  List.foldlM_cons

end Quoting

open Quoting

def Sealed (text : String) : Prop := outside.scan text.toList = some outside

instance (text : String) : Decidable (Sealed text) := inferInstanceAs (Decidable (_ = _))

structure Inline (text : String) : Prop where
  closed : Sealed text
  leads : text.toList.head?.any fun c => c != ' ' && c != '\x7d'

instance (text : String) : Decidable (Inline text) :=
  decidable_of_iff (Sealed text ∧ text.toList.head?.any fun c => c != ' ' && c != '\x7d')
    ⟨fun h => ⟨h.1, h.2⟩, fun h => ⟨h.1, h.2⟩⟩

namespace Sealed

theorem append {s t : String} (hs : Sealed s) (ht : Sealed t) : Sealed (s ++ t) := by
  rw [Sealed, String.toList_append, scan_append, hs]
  exact ht

theorem of_forall {text : String} (h : ∀ c ∈ text.toList, c ≠ '\n' ∧ c ≠ ';' ∧ c ≠ '"') :
    Sealed text := by
  rw [Sealed]
  revert h
  generalize text.toList = cs
  intro h
  induction cs with
  | nil => rfl
  | cons c cs ih =>
    obtain ⟨⟨newline, semicolon, quote⟩, hcs⟩ := List.forall_mem_cons.1 h
    rw [scan_cons, step, if_neg newline]
    simpa [semicolon, quote] using ih hcs

theorem newline_not_mem {text : String} (h : Sealed text) : '\n' ∉ text.toList := by
  have stops {cs : List Char} (mem : '\n' ∈ cs) (q : Quoting) : q.scan cs = none := by
    induction cs generalizing q with
    | nil => simp at mem
    | cons c cs ih =>
      rw [scan_cons]
      rcases List.mem_cons.1 mem with rfl | mem
      · rfl
      · cases q.step c with
        | none => rfl
        | some q => exact ih mem q
  intro mem
  rw [Sealed, stops mem] at h
  cases h

end Sealed

namespace Inline

theorem lead_append {text : String} (h : Inline text) (rest : String) :
    (text ++ rest).toList.head?.any fun c => c != ' ' && c != '\x7d' := by
  have := h.leads
  cases hcs : text.toList with
  | nil => simp [hcs] at this
  | cons c cs => simpa [hcs] using this

theorem append {s t : String} (hs : Inline s) (ht : Sealed t) : Inline (s ++ t) :=
  ⟨hs.closed.append ht, hs.lead_append t⟩

theorem of_forall {text : String} (nonempty : text ≠ "")
    (h : ∀ c ∈ text.toList, c ≠ '\n' ∧ c ≠ ';' ∧ c ≠ '"' ∧ c ≠ ' ' ∧ c ≠ '\x7d') : Inline text := by
  refine ⟨.of_forall fun c hc => ⟨(h c hc).1, (h c hc).2.1, (h c hc).2.2.1⟩, ?_⟩
  cases hcs : text.toList with
  | nil => exact absurd (String.toList_eq_nil_iff.1 hcs) nonempty
  | cons c cs =>
    obtain ⟨-, -, -, hc⟩ := h c (by simp [hcs])
    simpa using hc

theorem group {text : String} (h : Sealed text) : Inline ("(" ++ text ++ ")") :=
  ⟨(Sealed.append (by decide) h).append (by decide), by simp⟩

end Inline

theorem isWordChar_fits {c : Char} (h : isWordChar c) :
    c ≠ '\n' ∧ c ≠ ';' ∧ c ≠ '"' ∧ c ≠ ' ' ∧ c ≠ '\x7d' := by
  refine ⟨?_, ?_, ?_, ?_, ?_⟩ <;> rintro rfl <;> revert h <;> decide

theorem Inline.name {name : String} (h : isIdentifier name) : Inline name := by
  refine .of_forall ?_ fun c hc => isWordChar_fits (isWordChar_of_isIdentifier h c hc)
  rintro rfl
  cases h

theorem Inline.escape {name : String} (h : isIdentifier name) : Inline (Keyword.escape name) := by
  rw [Keyword.escape_of_not_isReserved (isReserved_of_isIdentifier h)]
  exact .name h

theorem Inline.resource {name : String} (h : name ≠ "") : Inline (resourceIdentifier name) := by
  refine .of_forall ?_ ?_
  · rw [resourceIdentifier]
    intro empty
    have := congrArg String.toList empty
    simp_all
  · intro c hc
    apply isWordChar_fits
    rw [resourceIdentifier, String.toList_ofList] at hc
    obtain ⟨d, -, rfl⟩ := List.mem_map.1 hc
    split
    · simp_all [isWordChar, isWordStart, Char.isAlphanum]
      tauto
    · rfl

def Ty.NamesIdentifiers : Ty → Prop
  | .array elem _ | .list elem => elem.NamesIdentifiers
  | .object name _ | .enum name => isIdentifier name
  | .map key value => key.NamesIdentifiers ∧ value.NamesIdentifiers
  | _ => True

theorem Sealed.repr (n : Nat) : Sealed (Nat.repr n) := by
  refine .of_forall fun c hc => ?_
  rw [Nat.toList_repr] at hc
  have digit : c.isDigit := Nat.isDigit_of_mem_toDigits (by decide) (by decide) hc
  refine ⟨?_, ?_, ?_⟩ <;> rintro rfl <;> simp at digit

theorem IntKind.inline_spelling (k : IntKind) : Inline k.spelling := by
  cases k <;> decide

theorem Ty.spelling_inline {t : Ty} (h : t.NamesIdentifiers) : Yields Inline t.spelling := by
  induction t with
  | null => exact .error _
  | bool => exact .ok (by decide)
  | int k => exact .ok k.inline_spelling
  | float => exact .ok (by decide)
  | double => exact .ok (by decide)
  | string shape => cases shape <;> exact .ok (by decide)
  | enum name => exact .ok (.name h)
  | object name held =>
    have name := Inline.name h
    rcases held with _ | _ | _ | _
    · exact .ok name
    · exact .ok ((Inline.append (by decide) name.closed).append (by decide))
    · exact .ok (name.append (by decide))
    · exact .ok ((Inline.append (by decide) name.closed).append (by decide))
  | array elem shape ih =>
    refine (ih h).map fun text ht => ?_
    rcases shape with n | _ | _ | _
    · exact (((Inline.append (by decide) ht.closed).append (by decide)).append (.repr n)).append
        (by decide)
    · exact (Inline.append (by decide) ht.closed).append (by decide)
    · exact ht.append (by decide)
    · exact (Inline.append (by decide) ht.closed).append (by decide)
  | list elem ih =>
    exact (ih h).map fun text ht => (Inline.append (by decide) ht.closed).append (by decide)
  | map key value ihk ihv =>
    have args {k : String} (hk : Inline k) : Yields Inline (do
        let v ← value.spelling
        return "std::map<" ++ k ++ ", " ++ v ++ ">") :=
      (ihv h.2).bind fun v hv => .ok <|
        (((Inline.append (by decide) hk.closed).append (by decide)).append hv.closed).append
          (by decide)
    rw [spelling]
    cases key.isString with
    | true => exact args (by decide)
    | false => exact (ihk h.1).bind fun k => args

theorem Quoted.scan_escapeChar (c : Char) : inside.scan (Quoted.escapeChar c) = some inside := by
  have digit (n : Nat) : inside.step (Quoted.octalDigit n) = some inside := by
    have (m : Fin 8) : inside.step (Char.ofNat (48 + m)) = some inside := by
      revert m
      decide
    exact this ⟨n % 8, Nat.mod_lt n (by decide)⟩
  have start (n : Nat) : escaping.step (Quoted.octalDigit n) = some inside := by
    have (m : Fin 8) : escaping.step (Char.ofNat (48 + m)) = some inside := by
      revert m
      decide
    exact this ⟨n % 8, Nat.mod_lt n (by decide)⟩
  unfold Quoted.escapeChar
  split
  · rfl
  split
  · rfl
  split
  · rfl
  split
  · rfl
  split
  · rfl
  split
  · rfl
  split
  · show (escaping.scan (Quoted.octal c.toNat)) = _
    simp only [Quoted.octal, scan_cons, start, digit, Option.bind_some]
    rfl
  · next quote backslash newline _ _ _ _ =>
    rw [scan_cons, step, if_neg newline]
    simp [quote, backslash]
    rfl

theorem Quoted.scan_escape (cs : List Char) : inside.scan (Quoted.escape cs) = some inside := by
  induction cs with
  | nil => rfl
  | cons c cs ih => rw [Quoted.escape, scan_append, scan_escapeChar, Option.bind_some, ih]

theorem Inline.quote (text : String) : Inline (Quoted.quote text) := by
  refine ⟨?_, by simp [Quoted.quote]⟩
  rw [Sealed, Quoted.quote, String.toList_ofList, List.cons_append]
  show inside.scan (Quoted.escape text.toList ++ ['"']) = some outside
  rw [scan_append, Quoted.scan_escape]
  rfl

def isNumeric (c : Char) : Bool := c.isDigit || c == '.' || c == 'e' || c == '-'

theorem Inline.numeric {text : String} (nonempty : text ≠ "") (h : text.toList.all isNumeric) :
    Inline text := by
  refine .of_forall nonempty fun c hc => ?_
  have := List.all_eq_true.1 h c hc
  refine ⟨?_, ?_, ?_, ?_, ?_⟩ <;> rintro rfl <;> revert this <;> decide

theorem all_isNumeric_repr (n : Nat) : (Nat.repr n).toList.all isNumeric := by
  rw [Nat.toList_repr, List.all_eq_true]
  intro c hc
  have digit : c.isDigit := Nat.isDigit_of_mem_toDigits (by decide) (by decide) hc
  simp [isNumeric, digit]

theorem repr_ne_empty (n : Nat) : Nat.repr n ≠ "" := by
  intro h
  have := congrArg String.toList h
  rw [Nat.toList_repr] at this
  exact Nat.toDigits_ne_nil this

theorem all_isNumeric_intRepr (n : Int) : (Int.repr n).toList.all isNumeric := by
  cases n with
  | ofNat n => exact all_isNumeric_repr n
  | negSucc n => simpa [Int.repr, isNumeric] using all_isNumeric_repr (n + 1)

theorem Inline.integerText (v : Int64) : Inline (integerText v) := by
  rw [CppEmission.integerText]
  split
  · decide
  · refine .numeric ?_ (all_isNumeric_intRepr _)
    cases v.toInt with
    | ofNat n => exact repr_ne_empty n
    | negSucc n => simp [Int.repr]

namespace Decimal

theorem all_isNumeric_zeros (n : Nat) : (zeros n).toList.all isNumeric := by
  simp [zeros, isNumeric]

theorem all_isNumeric_sublist {s t : List Char} (h : t.all isNumeric) (hs : s.Sublist t) :
    s.all isNumeric := by
  rw [List.all_eq_true] at h ⊢
  exact fun c hc => h c (hs.mem hc)

theorem all_isNumeric_scientific {digits : String} (h : digits.toList.all isNumeric)
    (exponent : Int) : (scientific digits exponent).toList.all isNumeric := by
  have first := all_isNumeric_sublist h (List.take_sublist 1 _)
  have others := all_isNumeric_sublist h (List.drop_sublist 1 _)
  have e := all_isNumeric_intRepr exponent
  rw [scientific]
  split <;> simp_all [isNumeric]

theorem all_isNumeric_pointed {digits : String} (h : digits.toList.all isNumeric) (n : Nat) :
    (pointed digits n).toList.all isNumeric := by
  have first := all_isNumeric_sublist h (List.take_sublist n _)
  have others := all_isNumeric_sublist h (List.drop_sublist n _)
  have zero := all_isNumeric_zeros (n - digits.length)
  rw [pointed]
  split
  · rw [String.toList_append, String.toList_append, List.all_append, List.all_append, h, zero]
    decide
  · simp_all [isNumeric]

theorem Shortest.all_isNumeric_text (layout : Layout) (s : Shortest) :
    (s.text layout).toList.all isNumeric := by
  have digits := all_isNumeric_repr s.digits
  simp only [Shortest.text]
  split
  · decide
  split
  · exact all_isNumeric_scientific digits _
  split
  · have := all_isNumeric_zeros (-(s.exponent + (Nat.repr s.digits).length - 1) - 1).toNat
    simp_all [isNumeric]
  · exact all_isNumeric_pointed digits _

theorem Shortest.text_ne_empty (layout : Layout) (s : Shortest) : s.text layout ≠ "" := by
  simp only [Shortest.text]
  split
  · decide
  split
  · simp [scientific]
  split
  · simp
  · rw [pointed]
    split <;> simp

theorem Binary64.inline_text (v : Binary64) : Inline v.text := by
  have digits := v.shortest.all_isNumeric_text literalLayout
  refine .numeric ?_ ?_
  · simp [Binary64.text, v.shortest.text_ne_empty]
  · rw [Binary64.text]
    split <;> simp_all [isNumeric]

end Decimal

theorem Literal.text_inline (l : Literal) (ty : Ty) : Yields Inline (l.text ty) := by
  cases l with
  | null => exact .ok (by decide)
  | bool b => cases b <;> exact .ok (by decide)
  | int v => exact .ok (.integerText v)
  | float v =>
    rw [Literal.text]
    split
    · split
      · exact .ok (v.inline_text.append (by decide))
      · exact .ok v.inline_text
    · exact .error _
  | string s => exact .ok (.quote s)

end CppEmission
