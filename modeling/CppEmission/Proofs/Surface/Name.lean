import CppEmission.Phrase.OfExpr
import CppEmission.Proofs.Inline.Text
import CppEmission.Proofs.Spelling
import CppEmission.Proofs.Surface.Lexer

namespace CppEmission

open Grammar

namespace Ty

theorem text_of_spelling {t : Ty} {s : String} (h : t.spelling = .ok s) : s = t.text := by
  induction t generalizing s with
  | null => cases h
  | bool | int | float | double | object | enum =>
    cases h
    rfl
  | string shape => cases shape <;> cases h <;> rfl
  | array elem shape ih =>
    cases helem : elem.spelling with
    | error e => simp [spelling, helem, Except.map] at h
    | ok u =>
      simp only [spelling, helem, Except.map, Except.ok.injEq] at h
      rw [← h, ih helem, text]
  | list elem ih =>
    cases helem : elem.spelling with
    | error e => simp [spelling, helem, Except.map] at h
    | ok u =>
      simp only [spelling, helem, Except.map, Except.ok.injEq] at h
      rw [← h, ih helem, text]
  | map key value ihk ihv =>
    have values {k : String} (h : (do
        let v ← value.spelling
        return "std::map<" ++ k ++ ", " ++ v ++ ">") = Except.ok s) :
        s = "std::map<" ++ k ++ ", " ++ value.text ++ ">" := by
      obtain ⟨v, hv, h⟩ := bind_eq_ok.1 h
      cases h
      rw [ihv hv]
    rw [spelling] at h
    rw [text]
    split at h
    · next string =>
      rw [if_pos string]
      exact values h
    · next notString =>
      obtain ⟨k, hk, h⟩ := bind_eq_ok.1 h
      rw [if_neg notString, ← ihk hk]
      exact values h

end Ty

namespace Surface

inductive Library
  | string
  | stringView
  | toString
  | npos
  | find
  | abs
  | cout
  | runtimeError
  | leastInteger
  deriving DecidableEq

def Library.text : Library → String
  | string => "std::string"
  | stringView => "std::string_view"
  | toString => "std::to_string"
  | npos => "std::string::npos"
  | find => "std::find"
  | abs => "std::abs"
  | cout => "std::cout"
  | runtimeError => "std::runtime_error"
  | leastInteger => "INT64_MIN"

inductive Name
  | plain (text : String)
  | qualified (owner text : String)
  | library (used : Library)
  | type (ty : Ty)
  | cast (ty : Ty)
  | widen
  | min (ty : Ty)
  | max (ty : Ty)
  | makeShared (className : String)
  | makeSharedArray (elem : Ty)
  deriving DecidableEq

namespace Name

def text : Name → String
  | plain x => x
  | qualified c x => c ++ "::" ++ x
  | library x => x.text
  | type t => t.text
  | cast t => "static_cast<" ++ t.text ++ ">"
  | widen => "static_cast<" ++ "int" ++ ">"
  | min t => "std::min<" ++ t.text ++ ">"
  | max t => "std::max<" ++ t.text ++ ">"
  | makeShared c => "std::make_shared<" ++ c ++ ">"
  | makeSharedArray t => "std::make_shared<" ++ (t.text ++ "[]") ++ ">"

@[simp] theorem text_library (x : Library) : (library x).text = x.text := rfl

@[simp] theorem text_cast (t : Ty) : (cast t).text = "static_cast<" ++ t.text ++ ">" := rfl

theorem text_min (t : Ty) : (min t).text = "std::min" ++ "<" ++ t.text ++ ">" := by
  have front : "std::min<" = "std::min" ++ "<" := by decide
  rw [← front]
  rfl

theorem text_max (t : Ty) : (max t).text = "std::max" ++ "<" ++ t.text ++ ">" := by
  have front : "std::max<" = "std::max" ++ "<" := by decide
  rw [← front]
  rfl

theorem text_makeSharedArray (t : Ty) :
    (makeSharedArray t).text = "std::make_shared<" ++ (t.text ++ "[]") ++ ">" := rfl

def IsReadable (x : Name) : Prop := (Token.name x.text).Readable

end Name

open Token (Balanced)

theorem balanced_word {x : String} (h : isIdentifier x) : Balanced x := by
  refine .plain (List.all_eq_true.2 fun c hc => ?_)
  have word := isWordChar_of_isIdentifier h c hc
  cases bracket : Token.isBracket c with
  | false => rfl
  | true =>
    simp only [Token.isBracket, Bool.or_eq_true, beq_iff_eq] at bracket
    rcases bracket with rfl | rfl <;> cases word

theorem balanced_repr (n : Nat) : Balanced (Nat.repr n) := by
  refine .plain (List.all_eq_true.2 fun c hc => ?_)
  rw [Nat.toList_repr] at hc
  have digit : c.isDigit := Nat.isDigit_of_mem_toDigits (by decide) (by decide) hc
  cases bracket : Token.isBracket c with
  | false => rfl
  | true =>
    simp only [Token.isBracket, Bool.or_eq_true, beq_iff_eq] at bracket
    rcases bracket with rfl | rfl <;> cases digit

theorem Ownership.balanced_spelling {c : String} (h : Balanced c) (held : Ownership) :
    Balanced (held.spelling c) := by
  have star : Balanced " *" := .plain (by decide)
  rcases held with _ | _ | _ | _
  · exact h
  · exact ((Balanced.plain (s := "const ") (by decide)).append h).append star
  · exact h.append star
  · exact .arguments (by decide) (by decide) h

theorem ArrayShape.balanced_spelling {elem : String} (h : Balanced elem) (shape : ArrayShape) :
    Balanced (shape.spelling elem) := by
  have star : Balanced " *" := .plain (by decide)
  rcases shape with n | _ | _ | _
  · have args := (h.append (.plain (s := ", ") (by decide))).append (balanced_repr n)
    have whole := Balanced.arguments (s := "std::array<") (by decide) (by decide) args
    rw [← String.append_assoc, ← String.append_assoc] at whole
    exact whole
  · exact ((Balanced.plain (s := "const ") (by decide)).append h).append star
  · exact h.append star
  · have array : Balanced (elem ++ "[]") := h.append (.plain (by decide))
    have whole := Balanced.arguments (s := "std::shared_ptr<") (by decide) (by decide) array
    have close : "[]" ++ ">" = "[]>" := by decide
    rw [← String.append_assoc, @String.append_assoc _ "[]" ">", close] at whole
    exact whole

theorem balanced_mapArguments {key value : Ty} (hk : Balanced key.text) (hv : Balanced value.text) :
    Balanced ((if key.isString then "std::string" else key.text) ++ ", " ++ value.text) := by
  refine (Balanced.append ?_ (.plain (by decide))).append hv
  split
  · exact .plain (by decide)
  · exact hk

theorem balanced_text {t : Ty} (h : t.NamesIdentifiers) : Balanced t.text := by
  induction t with
  | null | bool | float | double => exact .plain (by decide)
  | int k => cases k <;> exact .plain (by decide)
  | string shape => cases shape <;> exact .plain (by decide)
  | enum e => exact balanced_word h
  | object c held => exact Ownership.balanced_spelling (balanced_word h) held
  | array elem shape ih => exact ArrayShape.balanced_spelling (ih h) shape
  | list elem ih => exact .arguments (by decide) (by decide) (ih h)
  | map key value ihk ihv =>
    have args := balanced_mapArguments (ihk h.1) (ihv h.2)
    have whole := Balanced.arguments (s := "std::map<") (by decide) (by decide) args
    simpa only [Ty.text, String.append_assoc] using whole

namespace Name

theorem readable_library (x : Library) : (library x).IsReadable := by
  cases x <;> exact .name (by decide)

theorem readable_plain {x : String} (h : isIdentifier x) : (plain x).IsReadable :=
  .name (Token.isName_of_isIdentifier h)

theorem readable_qualified {c x : String} (hc : isIdentifier c) (hx : isIdentifier x) :
    (qualified c x).IsReadable :=
  .name (Token.isName_qualified hc hx)

variable {t : Ty}

theorem readable_cast (h : t.NamesIdentifiers) : (cast t).IsReadable :=
  .template (by decide) (balanced_text h)

theorem readable_widen : widen.IsReadable := .template (by decide) (.plain (by decide))

theorem readable_min (h : t.NamesIdentifiers) : (min t).IsReadable :=
  .template (by decide) (balanced_text h)

theorem readable_max (h : t.NamesIdentifiers) : (max t).IsReadable :=
  .template (by decide) (balanced_text h)

theorem readable_makeShared {c : String} (h : isIdentifier c) : (makeShared c).IsReadable :=
  .template (by decide) (balanced_word h)

theorem readable_makeSharedArray (h : t.NamesIdentifiers) : (makeSharedArray t).IsReadable :=
  .template (by decide) ((balanced_text h).append (.plain (by decide)))

theorem readable_object {c : String} (h : isIdentifier c) : (type (.object c .value)).IsReadable :=
  .name (Token.isName_of_isIdentifier h)

theorem readable_list (h : t.NamesIdentifiers) : (type (.list t)).IsReadable :=
  .template (by decide) (balanced_text h)

theorem readable_storage (h : t.NamesIdentifiers) (n : Nat) :
    (type (.array t (.storage n))).IsReadable := by
  have args := ((balanced_text h).append (.plain (s := ", ") (by decide))).append (balanced_repr n)
  have whole := Token.Readable.template (s := "std::array<") (by decide) args
  rw [← String.append_assoc, ← String.append_assoc] at whole
  exact whole

theorem readable_map {key value : Ty} (h : (Ty.map key value).NamesIdentifiers) :
    (type (.map key value)).IsReadable := by
  have args := balanced_mapArguments (balanced_text h.1) (balanced_text h.2)
  have whole := Token.Readable.template (s := "std::map<") (by decide) args
  rw [← String.append_assoc, ← String.append_assoc] at whole
  exact whole

end Name

end Surface

end CppEmission
