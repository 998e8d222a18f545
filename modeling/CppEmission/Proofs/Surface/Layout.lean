import CppEmission.Proofs.Surface.Name
import Mathlib.Data.List.Chain

namespace CppEmission.Surface

open Grammar

inductive Lexeme
  | token (t : Token Name)
  | space
  deriving DecidableEq

namespace Lexeme

def token? : Lexeme → Option (Token Name)
  | token t => some t
  | space => none

def text : Lexeme → String
  | token t => (t.map Name.text).text
  | space => " "

def leaves : Lexeme → List (Token Name)
  | token (.mark s) => if s ∈ marks then [] else [.mark s]
  | token t => [t]
  | space => []

def Meets (a b : Lexeme) : Prop :=
  ∀ t ∈ a.token?, (t.map Name.text).EndsBefore b.text.toList

end Lexeme

def name (x : Name) : Lexeme := .token (.name x)

def literal (s : String) : Lexeme := .token (.literal s)

def mark (s : String) : Lexeme := .token (.mark s)

section Pieces

variable (x : Name) (s : String)

@[simp] theorem text_name : (name x).text = x.text := rfl

@[simp] theorem text_literal : (literal s).text = s := rfl

@[simp] theorem text_mark : (mark s).text = s := rfl

@[simp] theorem text_space : Lexeme.space.text = " " := rfl

@[simp] theorem leaves_name : (name x).leaves = [.name x] := rfl

@[simp] theorem leaves_literal : (literal s).leaves = [.literal s] := rfl

@[simp] theorem leaves_mark (h : s ∈ marks) : (mark s).leaves = [] := if_pos h

@[simp] theorem leaves_space : Lexeme.space.leaves = [] := rfl

@[simp] theorem token?_name : (name x).token? = some (.name x) := rfl

@[simp] theorem token?_literal : (literal s).token? = some (.literal s) := rfl

@[simp] theorem token?_mark : (mark s).token? = some (.mark s) := rfl

@[simp] theorem token?_space : Lexeme.space.token? = none := rfl

end Pieces

structure Tidy (ls : List Lexeme) : Prop where
  readable : ∀ t, .token t ∈ ls → (t.map Name.text).Readable
  apart : ls.IsChain Lexeme.Meets

namespace Layout

variable {ls rs : List Lexeme}

def text (ls : List Lexeme) : String := String.join (ls.map (·.text))

def tokens (ls : List Lexeme) : List (Token Name) := ls.filterMap (·.token?)

def leaves (ls : List Lexeme) : List (Token Name) := ls.flatMap (·.leaves)

@[simp] theorem text_nil : text [] = "" := rfl

@[simp] theorem text_cons (l : Lexeme) (ls : List Lexeme) : text (l :: ls) = l.text ++ text ls :=
  String.join_cons

@[simp] theorem text_append (ls rs : List Lexeme) : text (ls ++ rs) = text ls ++ text rs := by
  simp [text, String.join_append]

@[simp] theorem tokens_nil : tokens [] = [] := rfl

@[simp] theorem tokens_cons (l : Lexeme) (ls : List Lexeme) :
    tokens (l :: ls) = l.token?.toList ++ tokens ls := by
  cases l <;> rfl

@[simp] theorem tokens_append (ls rs : List Lexeme) : tokens (ls ++ rs) = tokens ls ++ tokens rs :=
  List.filterMap_append

@[simp] theorem leaves_nil : leaves [] = [] := rfl

@[simp] theorem leaves_cons (l : Lexeme) (ls : List Lexeme) :
    leaves (l :: ls) = l.leaves ++ leaves ls := rfl

@[simp] theorem leaves_append (ls rs : List Lexeme) : leaves (ls ++ rs) = leaves ls ++ leaves rs :=
  List.flatMap_append

end Layout

theorem Token.endsBefore_of_head {t : Token String} {rest rest' : List Char}
    (h : rest.head? = rest'.head?) (ht : t.EndsBefore rest) : t.EndsBefore rest' := by
  cases t <;> simpa only [Token.EndsBefore, h] using ht

namespace Tidy

variable {l : Lexeme} {ls rs : List Lexeme}

theorem tail (h : Tidy (l :: ls)) : Tidy ls :=
  ⟨fun t ht => h.readable t (.tail _ ht), List.IsChain.of_cons h.apart⟩

theorem text_ne_nil (h : Tidy (l :: ls)) : l.text.toList ≠ [] := by
  cases l with
  | space => exact nofun
  | token t =>
    obtain ⟨c, cs, hcs, -⟩ := (h.readable t (.head _)).lead
    rw [Lexeme.text, hcs]
    exact nofun

theorem endsBefore {t : Token Name} (h : Tidy (.token t :: ls)) :
    (t.map Name.text).EndsBefore (Layout.text ls).toList := by
  cases ls with
  | nil => cases t <;> exact nofun
  | cons m ls =>
    have meets := (List.isChain_cons_cons.1 h.apart).1 t rfl
    refine Token.endsBefore_of_head ?_ meets
    rw [Layout.text_cons, String.toList_append, List.head?_append_of_ne_nil _ h.tail.text_ne_nil]

theorem lex_text (h : Tidy ls) :
    Token.lex (Layout.text ls) = some ((Layout.tokens ls).map (·.map Name.text)) := by
  rw [Token.lex]
  induction ls with
  | nil => rfl
  | cons l ls ih =>
    rw [Layout.text_cons, String.toList_append]
    cases l with
    | space => exact ih h.tail
    | token t =>
      rw [Lexeme.text, (h.readable t (.head _)).scan_append h.endsBefore, ih h.tail]
      rfl

theorem append (hl : Tidy ls) (hr : Tidy rs)
    (meets : ∀ a ∈ ls.getLast?, ∀ b ∈ rs.head?, a.Meets b) : Tidy (ls ++ rs) := by
  refine ⟨fun t ht => ?_, hl.apart.append hr.apart meets⟩
  rcases List.mem_append.1 ht with ht | ht
  · exact hl.readable t ht
  · exact hr.readable t ht

end Tidy

end CppEmission.Surface
