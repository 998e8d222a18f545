import CppEmission.Operator

/-! The expressions of C++ that names, literals, operators, calls and members make up, over any
kind of names: one nonterminal for each level, from `expression` at `statement` to
`postfix-expression` at `primary`. -/

namespace CppEmission.Surface

inductive Token (ν : Type)
  | name (x : ν)
  | literal (text : String)
  | mark (text : String)
  deriving DecidableEq

inductive Term (ν : Type)
  | nothing
  | name (x : ν)
  | literal (text : String)
  | before (op : String) (operand : Term ν)
  | after (op : String) (operand : Term ν)
  | between (op : String) (left right : Term ν)
  | conditional (test onTrue onFalse : Term ν)
  | index (array position : Term ν)
  | call (callee args : Term ν)
  | member (object : Term ν) (access : String) (x : ν)
  | braces (type : ν)
  | list (items : Term ν)
  | declaration (type x : ν) (value : Term ν)
  deriving DecidableEq

def prefixes : List String := ["-", "+", "~", "!", "++", "--", "&", "*"]

def postfixes : List String := ["++", "--"]

def accesses : List String := [".", "->"]

/-- The operators that group to the left, by level. The commas of an argument list are taken for
operators. -/
def infixes : Priority → List String
  | .statement => [","]
  | .condOr => ["||"]
  | .condAnd => ["&&"]
  | .bitOr => ["|"]
  | .bitXor => ["^"]
  | .bitAnd => ["&"]
  | .equality => ["==", "!="]
  | .relational => ["<", "<=", ">", ">="]
  | .shift => ["<<", ">>"]
  | .additive => ["+", "-"]
  | .multiplicative => ["*", "/", "%"]
  | _ => []

def assignments : List String :=
  ["=", "+=", "-=", "*=", "/=", "%=", "<<=", ">>=", "&=", "|=", "^="]

variable {ν μ : Type}

inductive Derives : Priority → List (Token ν) → Term ν → Prop
  | name : Derives .primary [.name x] (.name x)
  | literal : Derives .primary [.literal s] (.literal s)
  | braces : Derives .primary [.name x, .mark "\x7b", .mark "\x7d"] (.braces x)
  | group : Derives .statement ts t → Derives .primary (.mark "(" :: ts ++ [.mark ")"]) t
  | index : Derives .primary ts t → Derives .statement us u →
      Derives .primary (ts ++ .mark "[" :: us ++ [.mark "]"]) (.index t u)
  | call : Derives .primary ts t → Derives .statement us u →
      Derives .primary (ts ++ .mark "(" :: us ++ [.mark ")"]) (.call t u)
  | callEmpty : Derives .primary ts t →
      Derives .primary (ts ++ [.mark "(", .mark ")"]) (.call t .nothing)
  | member : s ∈ accesses → Derives .primary ts t →
      Derives .primary (ts ++ [.mark s, .name x]) (.member t s x)
  | after : s ∈ postfixes → Derives .primary ts t →
      Derives .primary (ts ++ [.mark s]) (.after s t)
  | before : s ∈ prefixes → Derives .unary ts t → Derives .unary (.mark s :: ts) (.before s t)
  | between : s ∈ infixes p → Derives p ts t → Derives p.tighter us u →
      Derives p (ts ++ .mark s :: us) (.between s t u)
  | conditional : Derives .condOr ts t → Derives .statement us u → Derives .assign vs v →
      Derives .cond (ts ++ .mark "?" :: us ++ .mark ":" :: vs) (.conditional t u v)
  | assignment : s ∈ assignments → Derives .condOr ts t → Derives .assign us u →
      Derives .assign (ts ++ .mark s :: us) (.between s t u)
  | loosen : Derives p.tighter ts t → Derives p ts t

theorem Derives.of_le {p q : Priority} {ts : List (Token ν)} {t : Term ν} (h : Derives q ts t)
    (hpq : p ≤ q) : Derives p ts t := by
  by_cases heq : p = q
  · exact heq ▸ h
  have lt : p.rank < q.rank := Nat.lt_of_le_of_ne hpq fun h => heq (Priority.rank_inj h)
  have le : p.tighter ≤ q := by
    rw [Priority.le_iff, Priority.rank_tighter]
    omega
  exact .loosen (h.of_le le)
termination_by Priority.primary.rank - p.rank
decreasing_by
  have : q.rank ≤ Priority.primary.rank := by cases q <;> decide
  rw [Priority.rank_tighter]
  omega

def chains : List String := ["||", "&&", "|", "^", "&"]

namespace Term

def graft (op : String) (l : Term ν) : Term ν → Term ν
  | between op' a b =>
    if op' = op then between op (graft op l a) b else between op l (between op' a b)
  | t => between op l t

def leftward : Term ν → Term ν
  | nothing => nothing
  | name x => name x
  | literal s => literal s
  | before op t => before op t.leftward
  | after op t => after op t.leftward
  | between op l r =>
    if op ∈ chains then graft op l.leftward r.leftward else between op l.leftward r.leftward
  | conditional c t f => conditional c.leftward t.leftward f.leftward
  | index a i => index a.leftward i.leftward
  | call f args => call f.leftward args.leftward
  | member t s x => member t.leftward s x
  | braces x => braces x
  | list items => list items.leftward
  | declaration ty x v => declaration ty x v.leftward

theorem graft_eq_between {op : String} {l r : Term ν} (h : ∀ a b, r ≠ between op a b) :
    graft op l r = between op l r := by
  cases r with
  | between op' a b =>
    refine if_neg fun same => h a b ?_
    rw [same]
  | _ => rfl

def items : List (Term ν) → Term ν
  | [] => nothing
  | t :: ts => ts.foldl (between ",") t

def leaves : Term ν → List (Token ν)
  | nothing => []
  | name x | braces x => [.name x]
  | literal s => [.literal s]
  | before _ t | after _ t | list t => t.leaves
  | between _ t u | index t u | call t u => t.leaves ++ u.leaves
  | conditional c t f => c.leaves ++ t.leaves ++ f.leaves
  | member t _ x => t.leaves ++ [.name x]
  | declaration ty x v => .name ty :: .name x :: v.leaves

attribute [simp] leaves

theorem leaves_items (ts : List (Term ν)) : (items ts).leaves = ts.flatMap leaves := by
  have fold (ts : List (Term ν)) (t : Term ν) :
      (ts.foldl (between ",") t).leaves = t.leaves ++ ts.flatMap leaves := by
    induction ts generalizing t with
    | nil => simp
    | cons u ts ih =>
      rw [List.foldl_cons, ih, List.flatMap_cons, ← List.append_assoc]
      rfl
  cases ts with
  | nil => rfl
  | cons t ts => exact fold ts t

def map (f : ν → μ) : Term ν → Term μ
  | nothing => nothing
  | name x => name (f x)
  | literal s => literal s
  | before op t => before op (t.map f)
  | after op t => after op (t.map f)
  | between op l r => between op (l.map f) (r.map f)
  | conditional c t u => conditional (c.map f) (t.map f) (u.map f)
  | index a i => index (a.map f) (i.map f)
  | call c args => call (c.map f) (args.map f)
  | member t s x => member (t.map f) s (f x)
  | braces x => braces (f x)
  | list items => list (items.map f)
  | declaration ty x v => declaration (f ty) (f x) (v.map f)

end Term

def Token.map (f : ν → μ) : Token ν → Token μ
  | name x => name (f x)
  | literal s => literal s
  | mark s => mark s

theorem Derives.map (f : ν → μ) {p : Priority} {ts : List (Token ν)} {t : Term ν}
    (h : Derives p ts t) : Derives p (ts.map (·.map f)) (t.map f) := by
  induction h with
  | name => exact .name
  | literal => exact .literal
  | braces => exact .braces
  | group _ ih => simpa [Token.map, Term.map] using ih.group
  | index _ _ iht ihu => simpa [Token.map, Term.map] using iht.index ihu
  | call _ _ iht ihu => simpa [Token.map, Term.map] using iht.call ihu
  | callEmpty _ ih => simpa [Token.map, Term.map] using ih.callEmpty
  | member hs _ ih => simpa [Token.map, Term.map] using ih.member hs
  | after hs _ ih => simpa [Token.map, Term.map] using ih.after hs
  | before hs _ ih => exact ih.before hs
  | between hs _ _ iht ihu => simpa [Token.map, Term.map] using iht.between hs ihu
  | conditional _ _ _ iht ihu ihv => simpa [Token.map, Term.map] using iht.conditional ihu ihv
  | assignment hs _ _ iht ihu => simpa [Token.map, Term.map] using iht.assignment hs ihu
  | loosen _ ih => exact ih.loosen

theorem infixes_eq_of_chains {p : Priority} {s s' : String} (h : s ∈ infixes p)
    (chain : s ∈ chains) (h' : s' ∈ infixes p) : s' = s := by
  cases p <;> simp [infixes] at h h' <;> grind [chains]

inductive Chain (op : String) (p : Priority) : List (Token ν) → Term ν → Prop
  | single : Derives p.tighter ts t → (∀ a b, t ≠ .between op a b) → Chain op p ts t
  | link : Chain op p ts t → Derives p.tighter us u →
      Chain op p (ts ++ .mark op :: us) (.between op t u)

namespace Chain

variable {op : String} {p : Priority} {ts us : List (Token ν)} {t u : Term ν}

theorem derives (h : Chain op p ts t) (hop : op ∈ infixes p) : Derives p ts t := by
  induction h with
  | single h => exact h.loosen
  | link _ hu ih => exact ih.between hop hu

theorem graft (ht : Chain op p ts t) (hu : Chain op p us u) :
    Chain op p (ts ++ .mark op :: us) (t.graft op u) := by
  induction hu with
  | single hu apart =>
    rw [Term.graft_eq_between apart]
    exact ht.link hu
  | link _ hu ih => simpa [Term.graft] using ih.link hu

end Chain

end CppEmission.Surface
