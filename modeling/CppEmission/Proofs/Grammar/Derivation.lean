import CppEmission.Operator
import CppEmission.Proofs.Grammar.Token

/-! The expressions of C++ that names, integers and operators make up: one nonterminal for each
level, from `expression` at `statement` to `postfix-expression` at `primary`. -/

namespace CppEmission.Grammar

inductive Tree
  | name (text : String)
  | number (value : Nat)
  | before (op : PrefixOp) (operand : Tree)
  | after (op : PostfixOp) (operand : Tree)
  | between (op : BinaryOp) (left right : Tree)
  | conditional (test onTrue onFalse : Tree)
  deriving DecidableEq

def prefixes : List (String × PrefixOp) :=
  [("-", .neg), ("+", .plus), ("~", .complement), ("!", .not), ("++", .increment),
    ("--", .decrement)]

def postfixes : List (String × PostfixOp) := [("++", .increment), ("--", .decrement)]

def infixes : Priority → List (String × BinaryOp)
  | .condOr => [("||", .condOr)]
  | .condAnd => [("&&", .condAnd)]
  | .bitOr => [("|", .bitOr)]
  | .bitXor => [("^", .bitXor)]
  | .bitAnd => [("&", .bitAnd)]
  | .equality => [("==", .eq), ("!=", .notEq)]
  | .relational => [("<", .lt), ("<=", .ltEq), (">", .gt), (">=", .gtEq)]
  | .shift => [("<<", .shl), (">>", .shr)]
  | .additive => [("+", .add), ("-", .sub)]
  | .multiplicative => [("*", .mul), ("/", .div), ("%", .mod)]
  | _ => []

def assignments : List (String × BinaryOp) :=
  [("=", .assign), ("+=", .addAssign), ("-=", .subAssign), ("*=", .mulAssign),
    ("/=", .divAssign), ("%=", .modAssign), ("<<=", .shlAssign), (">>=", .shrAssign),
    ("&=", .andAssign), ("|=", .orAssign), ("^=", .xorAssign)]

/-- The productions. The middle of a conditional is a whole expression and its last part an
assignment; what is assigned to is no conditional. -/
inductive Derives : Priority → List Token → Tree → Prop
  | name : Keyword.isReserved x = false → Derives .primary [.word x] (.name x)
  | number : Derives .primary [.number n] (.number n)
  | group : Derives .statement ts t → Derives .primary (.mark "(" :: ts ++ [.mark ")"]) t
  | index : Derives .primary ts t → Derives .statement us u →
      Derives .primary (ts ++ .mark "[" :: us ++ [.mark "]"]) (.between .index t u)
  | after : (s, op) ∈ postfixes → Derives .primary ts t →
      Derives .primary (ts ++ [.mark s]) (.after op t)
  | before : (s, op) ∈ prefixes → Derives .unary ts t →
      Derives .unary (.mark s :: ts) (.before op t)
  | between : (s, op) ∈ infixes p → Derives p ts t → Derives p.tighter us u →
      Derives p (ts ++ .mark s :: us) (.between op t u)
  | conditional : Derives .condOr ts t → Derives .statement us u → Derives .assign vs v →
      Derives .cond (ts ++ .mark "?" :: us ++ .mark ":" :: vs) (.conditional t u v)
  | assignment : (s, op) ∈ assignments → Derives .condOr ts t → Derives .assign us u →
      Derives .assign (ts ++ .mark s :: us) (.between op t u)
  | loosen : Derives p.tighter ts t → Derives p ts t

theorem Derives.of_le {p q : Priority} (h : Derives q ts t) (hpq : p ≤ q) : Derives p ts t := by
  by_cases heq : p = q
  · exact heq ▸ h
  have lt : p.rank < q.rank := Nat.lt_of_le_of_ne hpq fun h => heq (Priority.rank_inj h)
  have le : p.tighter ≤ q := by
    rw [Priority.le_iff, Priority.rank_tighter]
    omega
  exact .loosen (h.of_le le)
termination_by Priority.primary.rank - p.rank
decreasing_by
  have : q.rank ≤ Priority.primary.rank := by cases q <;> decide
  rw [Priority.rank_tighter]
  omega

def chains : BinaryOp → Bool
  | .condOr | .condAnd | .bitOr | .bitXor | .bitAnd => true
  | _ => false

inductive Flat
  | name (text : String)
  | number (value : Nat)
  | before (op : PrefixOp) (operand : Flat)
  | after (op : PostfixOp) (operand : Flat)
  | between (op : BinaryOp) (left right : Flat)
  | chain (op : BinaryOp) (links : List Flat)
  | conditional (test onTrue onFalse : Flat)

def Flat.links (op : BinaryOp) : Flat → List Flat
  | .chain op' ts => if op' = op then ts else [.chain op' ts]
  | t => [t]

def Flat.join (op : BinaryOp) (t u : Flat) : Flat :=
  if chains op then .chain op (t.links op ++ u.links op) else .between op t u

def Tree.flat : Tree → Flat
  | .name x => .name x
  | .number n => .number n
  | .before op t => .before op t.flat
  | .after op t => .after op t.flat
  | .between op t u => t.flat.join op u.flat
  | .conditional t u v => .conditional t.flat u.flat v.flat

theorem Flat.join_assoc {op : BinaryOp} (h : chains op) (t u v : Flat) :
    (t.join op u).join op v = t.join op (u.join op v) := by
  simp [Flat.join, Flat.links, h]

theorem infixes_eq_of_chains {p : Priority} {op op' : BinaryOp} {s s' : String}
    (h : (s, op) ∈ infixes p) (hchain : chains op) (h' : (s', op') ∈ infixes p) :
    s' = s ∧ op' = op := by
  cases p <;> simp [infixes] at h h' <;> grind [chains]

theorem Derives.chain {p : Priority} {op : BinaryOp} (hop : (s, op) ∈ infixes p)
    (hchain : chains op) (ht : Derives p ts t) (hu : Derives p us u) :
    ∃ v, Derives p (ts ++ .mark s :: us) v ∧ v.flat = t.flat.join op u.flat := by
  induction hu with
  | between hop' _ hr ihl _ =>
    obtain ⟨rfl, rfl⟩ := infixes_eq_of_chains hop hchain hop'
    obtain ⟨v, hv, flat⟩ := ihl hop ht
    refine ⟨.between _ v _, by simpa using hv.between hop hr, ?_⟩
    rw [Tree.flat, Tree.flat, flat, Flat.join_assoc hchain]
  | loosen hu => exact ⟨.between op t _, ht.between hop hu, rfl⟩
  | _ => simp [infixes] at hop

end CppEmission.Grammar
