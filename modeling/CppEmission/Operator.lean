namespace CppEmission

/-- Binding strength, from the loosest level to the tightest. -/
inductive Priority
  | statement
  | assign
  | cond
  | condOr
  | condAnd
  | bitOr
  | bitXor
  | bitAnd
  | equality
  | relational
  | shift
  | additive
  | multiplicative
  | unary
  | primary
  deriving DecidableEq

namespace Priority

def rank : Priority → Nat
  | statement => 0
  | assign => 1
  | cond => 2
  | condOr => 3
  | condAnd => 4
  | bitOr => 5
  | bitXor => 6
  | bitAnd => 7
  | equality => 8
  | relational => 9
  | shift => 10
  | additive => 11
  | multiplicative => 12
  | unary => 13
  | primary => 14

instance : LT Priority := ⟨fun p q => p.rank < q.rank⟩

instance : LE Priority := ⟨fun p q => p.rank ≤ q.rank⟩

instance (p q : Priority) : Decidable (p < q) := inferInstanceAs (Decidable (p.rank < q.rank))

instance (p q : Priority) : Decidable (p ≤ q) := inferInstanceAs (Decidable (p.rank ≤ q.rank))

theorem le_iff {p q : Priority} : p ≤ q ↔ p.rank ≤ q.rank := Iff.rfl

theorem rank_inj {p q : Priority} (h : p.rank = q.rank) : p = q := by
  revert h
  cases p <;> cases q <;> decide

def tighter : Priority → Priority
  | statement => assign
  | assign => cond
  | cond => condOr
  | condOr => condAnd
  | condAnd => bitOr
  | bitOr => bitXor
  | bitXor => bitAnd
  | bitAnd => equality
  | equality => relational
  | relational => shift
  | shift => additive
  | additive => multiplicative
  | multiplicative => unary
  | unary => primary
  | primary => primary

theorem rank_tighter (p : Priority) : p.tighter.rank = min (p.rank + 1) primary.rank := by
  cases p <;> rfl

end Priority

inductive Associativity
  | left
  | right
  deriving DecidableEq

inductive Fixity
  | between
  | before
  | after
  deriving DecidableEq

inductive Operator
  | assign | addAssign | subAssign | mulAssign | divAssign | modAssign
  | shlAssign | shrAssign | andAssign | orAssign | xorAssign
  | conditional
  | condOr | condAnd
  | bitOr | bitXor | bitAnd
  | eq | notEq | lt | ltEq | gt | gtEq
  | shl | shr | add | sub | mul | div | mod
  | neg | plus | complement | not | preIncrement | preDecrement
  | postIncrement | postDecrement | index
  deriving DecidableEq

namespace Operator

def all : List Operator :=
  [assign, addAssign, subAssign, mulAssign, divAssign, modAssign, shlAssign, shrAssign, andAssign,
    orAssign, xorAssign, conditional, condOr, condAnd, bitOr, bitXor, bitAnd, eq, notEq, lt, ltEq,
    gt, gtEq, shl, shr, add, sub, mul, div, mod, neg, plus, complement, not, preIncrement,
    preDecrement, postIncrement, postDecrement, index]

theorem mem_all (o : Operator) : o ∈ all := by cases o <;> decide

def spelling : Operator → String
  | assign => "="
  | addAssign => "+="
  | subAssign => "-="
  | mulAssign => "*="
  | divAssign => "/="
  | modAssign => "%="
  | shlAssign => "<<="
  | shrAssign => ">>="
  | andAssign => "&="
  | orAssign => "|="
  | xorAssign => "^="
  | conditional => "?"
  | condOr => "||"
  | condAnd => "&&"
  | bitOr => "|"
  | bitXor => "^"
  | bitAnd => "&"
  | eq => "=="
  | notEq => "!="
  | lt => "<"
  | ltEq => "<="
  | gt => ">"
  | gtEq => ">="
  | shl => "<<"
  | shr => ">>"
  | add => "+"
  | sub => "-"
  | mul => "*"
  | div => "/"
  | mod => "%"
  | neg => "-"
  | plus => "+"
  | complement => "~"
  | not => "!"
  | preIncrement => "++"
  | preDecrement => "--"
  | postIncrement => "++"
  | postDecrement => "--"
  | index => "["

def priority : Operator → Priority
  | assign | addAssign | subAssign | mulAssign | divAssign | modAssign
  | shlAssign | shrAssign | andAssign | orAssign | xorAssign => .assign
  | conditional => .cond
  | condOr => .condOr
  | condAnd => .condAnd
  | bitOr => .bitOr
  | bitXor => .bitXor
  | bitAnd => .bitAnd
  | eq | notEq => .equality
  | lt | ltEq | gt | gtEq => .relational
  | shl | shr => .shift
  | add | sub => .additive
  | mul | div | mod => .multiplicative
  | neg | plus | complement | not | preIncrement | preDecrement => .unary
  | postIncrement | postDecrement | index => .primary

def fixity : Operator → Fixity
  | neg | plus | complement | not | preIncrement | preDecrement => .before
  | postIncrement | postDecrement | index => .after
  | _ => .between

def associativity (o : Operator) : Associativity :=
  match o.priority with
  | .assign | .cond | .unary => .right
  | _ => .left

def ofSpelling? (token : String) : Option Operator :=
  all.find? fun o => decide (o.fixity = .between) && o.spelling == token

theorem ofSpelling?_spelling (o : Operator) (h : o.fixity = .between) :
    ofSpelling? o.spelling = some o := by
  revert h
  cases o <;> decide

end Operator

inductive BinaryOp
  | assign | addAssign | subAssign | mulAssign | divAssign | modAssign
  | shlAssign | shrAssign | andAssign | orAssign | xorAssign
  | condOr | condAnd
  | bitOr | bitXor | bitAnd
  | eq | notEq | lt | ltEq | gt | gtEq
  | shl | shr | add | sub | mul | div | mod
  | index
  deriving DecidableEq

namespace BinaryOp

def operator : BinaryOp → Operator
  | assign => .assign
  | addAssign => .addAssign
  | subAssign => .subAssign
  | mulAssign => .mulAssign
  | divAssign => .divAssign
  | modAssign => .modAssign
  | shlAssign => .shlAssign
  | shrAssign => .shrAssign
  | andAssign => .andAssign
  | orAssign => .orAssign
  | xorAssign => .xorAssign
  | condOr => .condOr
  | condAnd => .condAnd
  | bitOr => .bitOr
  | bitXor => .bitXor
  | bitAnd => .bitAnd
  | eq => .eq
  | notEq => .notEq
  | lt => .lt
  | ltEq => .ltEq
  | gt => .gt
  | gtEq => .gtEq
  | shl => .shl
  | shr => .shr
  | add => .add
  | sub => .sub
  | mul => .mul
  | div => .div
  | mod => .mod
  | index => .index

def spelling (op : BinaryOp) : String := op.operator.spelling

def priority (op : BinaryOp) : Priority := op.operator.priority

def isAssignment (op : BinaryOp) : Bool := op.priority = .assign

def isEquality (op : BinaryOp) : Bool := op.priority = .equality

def isComparison (op : BinaryOp) : Bool := op.priority = .relational

def isArithmetic : BinaryOp → Bool
  | bitOr | bitXor | bitAnd | shl | shr | add | sub | mul | div | mod => true
  | _ => false

/-- The level an operator asks of its left operand. Equality and relational operators never
chain, and an assignment target has to bind tighter than the conditional. -/
def leftPriority (op : BinaryOp) : Priority :=
  match op.priority with
  | .assign => .condOr
  | .equality => .relational
  | .relational => .shift
  | p => p

/-- The level an operator asks of its right operand: its own where a chain may be regrouped or
groups to the right, one tighter where it groups to the left, and none inside an index. -/
def rightPriority (op : BinaryOp) : Priority :=
  match op.priority with
  | .equality => .relational
  | .relational => .shift
  | .shift => .additive
  | .additive => .multiplicative
  | .multiplicative => .unary
  | .primary => .statement
  | p => p

/-- The contexts in which an operator is always parenthesized: `&` inside `&&` and `||`, and `^`
inside `|`. -/
def groupedIn : BinaryOp → List Priority
  | bitAnd => [.condAnd, .condOr]
  | bitXor => [.bitOr]
  | _ => []

end BinaryOp

inductive PrefixOp
  | neg
  | plus
  | complement
  | not
  | increment
  | decrement
  deriving DecidableEq

def PrefixOp.operator : PrefixOp → Operator
  | neg => .neg
  | plus => .plus
  | complement => .complement
  | not => .not
  | increment => .preIncrement
  | decrement => .preDecrement

def PrefixOp.spelling (op : PrefixOp) : String := op.operator.spelling

inductive PostfixOp
  | increment
  | decrement
  deriving DecidableEq

def PostfixOp.operator : PostfixOp → Operator
  | increment => .postIncrement
  | decrement => .postDecrement

def PostfixOp.spelling (op : PostfixOp) : String := op.operator.spelling

end CppEmission
