import CppEmission.Phrase.OfExpr
import CppEmission.Proofs.Outcome

/-! Whatever writes an expression is given the level of its context and parenthesizes on its own.
What comes of it in all contexts is one phrase: the text that stands where nothing groups it, put in
parentheses by the level and the contexts that the form of the expression has. -/

namespace CppEmission

namespace Phrase

variable {p : Phrase} {parent : Priority}

theorem within_of_isGrouped (h : p.IsGrouped parent) : p.within parent = "(" ++ p.text ++ ")" :=
  if_pos h

theorem within_of_not_isGrouped (h : ¬ p.IsGrouped parent) : p.within parent = p.text :=
  if_neg h

theorem within_statement (h : .statement ∉ p.groupedIn) : p.within .statement = p.text := by
  apply within_of_not_isGrouped
  rintro (mem | lt)
  · exact h mem
  · exact Nat.not_lt_zero _ lt

end Phrase

/-- In its contexts the text is that of one phrase, which binds at `level` and is parenthesized in
the contexts of `grouped` besides. -/
def Threads (level : Priority) (grouped : List Priority)
    (text : Priority → Except EmitError String) : Prop :=
  ∀ parent, text parent =
    (text .statement).map fun t => (Phrase.mk t level grouped).within parent

namespace Threads

variable {level : Priority} {grouped : List Priority} {α : Type}
  {text : Priority → Except EmitError String}

theorem wrapped (t : String) (h : .statement ∉ grouped) :
    Threads level grouped fun parent => .ok ((Phrase.mk t level grouped).within parent) := by
  have bare : (Phrase.mk t level grouped).within .statement = t := Phrase.within_statement h
  intro parent
  simp only [bare, Except.map]

theorem fixed (text : Except EmitError String) : Threads .primary [] fun _ => text := by
  intro parent
  cases text with
  | error e => rfl
  | ok t => exact congrArg _ (Phrase.within_primary t parent).symm

theorem error (e : EmitError) : Threads level grouped fun _ => .error e := fun _ => rfl

theorem bind {x : Except EmitError α} {text : α → Priority → Except EmitError String}
    (h : ∀ a, Threads level grouped (text a)) :
    Threads level grouped fun parent => x >>= (text · parent) := by
  intro parent
  cases x with
  | error e => rfl
  | ok a => exact h a parent

theorem eq_map (h : Threads level grouped text) (parent : Priority) : text parent =
    (do return ⟨← text .statement, level, grouped⟩ : Except EmitError Phrase).map
      (·.within parent) := by
  rw [h parent]
  cases text .statement <;> rfl

theorem of_le (h : Threads level [] text) {parent : Priority} (le : parent ≤ level) :
    text parent = text .statement := by
  have bare (t : String) : (Phrase.mk t level []).within parent = t :=
    Phrase.within_of_not_isGrouped fun
      | .inl mem => List.not_mem_nil mem
      | .inr lt => Nat.not_lt.2 le lt
  rw [h parent]
  simp only [bare]
  cases text .statement <;> rfl

theorem around (h : Threads level grouped text) (c : Conversion) :
    Threads (c.resultPriority?.getD level) (if c = .keep then grouped else []) (c.around text) := by
  cases c with
  | keep => exact h
  | prepend | append | call => exact .bind fun _ => .wrapped _ List.not_mem_nil

end Threads

theorem BinaryOp.statement_not_mem_groupedIn (op : BinaryOp) : .statement ∉ op.groupedIn := by
  cases op <;> simp [groupedIn]

namespace Operand

theorem prefixed_threads (op : PrefixOp) (o : Operand) : Threads .unary [] (prefixed op o) :=
  .bind fun _ => .wrapped _ List.not_mem_nil

theorem between_threads (op : BinaryOp) (l r : Operand) :
    Threads op.priority op.groupedIn (between op l r) :=
  .bind fun _ => .bind fun _ => .wrapped _ op.statement_not_mem_groupedIn

theorem between_eq (op : BinaryOp) (l r : Operand) (parent : Priority) :
    between op l r parent = (l.infixed op r).map (·.within parent) :=
  (between_threads op l r).eq_map parent

theorem comparedAsView_threads (op : BinaryOp) (l r : Operand) :
    Threads op.priority [] (comparedAsView op l r) :=
  .bind fun _ => .bind fun _ => .wrapped _ List.not_mem_nil

theorem appendedAsText_threads (l r : Operand) : Threads .assign [] (appendedAsText l r) :=
  .bind fun _ => .bind fun _ => .wrapped _ List.not_mem_nil

theorem stringSum_threads (l r : Operand) : Threads .additive [] (stringSum l r) :=
  .bind fun _ => .bind fun _ => .wrapped _ List.not_mem_nil

end Operand

def Intrinsic.level : Intrinsic → Priority
  | stringContains | listContains => .equality
  | consoleWriteLine => .shift
  | _ => .primary

namespace Context

variable (cx : Context) (op : BinaryOp) (l r : Operand) (note : Note)

theorem compared_threads : Threads op.priority
    (if cx.dialect.stringOperators && l.isStringLiteral then [] else op.groupedIn)
    (cx.compared op l r) := by
  unfold compared
  split
  · exact l.comparedAsView_threads op r
  · exact l.between_threads op r

theorem compared_eq (parent : Priority) :
    cx.compared op l r parent = (cx.comparison op l r).map (·.within parent) :=
  (cx.compared_threads op l r).eq_map parent

theorem assignedAsIs_threads : Threads .assign [] (cx.assignedAsIs op l r) := by
  have target (value : String) : Threads .assign [] fun parent => do
      let target ← l.within op.leftPriority
      return Phrase.within ⟨target ++ " " ++ op.spelling ++ " " ++ value, .assign, []⟩ parent :=
    .bind fun _ => .wrapped _ List.not_mem_nil
  unfold assignedAsIs
  dsimp only
  split
  · exact .bind target
  · exact .bind target

theorem assignedAsIs_eq (parent : Priority) :
    cx.assignedAsIs op l r parent = (cx.plainAssignment op l r).map (·.within parent) :=
  (cx.assignedAsIs_threads op l r).eq_map parent

theorem assigned_threads : Threads .assign [] (cx.assigned op l r) := by
  unfold assigned
  split
  · exact l.appendedAsText_threads r
  · exact cx.assignedAsIs_threads op l r

theorem assigned_eq (parent : Priority) :
    cx.assigned op l r parent = (cx.assignment op l r).map (·.within parent) :=
  (cx.assigned_threads op l r).eq_map parent

theorem concatenated_threads : Threads .additive [] (cx.concatenated l r) := by
  unfold concatenated
  split
  · exact l.stringSum_threads r
  · exact l.between_threads .add r

theorem concatenated_eq (parent : Priority) :
    cx.concatenated l r parent = (cx.concatenation l r).map (·.within parent) :=
  (cx.concatenated_threads l r).eq_map parent

theorem binary_threads (t : Ty) : Threads op.priority op.groupedIn (cx.binary t op l r) := by
  unfold binary
  split
  next assigns =>
    have same : op.priority = .assign ∧ op.groupedIn = [] := by
      revert assigns
      cases op <;> decide
    rw [same.1, same.2]
    exact cx.assigned_threads op l r
  split
  next compares =>
    have ungrouped : op.groupedIn = [] := by
      revert compares
      cases op <;> decide
    have threads := cx.compared_threads op l r
    rw [ungrouped, ite_self] at threads
    rw [ungrouped]
    exact threads
  split
  next adds =>
    obtain rfl : op = .add := by simpa using (Bool.and_eq_true_iff.1 adds).1
    exact cx.concatenated_threads l r
  split
  next index =>
    subst index
    exact .fixed _
  · exact l.between_threads op r

theorem conditional_threads (t : Ty) (c l r : Operand) :
    Threads .cond [] (cx.conditional t c l r) :=
  .bind fun _ => .bind fun _ => .bind fun _ => .wrapped _ List.not_mem_nil

theorem libraryCall_threads (f : Intrinsic) (receiver : Option Operand) (args : List Operand) :
    Threads f.level [] (cx.libraryCall note f receiver args) := by
  unfold libraryCall
  split
  -- the branches in the order of the definition: searches and output put parentheses around
  -- themselves, the others are calls
  case h_1 | h_13 => exact .bind fun _ => .bind fun _ => .wrapped _ List.not_mem_nil
  case h_19 => exact .wrapped _ List.not_mem_nil
  case h_20 => exact .bind fun _ => .wrapped _ List.not_mem_nil
  case h_21 => exact .error _
  all_goals exact .fixed _

theorem literal_threads (lit : Literal) : Threads lit.level [] (cx.literal note lit) :=
  .bind fun _ => .wrapped _ List.not_mem_nil

end Context

namespace Expr

def level : Expr → Priority
  | literal _ l => l.level
  | prefixed .. => .unary
  | binary _ op _ _ => op.priority
  | conditional .. => .cond
  | intrinsic _ f _ _ => f.level
  | _ => .primary

def groupedIn : Expr → List Priority
  | binary _ op _ _ => op.groupedIn
  | _ => []

end Expr

namespace Context

theorem render_threads (cx : Context) (e : Expr) :
    Threads e.level e.groupedIn (cx.render e) := by
  cases e with
  | literal note l => exact cx.literal_threads note l
  | prefixed note op e => exact Operand.prefixed_threads op _
  | binary note op l r => exact cx.binary_threads op _ _ note.ty
  | conditional note c t f => exact cx.conditional_threads note.ty _ _ _
  | intrinsic note f receiver args => exact cx.libraryCall_threads note f _ _
  | _ => exact .fixed _

def phrase (cx : Context) (e : Expr) : Except EmitError Phrase := do
  return ⟨← cx.render e .statement, e.level, e.groupedIn⟩

theorem render_eq (cx : Context) (e : Expr) (parent : Priority) :
    cx.render e parent = (cx.phrase e).map (·.within parent) :=
  (cx.render_threads e).eq_map parent

end Context

end CppEmission
