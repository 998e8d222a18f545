import CppEmission.Proofs.Acceptance.Phrase
import CppEmission.Proofs.Header.Occurrence

namespace CppEmission

namespace Expr

def elementBoundary (list value : Expr) : List (Ty × Expr) :=
  match list.ty with
  | .list t => [(t, value)]
  | _ => []

def boundaries : Expr → List (Ty × Expr)
  | binary _ .assign l r => [(l.ty, r)]
  | conditional n _ t f => [(n.ty, t), (n.ty, f)]
  | collection n items => n.ty.elem?.toList.flatMap fun t => items.map (t, ·)
  | varDecl _ _ t value => value.toList.map (t, ·)
  | call _ f _ args => f.params.zip args
  | intrinsic n .mathMin _ [a, b] | intrinsic n .mathMax _ [a, b] => [(n.ty, a), (n.ty, b)]
  | intrinsic _ .listAdd (some r) [e] | intrinsic _ .listContains (some r) [e]
  | intrinsic _ .listInsert (some r) [_, e] => elementBoundary r e
  | _ => []

def isStringOperator : Expr → Bool
  | binary n op l r =>
    (op.isEquality || op.isComparison) && l.isLiteral && l.ty.isString ||
      op = .add && n.ty.isString || op = .addAssign && l.ty.isString && !r.ty.isString
  | _ => false

def Throughout (P : Expr → Prop) (e : Expr) : Prop := ∀ sub, Occurs sub e → P sub

namespace Throughout

variable {P Q : Expr → Prop} {e c : Expr}

theorem here (h : e.Throughout P) : P e := h e .here

theorem child (h : e.Throughout P) (hc : c ∈ e.children) : c.Throughout P :=
  fun sub occurs => h sub (.inside hc occurs)

theorem imp (h : e.Throughout P) (hPQ : ∀ e, P e → Q e) : e.Throughout Q :=
  fun sub occurs => hPQ sub (h sub occurs)

theorem of_children (here : P e) (inside : ∀ c ∈ e.children, c.Throughout P) :
    e.Throughout P := by
  rintro sub (_ | ⟨hc, occurs⟩)
  · exact here
  · exact inside _ hc sub occurs

theorem leaf (here : P e) (childless : e.children = []) : e.Throughout P :=
  of_children here (by simp [childless])

end Throughout

end Expr

namespace Context

def under (cx : Context) (d : Dialect) (p : Program) : Context :=
  { cx with dialect := d, program := p }

/-- What an expression takes from its target and its program, the parts inside it aside, is the same
under others. -/
structure AlikeAt (cx : Context) (d : Dialect) (p : Program) (e : Expr) : Prop where
  boundary : ∀ b ∈ e.boundaries, d.convert b.1 b.2 = cx.dialect.convert b.1 b.2
  operator : e.isStringOperator → d.stringOperators = cx.dialect.stringOperators
  resource : ∀ {n name}, e = .resource n name → p.hasResource name = cx.program.hasResource name

def Alike (cx : Context) (d : Dialect) (p : Program) (e : Expr) : Prop :=
  e.Throughout (cx.AlikeAt d p)

variable {cx : Context} {d : Dialect} {p : Program}

theorem coercedWithin_under {t : Ty} {o : Operand}
    (h : d.convert t o.expr = cx.dialect.convert t o.expr) (parent : Priority) :
    (cx.under d p).coercedWithin t o parent = cx.coercedWithin t o parent := by
  have conversion : (cx.under d p).dialect.convert t o.expr = cx.dialect.convert t o.expr := h
  rw [coercedWithin, coercedWithin, conversion]
  rfl

theorem items_under {elem : Option Ty} {os : List Operand}
    (h : ∀ t ∈ elem, ∀ o ∈ os, d.convert t o.expr = cx.dialect.convert t o.expr) :
    (cx.under d p).items elem os = cx.items elem os := by
  induction os with
  | nil => rfl
  | cons o os ih =>
    have rest := ih fun t ht o ho => h t ht o (List.mem_cons_of_mem _ ho)
    cases elem with
    | none => simp only [items, rest]
    | some t => simp only [items, rest, coercedWithin_under (h t rfl o List.mem_cons_self)]

theorem arguments_under {params : List Ty} {os : List Operand}
    (h : ∀ a ∈ params.zip os, d.convert a.1 a.2.expr = cx.dialect.convert a.1 a.2.expr) :
    (cx.under d p).arguments params os = cx.arguments params os := by
  induction os generalizing params with
  | nil => cases params <;> rfl
  | cons o os ih =>
    cases params with
    | nil => rw [arguments, arguments, ih (by simp)]
    | cons t params =>
      obtain ⟨ho, hos⟩ := List.forall_mem_cons.1 h
      rw [arguments, arguments, coercedWithin_under ho, ih hos]

theorem declared_under {name : String} {t : Ty} {value : Option Operand}
    (h : ∀ o ∈ value, d.convert t o.expr = cx.dialect.convert t o.expr) :
    (cx.under d p).declared name t value = cx.declared name t value := by
  cases value with
  | none => rfl
  | some o =>
    simp only [declared, coercedWithin_under (h o rfl)]
    rfl

section Operators

variable {op : BinaryOp} {l r : Operand}

theorem compared_under (h : l.isStringLiteral → d.stringOperators = cx.dialect.stringOperators)
    (parent : Priority) :
    (cx.under d p).compared op l r parent = cx.compared op l r parent := by
  cases literal : l.isStringLiteral with
  | false => simp [compared, literal]
  | true =>
    have same : (cx.under d p).dialect.stringOperators = cx.dialect.stringOperators := h literal
    rw [compared, compared, same]

theorem assigned_under
    (operators : op = .addAssign → l.expr.ty.isString → r.expr.ty.isString = false →
      d.stringOperators = cx.dialect.stringOperators)
    (value : op = .assign →
      d.convert l.expr.ty r.expr = cx.dialect.convert l.expr.ty r.expr) (parent : Priority) :
    (cx.under d p).assigned op l r parent = cx.assigned op l r parent := by
  have asIs : (cx.under d p).assignedAsIs op l r parent = cx.assignedAsIs op l r parent := by
    rw [assignedAsIs, assignedAsIs]
    split
    next assigns => rw [coercedWithin_under (value assigns)]
    · rfl
  rw [assigned, assigned, asIs]
  by_cases appends : op = .addAssign ∧ l.expr.ty.isString ∧ r.expr.ty.isString = false
  · have same : (cx.under d p).dialect.stringOperators = cx.dialect.stringOperators :=
      operators appends.1 appends.2.1 appends.2.2
    rw [same]
  · rw [if_neg, if_neg]
    · simp_all
    · simp_all

theorem binary_under {ty : Ty}
    (compares : op.isEquality || op.isComparison → l.isStringLiteral →
      d.stringOperators = cx.dialect.stringOperators)
    (adds : op = .add → ty.isString → d.stringOperators = cx.dialect.stringOperators)
    (appends : op = .addAssign → l.expr.ty.isString → r.expr.ty.isString = false →
      d.stringOperators = cx.dialect.stringOperators)
    (value : op = .assign →
      d.convert l.expr.ty r.expr = cx.dialect.convert l.expr.ty r.expr) (parent : Priority) :
    (cx.under d p).binary ty op l r parent = cx.binary ty op l r parent := by
  rw [binary, binary, assigned_under appends value]
  split
  · rfl
  split
  next h => exact compared_under (compares h) parent
  split
  next h =>
    obtain ⟨add, string⟩ := Bool.and_eq_true_iff.1 h
    have same : (cx.under d p).dialect.stringOperators = cx.dialect.stringOperators :=
      adds (by simpa using add) string
    rw [concatenated, concatenated, same]
  · rfl

end Operators

theorem conditional_under {ty : Ty} {c t f : Operand}
    (onTrue : d.convert ty t.expr = cx.dialect.convert ty t.expr)
    (onFalse : d.convert ty f.expr = cx.dialect.convert ty f.expr) (parent : Priority) :
    (cx.under d p).conditional ty c t f parent = cx.conditional ty c t f parent := by
  rw [conditional, conditional, coercedWithin_under onTrue, coercedWithin_under onFalse]

theorem methodCall_under {f : Signature} {receiver : Option Operand} {args : List Operand}
    (h : ∀ a ∈ f.params.zip args, d.convert a.1 a.2.expr = cx.dialect.convert a.1 a.2.expr) :
    (cx.under d p).methodCall f receiver args = cx.methodCall f receiver args := by
  rw [methodCall, methodCall, arguments_under h]
  rfl

theorem extremum_under {n : Note} {function : String} {a b : Operand}
    (ha : d.convert n.ty a.expr = cx.dialect.convert n.ty a.expr)
    (hb : d.convert n.ty b.expr = cx.dialect.convert n.ty b.expr) :
    (cx.under d p).extremum n function a b = cx.extremum n function a b := by
  rw [extremum, extremum, coercedWithin_under ha, coercedWithin_under hb]
  rfl

theorem element_under {r o : Operand}
    (h : ∀ b ∈ Expr.elementBoundary r.expr o.expr,
      d.convert b.1 b.2 = cx.dialect.convert b.1 b.2) :
    (cx.under d p).element r o = cx.element r o := by
  rw [element, element]
  rw [Expr.elementBoundary] at h
  split
  next t ty =>
    rw [ty] at h
    exact coercedWithin_under (h _ List.mem_cons_self) _
  · rfl

theorem libraryCall_under {n : Note} {f : Intrinsic} {receiver : Option Expr} {args : List Expr}
    (h : ∀ b ∈ (Expr.intrinsic n f receiver args).boundaries,
      d.convert b.1 b.2 = cx.dialect.convert b.1 b.2) :
    (cx.under d p).libraryCall n f (cx.operand? receiver) (cx.operands args) =
      cx.libraryCall n f (cx.operand? receiver) (cx.operands args) := by
  -- the receiver and the number of arguments come first: only with them known is it open which
  -- form the function has
  match receiver, args with
  | some r, [a] =>
    cases f with
    | listAdd | listContains =>
      have value : (cx.under d p).element ⟨r, cx.render r⟩ ⟨a, cx.render a⟩ =
          cx.element ⟨r, cx.render r⟩ ⟨a, cx.render a⟩ := element_under h
      simp only [operand?, operands, libraryCall, value]
    | _ => rfl
  | some r, [a, b] =>
    cases f with
    | mathMin | mathMax =>
      exact funext fun _ => extremum_under (h (n.ty, a) List.mem_cons_self)
        (h (n.ty, b) (by simp [Expr.boundaries]))
    | listInsert =>
      have value : (cx.under d p).element ⟨r, cx.render r⟩ ⟨b, cx.render b⟩ =
          cx.element ⟨r, cx.render r⟩ ⟨b, cx.render b⟩ := element_under h
      simp only [operand?, operands, libraryCall, value]
    | _ => rfl
  | none, [a, b] =>
    cases f with
    | mathMin | mathMax =>
      exact funext fun _ => extremum_under (h (n.ty, a) List.mem_cons_self)
        (h (n.ty, b) (by simp [Expr.boundaries]))
    | _ => rfl
  | none, [] | some r, [] | none, [a] | none, a :: b :: c :: rest | some r, a :: b :: c :: rest =>
    cases f <;> rfl

theorem resourceText_under {n : Note} {name : String}
    (h : p.hasResource name = cx.program.hasResource name) :
    (cx.under d p).resourceText n name = cx.resourceText n name := by
  rw [resourceText, resourceText, ← h]
  rfl

mutual

-- the functions of the context are compared as such: an operand hands on the whole of them
theorem renders_under : ∀ {e : Expr}, cx.Alike d p e → (cx.under d p).render e = cx.render e
  | .literal .., _ | .self _, _ | .base _, _ => rfl
  | .symbol note left s, h => by
    rw [render, render, operand?_under fun e he => h.child (Option.mem_toList.2 he)]
    rfl
  | .prefixed _ op e, h | .postfixed _ op e, h => by
    rw [render, render, renders_under (h.child List.mem_cons_self)]
  | .binary note op l r, h => by
    have left := renders_under (h.child (c := l) (by simp [Expr.children]))
    have right := renders_under (h.child (c := r) (by simp [Expr.children]))
    rw [render, render, left, right]
    refine funext (binary_under ?_ ?_ ?_ ?_)
    · intro compares literal
      obtain ⟨literal, string⟩ := Bool.and_eq_true_iff.1 literal
      exact h.here.operator (by simp_all [Expr.isStringOperator])
    · rintro rfl string
      exact h.here.operator (by simp [Expr.isStringOperator, string])
    · rintro rfl (string : l.ty.isString) (other : r.ty.isString = false)
      exact h.here.operator (by simp [Expr.isStringOperator, string, other])
    · rintro rfl
      exact h.here.boundary _ List.mem_cons_self
  | .conditional note c t f, h => by
    have test := renders_under (h.child (c := c) (by simp [Expr.children]))
    have onTrue := renders_under (h.child (c := t) (by simp [Expr.children]))
    have onFalse := renders_under (h.child (c := f) (by simp [Expr.children]))
    rw [render, render, test, onTrue, onFalse]
    exact funext (conditional_under (h.here.boundary (note.ty, t) (by simp [Expr.boundaries]))
      (h.here.boundary (note.ty, f) (by simp [Expr.boundaries])))
  | .collection note es, h => by
    have parts : ∀ e ∈ es, cx.Alike d p e := fun e he => h.child he
    rw [render, render, operands_under parts, collection, collection, items_under]
    intro t elem
    rw [operands_eq_map]
    exact List.forall_mem_map.2 fun e he =>
      h.here.boundary (t, e) (by simp [Expr.boundaries, Option.mem_def.1 elem, he])
  | .varDecl _ name ty value, h => by
    rw [render, render, operand?_under fun e he => h.child (Option.mem_toList.2 he),
      declared_under]
    cases value with
    | none => exact nofun
    | some e => rintro _ ⟨⟩; exact h.here.boundary (ty, e) List.mem_cons_self
  | .call _ f receiver args, h => by
    rw [render, render,
      operand?_under fun e he => h.child (List.mem_append_left _ (Option.mem_toList.2 he)),
      operands_under fun e he => h.child (List.mem_append_right _ he), methodCall_under]
    rw [operands_eq_map, List.zip_map_right]
    exact List.forall_mem_map.2 h.here.boundary
  | .intrinsic note f receiver args, h => by
    rw [render, render,
      operand?_under fun e he => h.child (List.mem_append_left _ (Option.mem_toList.2 he)),
      operands_under fun e he => h.child (List.mem_append_right _ he),
      libraryCall_under h.here.boundary]
  | .new note length, h => by
    rw [render, render, operand?_under fun e he => h.child (Option.mem_toList.2 he)]
    rfl
  | .resource note name, h => by rw [render, render, resourceText_under (h.here.resource rfl)]

theorem operand?_under : ∀ {e : Option Expr}, (∀ x ∈ e, cx.Alike d p x) →
    (cx.under d p).operand? e = cx.operand? e
  | none, _ => rfl
  | some e, h => by rw [operand?, operand?, renders_under (h e rfl)]

theorem operands_under : ∀ {es : List Expr}, (∀ x ∈ es, cx.Alike d p x) →
    (cx.under d p).operands es = cx.operands es
  | [], _ => rfl
  | e :: es, h => by
    rw [operands, operands, renders_under (h e List.mem_cons_self),
      operands_under fun x hx => h x (List.mem_cons_of_mem _ hx)]

end

variable {e : Expr}

theorem operand_under (h : cx.Alike d p e) : (cx.under d p).operand e = cx.operand e := by
  rw [operand, operand, renders_under h]

theorem render_under (h : cx.Alike d p e) (parent : Priority) :
    (cx.under d p).render e parent = cx.render e parent := by
  rw [renders_under h]

theorem coerce_under {target : Ty} (h : cx.Alike d p e)
    (fits : d.convert target e = cx.dialect.convert target e) (parent : Priority) :
    (cx.under d p).coerce target e parent = cx.coerce target e parent := by
  rw [coerce, coerce, operand_under h]
  exact coercedWithin_under fits parent

end Context

end CppEmission
