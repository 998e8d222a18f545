import CppEmission.Proofs.Surface.Emission

namespace CppEmission

open Surface

namespace Surface.Term

variable {ν μ : Type}

def operands : Term ν → List (Term ν)
  | nothing | name _ | literal _ | braces _ => []
  | before _ t | after _ t | member t _ _ | list t | declaration _ _ t => [t]
  | between _ t u | index t u | call t u => [t, u]
  | conditional c t u => [c, t, u]

/-- The tree is an operand of another, or one of its operands, at any depth. -/
inductive IsPart (t : Term ν) : Term ν → Prop
  | whole : IsPart t t
  | operand : u ∈ s.operands → IsPart t u → IsPart t s

def isLink : Term ν → Bool
  | between op _ _ => chains.contains op
  | _ => false

/-- The tree is a part of another that stays one when chains are grouped to the left: it is in none
that an operator of the same kind has on its right. -/
inductive Stays (t : Term ν) : Term ν → Prop
  | whole : Stays t t
  | within : Stays t u → u ∈ s.operands → s.isLink = false → Stays t s
  | left : Stays t l → Stays t (between op l r)
  | right : Stays t r → (op ∈ chains → ∀ a b, r ≠ between op a b) → Stays t (between op l r)

variable {s t u : Term ν}

theorem IsPart.trans (h : IsPart s t) (h' : IsPart t u) : IsPart s u := by
  induction h' with
  | whole => exact h
  | operand mem _ ih => exact .operand mem ih

theorem isPart_iff : IsPart t s ↔ t = s ∨ ∃ u ∈ s.operands, IsPart t u := by
  constructor
  · rintro (_ | ⟨mem, h⟩)
    · exact .inl rfl
    · exact .inr ⟨_, mem, h⟩
  · rintro (rfl | ⟨u, mem, h⟩)
    · exact .whole
    · exact .operand mem h

@[simp] theorem isPart_name {x : ν} : IsPart t (name x) ↔ t = name x := by
  simp [isPart_iff (s := name x), operands]

@[simp] theorem isPart_between {op : String} {l r : Term ν} :
    IsPart t (between op l r) ↔ t = between op l r ∨ IsPart t l ∨ IsPart t r := by
  simp [isPart_iff (s := between op l r), operands]

theorem operands_map (f : ν → μ) (t : Term ν) : (t.map f).operands = t.operands.map (·.map f) := by
  cases t <;> rfl

theorem IsPart.map (f : ν → μ) (h : IsPart t s) : IsPart (t.map f) (s.map f) := by
  induction h with
  | whole => exact .whole
  | operand mem _ ih => exact .operand (operands_map f _ ▸ List.mem_map_of_mem mem) ih

theorem isPart_graft (op : String) (l r : Term ν) : IsPart l (graft op l r) := by
  induction r with
  | between op' a b iha =>
    rw [graft]
    split
    · exact .operand List.mem_cons_self iha
    · exact .operand List.mem_cons_self .whole
  | _ => exact .operand List.mem_cons_self .whole

theorem isPart_leftward_left (op : String) (l r : Term ν) :
    IsPart l.leftward (between op l r).leftward := by
  rw [leftward]
  split
  · exact isPart_graft _ _ _
  · exact .operand List.mem_cons_self .whole

theorem isPart_leftward_right {op : String} {l r : Term ν}
    (apart : op ∈ chains → ∀ a b, r ≠ between op a b) :
    IsPart r.leftward (between op l r).leftward := by
  rw [leftward]
  split
  · next chain =>
    rw [graft_eq_between (leftward_ne_between (apart chain))]
    exact .operand (by simp [operands]) .whole
  · exact .operand (by simp [operands]) .whole

theorem isPart_leftward (mem : u ∈ s.operands) (single : s.isLink = false) :
    IsPart u.leftward s.leftward := by
  cases s with
  | nothing | name | literal | braces => cases mem
  | between op l r =>
    obtain rfl | rfl : u = l ∨ u = r := by simpa [operands] using mem
    · exact isPart_leftward_left op _ _
    · exact isPart_leftward_right fun chain => by simp [isLink, chain] at single
  | _ => exact .operand (List.mem_map_of_mem (f := leftward) mem) .whole

theorem Stays.isPart (h : Stays t s) : IsPart t.leftward s.leftward := by
  induction h with
  | whole => exact .whole
  | within _ mem single ih => exact ih.trans (isPart_leftward mem single)
  | left _ ih => exact ih.trans (isPart_leftward_left _ _ _)
  | right _ apart ih => exact ih.trans (isPart_leftward_right apart)

theorem stays_items {ts : List (Term ν)} (mem : u ∈ ts) (h : Stays t u) : Stays t (items ts) := by
  cases ts with
  | nil => cases mem
  | cons v ts =>
    show Stays t (ts.foldl (.between ",") v)
    have first {v : Term ν} (h : Stays t v) (ts : List (Term ν)) :
        Stays t (ts.foldl (.between ",") v) := by
      induction ts generalizing v with
      | nil => exact h
      | cons w ts ih => exact ih (h.within List.mem_cons_self rfl)
    rcases List.mem_cons.1 mem with rfl | mem
    · exact first h ts
    · induction ts generalizing v with
      | nil => cases mem
      | cons w ts ih =>
        rcases List.mem_cons.1 mem with rfl | mem
        · exact first (h.within (by simp [operands]) rfl) ts
        · exact ih _ (List.mem_cons_of_mem _ mem) mem

theorem Stays.argument {ts : List (Term ν)} (h : Stays t u) (mem : u ∈ ts) (f : Term ν) :
    Stays t (.call f (items ts)) :=
  (stays_items mem h).within (by simp [operands]) rfl

theorem Stays.calling {t u : Term Name} (h : Stays t u) {ts : List (Term Name)} (mem : u ∈ ts)
    (x : Name) : Stays t (.calling x ts) := h.argument mem _

theorem Stays.receiver {t u : Term Name} (h : Stays t u) (method : String) (ts : List (Term Name)) :
    Stays t (u.calls method ts) :=
  have member : Stays t (.member u "." (.plain method)) := h.within List.mem_cons_self rfl
  member.within List.mem_cons_self rfl

end Surface.Term

open Term (Stays)

variable {t : Term Name} {x y z : Part} {cx : Context}

theorem Conversion.stays (c : Conversion) (target : Ty) (h : Stays t u) :
    Stays t (c.tree target u) := by
  cases c with
  | keep => exact h
  | prepend => exact h.within List.mem_cons_self rfl
  | append => exact h.receiver _ _
  | call => exact h.calling List.mem_cons_self _

namespace Part

theorem stays_converted (x : Part) (target : Ty) : Stays x.tree (x.converted target) := by
  rw [converted]
  split
  · exact Conversion.stays _ target .whole
  · exact .whole

theorem stays_member (x : Part) (name : Name) : Stays x.tree (x.member name) :=
  Stays.whole.within List.mem_cons_self rfl

theorem stays_asView (x : Part) : Stays x.tree x.asView :=
  Stays.whole.calling List.mem_cons_self _

theorem stays_asOwned (x : Part) : Stays x.tree x.asOwned :=
  Stays.whole.calling List.mem_cons_self _

theorem stays_asNumberText (x : Part) : Stays x.tree x.asNumberText :=
  Stays.whole.calling List.mem_cons_self _

theorem stays_leadingSummand (x : Part) : Stays x.tree x.leadingSummand := by
  rw [leadingSummand]
  split
  · exact .whole
  · exact x.stays_asOwned
  · exact x.stays_asNumberText

theorem stays_trailingSummand (x : Part) : Stays x.tree x.trailingSummand := by
  rw [trailingSummand]
  split
  · exact .whole
  · split
    · exact .whole
    · exact x.stays_asOwned
  · exact x.stays_asNumberText

theorem stays_stringReceiver (x : Part) : Stays x.tree x.stringReceiver := by
  rw [stringReceiver]
  split
  · exact x.stays_asView
  · exact .whole

theorem stays_printable (x : Part) : Stays x.tree x.printable := by
  rw [printable]
  split
  · split
    · exact Stays.whole.calling List.mem_cons_self _
    · exact .whole
  · exact .whole

theorem stays_element (receiver x : Part) : Stays x.tree (receiver.element x) := by
  rw [element]
  split
  · exact x.stays_converted _
  · exact .whole

theorem stays_items (elem : Option Ty) {xs : List Part} (h : x ∈ xs) :
    Stays x.tree (.items (items elem xs)) := by
  refine Term.stays_items (List.mem_map_of_mem h) ?_
  cases elem with
  | none => exact .whole
  | some target => exact x.stays_converted target

theorem stays_arguments {xs : List Part} (h : x ∈ xs) (params : List Ty) :
    Stays x.tree (.items (arguments params xs)) := by
  suffices ∃ u ∈ arguments params xs, Stays x.tree u by
    obtain ⟨u, mem, h⟩ := this
    exact Term.stays_items mem h
  induction xs generalizing params with
  | nil => cases h
  | cons y xs ih =>
    cases params with
    | nil =>
      rcases List.mem_cons.1 h with rfl | h
      · exact ⟨_, List.mem_cons_self, .whole⟩
      · obtain ⟨u, mem, stays⟩ := ih h []
        exact ⟨u, List.mem_cons_of_mem _ mem, stays⟩
    | cons t params =>
      rcases List.mem_cons.1 h with rfl | h
      · exact ⟨_, List.mem_cons_self, x.stays_converted t⟩
      · obtain ⟨u, mem, stays⟩ := ih h params
        exact ⟨u, List.mem_cons_of_mem _ mem, stays⟩

end Part

namespace Expr

/-- The parts that are written where the expression stands. What a static member or a method of
the parent is reached through is not, nor is the receiver of a function that has none. -/
def operands : Expr → List Expr
  | literal .. | self _ | base _ | resource .. => []
  | symbol _ left s =>
    match s.kind with
    | .field _ false => left.toList
    | _ => []
  | prefixed _ _ e | postfixed _ _ e => [e]
  | binary _ _ l r => [l, r]
  | conditional _ c t f => [c, t, f]
  | collection _ items => items
  | varDecl _ _ _ value => value.toList
  | call _ f receiver args =>
    (if f.isStatic || receiver.any isBase then [] else receiver.toList) ++ args
  | intrinsic _ f receiver args => (if f.takesReceiver then receiver.toList else []) ++ args
  | new note length =>
    match note.ty with
    | .array _ (.pointer .shared) => length.toList
    | _ => []

/-- The expression is a chain of an operator that has it on its right: the chain is written without
parentheses, so that the operator takes the first of its links. -/
def Continues (sub : Expr) : Expr → Prop
  | binary _ op _ r => op.spelling ∈ chains ∧ r = sub ∧ ∃ note a b, sub = binary note op a b
  | _ => False

end Expr

namespace Context

theorem mem_part? {e : Expr} {o : Option Expr} (h : e ∈ o.toList) :
    cx.part? o = some (cx.part e) := by
  cases o with
  | none => cases h
  | some e' =>
    obtain rfl : e = e' := by simpa using h
    rfl

theorem mem_parts {e : Expr} {es : List Expr} (h : e ∈ es) : cx.part e ∈ cx.parts es := by
  induction es with
  | nil => cases h
  | cons e' es ih =>
    rcases List.mem_cons.1 h with rfl | h
    · exact List.mem_cons_self
    · exact List.mem_cons_of_mem _ (ih h)

theorem libraryTree_stays {note : Note} {f : Intrinsic} {receiver : Option Operand}
    {part : Option Part} (h : Option.Rel Operand.Denotes receiver part) {os : List Operand}
    {xs : List Part} (hs : List.Forall₂ Operand.Denotes os xs) (p : Priority) :
    Yields (fun _ => (f.takesReceiver → ∀ x ∈ part, Stays x.tree (libraryTree note f part xs)) ∧
      ∀ x ∈ xs, Stays x.tree (libraryTree note f part xs)) (cx.libraryCall note f receiver os p) := by
  have receives {r : Part} {t : Term Name} (h : Stays r.tree t) : ∀ x ∈ some r, Stays x.tree t := by
    rintro _ ⟨⟩
    exact h
  have takes {a : Part} {t : Term Name} (h : Stays a.tree t) : ∀ x ∈ [a], Stays x.tree t := by
    simpa using h
  have searched {r : Part} (method : String) (ts : List (Term Name)) :
      Stays r.tree (r.stringReceiver.calls method ts) :=
    r.stays_stringReceiver.receiver _ _
  have index {r a : Part} : Stays a.tree (.between "+" (r.tree.calls "begin" []) a.tree) :=
    Stays.whole.within (by simp [Term.operands]) rfl
  have second {t u : Term Name} {ts : List (Term Name)} : u ∈ t :: u :: ts :=
    List.mem_cons_of_mem _ List.mem_cons_self
  unfold libraryCall
  split
  case h_21 => exact .error _
  all_goals intro _ _
  case h_1 =>
    obtain ⟨_⟩ := h
    obtain _ | ⟨_, _ | _⟩ := hs
    exact ⟨fun _ => receives ((searched _ _).within List.mem_cons_self rfl),
      takes ((Stays.whole.argument List.mem_cons_self _).within List.mem_cons_self rfl)⟩
  case h_2 | h_3 =>
    obtain ⟨_⟩ := h
    obtain _ | ⟨_, _ | _⟩ := hs
    exact ⟨fun _ => receives (searched _ _),
      takes (Stays.whole.argument List.mem_cons_self _)⟩
  case h_4 | h_5 =>
    obtain ⟨_⟩ := h
    exact ⟨fun _ => receives (searched _ _),
      fun x hx => Stays.whole.argument (List.mem_map_of_mem hx) _⟩
  case h_6 | h_7 =>
    obtain ⟨_⟩ := h
    obtain _ | _ := hs
    exact ⟨fun _ => receives ((searched _ _).calling List.mem_cons_self _), nofun⟩
  case h_8 =>
    obtain ⟨_⟩ := h
    obtain _ | ⟨_, _ | _⟩ := hs
    exact ⟨fun _ => receives (Stays.whole.receiver _ _),
      takes ((Part.stays_element _ _).argument List.mem_cons_self _)⟩
  case h_9 =>
    obtain ⟨_⟩ := h
    obtain _ | ⟨_, _ | ⟨_, _ | _⟩⟩ := hs
    refine ⟨fun _ => receives (Stays.whole.receiver _ _), List.forall_mem_cons.2
      ⟨index.argument List.mem_cons_self _, takes ((Part.stays_element _ _).argument second _)⟩⟩
  case h_10 =>
    obtain ⟨_⟩ := h
    obtain _ | ⟨_, _ | _⟩ := hs
    exact ⟨fun _ => receives (Stays.whole.receiver _ _),
      takes (index.argument List.mem_cons_self _)⟩
  case h_11 | h_12 =>
    obtain ⟨_⟩ := h
    obtain _ | _ := hs
    exact ⟨fun _ => receives (Stays.whole.receiver _ _), nofun⟩
  case h_13 =>
    obtain ⟨_⟩ := h
    obtain _ | ⟨_, _ | _⟩ := hs
    have last {r : Part} : Stays r.tree (r.tree.calls "end" []) := Stays.whole.receiver _ _
    have third {t u v : Term Name} : v ∈ [t, u, v] := List.mem_cons_of_mem _ second
    exact ⟨fun _ => receives (last.within second rfl),
      takes (((Part.stays_element _ _).calling third _).within List.mem_cons_self rfl)⟩
  case h_14 | h_15 =>
    obtain ⟨_⟩ := h
    obtain _ | ⟨_, _ | _⟩ := hs
    exact ⟨fun _ => receives (Stays.whole.receiver _ _),
      takes (Stays.whole.argument List.mem_cons_self _)⟩
  case h_16 | h_17 =>
    obtain _ | ⟨_, _ | ⟨_, _ | _⟩⟩ := hs
    have converted (x : Part) := x.stays_converted note.ty
    exact ⟨nofun, List.forall_mem_cons.2 ⟨(converted _).calling List.mem_cons_self _,
      takes ((converted _).calling second _)⟩⟩
  case h_18 =>
    obtain _ | ⟨_, _ | _⟩ := hs
    exact ⟨nofun, takes (Stays.whole.calling List.mem_cons_self _)⟩
  case h_19 =>
    obtain _ | _ := hs
    exact ⟨nofun, nofun⟩
  case h_20 =>
    obtain _ | ⟨_, _ | _⟩ := hs
    have printed {a : Part} : Stays a.tree (.between "<<" (.name (.library .cout)) a.printable) :=
      (Part.stays_printable _).within (by simp [Term.operands]) rfl
    exact ⟨nofun, takes (printed.within List.mem_cons_self rfl)⟩

theorem binaryTree_stays_left (ty : Ty) (op : BinaryOp) (x y : Part) :
    Stays x.tree (cx.binaryTree ty op x y) := by
  unfold binaryTree
  split
  · unfold assignmentTree
    split <;> exact Stays.whole.left
  split
  · unfold comparisonTree
    split
    · exact x.stays_asView.left
    · exact Stays.whole.left
  split
  · unfold concatenationTree
    split
    · exact x.stays_leadingSummand.left
    · exact Stays.whole.left
  split
  · exact Stays.whole.within List.mem_cons_self rfl
  · exact Stays.whole.left

theorem binaryTree_of_chains {op : BinaryOp} (chain : op.spelling ∈ chains) (ty : Ty) (x y : Part) :
    cx.binaryTree ty op x y = .between op.spelling x.tree y.tree := by
  have plain : op.isAssignment = false ∧ (op.isEquality || op.isComparison) = false ∧ op ≠ .add ∧
      op ≠ .index := by
    revert chain
    cases op <;> decide
  obtain ⟨assign, compare, add, index⟩ := plain
  simp [binaryTree, assign, compare, add, index]

theorem binaryTree_stays_right (ty : Ty) {op : BinaryOp} (x : Part) {y : Part}
    (apart : op.spelling ∈ chains → ∀ a b, y.tree ≠ .between op.spelling a b) :
    Stays y.tree (cx.binaryTree ty op x y) := by
  by_cases chain : op.spelling ∈ chains
  · rw [binaryTree_of_chains chain]
    exact Stays.whole.right apart
  have right {t l r : Term Name} (h : Stays t r) : Stays t (.between op.spelling l r) :=
    h.right fun h => absurd h chain
  have sum {op : String} (hop : op ∉ chains) {t l r : Term Name} (h : Stays t r) :
      Stays t (.between op l r) := h.right fun h => absurd h hop
  unfold binaryTree
  split
  · unfold assignmentTree
    split
    · exact sum (by decide) y.stays_asNumberText
    · refine right ?_
      split
      · exact y.stays_converted _
      · exact .whole
  split
  · exact right .whole
  split
  · unfold concatenationTree
    split
    · exact sum (by decide) y.stays_trailingSummand
    · exact sum (by decide) .whole
  split
  · exact Stays.whole.within (List.mem_cons_of_mem _ List.mem_cons_self) rfl
  · exact right .whole

theorem binaryTree_spelling {ty : Ty} {op : BinaryOp} {x y : Part} {s : String} {a b : Term Name}
    (h : cx.binaryTree ty op x y = .between s a b) : op.spelling = s := by
  unfold binaryTree at h
  split at h
  · unfold assignmentTree at h
    split at h
    · next add =>
      obtain rfl : op = .addAssign := by simp_all
      injection h
    · injection h
  split at h
  · injection h
  split at h
  · next add =>
    obtain rfl : op = .add := by simp_all
    unfold concatenationTree at h
    split at h <;> injection h
  split at h
  · cases h
  · injection h

theorem eq_of_spelling {op op' : BinaryOp} (chain : op.spelling ∈ chains)
    (h : op'.spelling = op.spelling) : op' = op := by
  revert chain h
  cases op <;> first | exact fun chain => absurd chain (by decide) | (cases op' <;> decide)

theorem eq_binary_of_chain {op : BinaryOp} (chain : op.spelling ∈ chains) {e : Expr}
    {a b : Term Name} (h : cx.tree e = .between op.spelling a b) :
    ∃ note l r, e = .binary note op l r := by
  cases e with
  | binary note op' l r =>
    obtain rfl := eq_of_spelling chain (binaryTree_spelling h)
    exact ⟨note, l, r, rfl⟩
  | literal note l =>
    rw [tree] at h
    cases l with
    | null | bool | string => cases h
    | int v =>
      rw [Literal.tree] at h
      split at h
      · cases h
      split at h <;> cases h
    | float v =>
      rw [Literal.tree] at h
      split at h <;> cases h
  | symbol note left s =>
    rw [tree] at h
    unfold symbolTree at h
    split at h <;> cases h
  | new note length =>
    rw [tree] at h
    unfold constructionTree at h
    split at h <;> cases h
  | intrinsic note f receiver args =>
    have apart {s : String} (hs : s ∉ chains) {l r : Term Name} :
        Term.between s l r ≠ .between op.spelling a b := by
      rintro same
      injection same with same
      exact hs (same ▸ chain)
    rw [tree] at h
    unfold libraryTree at h
    split at h
    case h_1 | h_12 | h_18 | h_19 => exact absurd h (apart (by decide))
    all_goals cases h
  | _ => cases h

theorem tree_stays (hcx : cx.dialect.convert = convert) (e : Expr) (p : Priority) :
    Yields (fun _ => ∀ sub ∈ e.operands, ¬ sub.Continues e → Stays (cx.tree sub) (cx.tree e))
      (cx.render e p) := by
  cases e with
  | literal | self | base | resource => exact fun _ _ => nofun
  | symbol note left s =>
    intro _ _ sub mem _
    rcases s with ⟨x, _ | _ | ⟨c, _ | _⟩ | _ | _⟩
    case field.false =>
      show Stays _ (cx.symbolTree (cx.part? left) _)
      rw [mem_part? mem]
      exact (cx.part sub).stays_member _
    all_goals cases mem
  | prefixed note op e | postfixed note op e =>
    intro _ _ sub mem _
    obtain rfl := List.mem_singleton.1 mem
    exact Stays.whole.within List.mem_cons_self rfl
  | binary note op l r =>
    intro _ _ sub mem apart
    rcases List.mem_cons.1 mem with rfl | mem
    · exact binaryTree_stays_left note.ty op (cx.part sub) (cx.part r)
    · obtain rfl := List.mem_singleton.1 mem
      refine binaryTree_stays_right note.ty (cx.part l) (y := cx.part sub) fun chain a b h => ?_
      exact apart ⟨chain, rfl, eq_binary_of_chain chain h⟩
  | conditional note c t f =>
    intro _ _ sub mem _
    have inside {u : Term Name} (h : Stays (cx.tree sub) u)
        (mem : u ∈ (cx.tree (.conditional note c t f)).operands) := h.within mem rfl
    have all : sub = c ∨ sub = t ∨ sub = f := by simpa [Expr.operands] using mem
    rcases all with rfl | rfl | rfl
    · exact inside .whole (by simp [tree, Term.operands])
    · exact inside ((cx.part sub).stays_converted note.ty) (by simp [tree, part, Term.operands])
    · exact inside ((cx.part sub).stays_converted note.ty) (by simp [tree, part, Term.operands])
  | collection note es =>
    intro _ _ sub mem _
    exact (Part.stays_items note.ty.elem? (mem_parts mem)).within List.mem_cons_self rfl
  | varDecl note x ty value =>
    intro _ _ sub mem _
    show Stays _ (.declaration _ _ (Part.initial ty (cx.part? value)))
    rw [mem_part? mem]
    exact ((cx.part sub).stays_converted ty).within List.mem_cons_self rfl
  | call note f receiver args =>
    intro _ _ sub mem _
    rcases List.mem_append.1 mem with mem | mem
    · split at mem
      · cases mem
      next member =>
      show Stays _ (.call (cx.calleeTree f (cx.part? receiver)) _)
      obtain rfl : receiver = some sub := by simpa using mem
      have direct : (f.isStatic || sub.isBase) = false := by simpa using member
      refine Stays.within ?_ List.mem_cons_self rfl
      show Stays _ (if f.isStatic || sub.isBase then _ else _)
      rw [if_neg (by simp [direct])]
      exact (cx.part sub).stays_member _
    · exact (Part.stays_arguments (mem_parts mem) f.params).within
        (List.mem_cons_of_mem _ List.mem_cons_self) rfl
  | intrinsic note f receiver args =>
    have parts : Yields _ (cx.libraryCall note f (cx.operand? receiver) (cx.operands args) p) :=
      libraryTree_stays (operand?_denotes hcx receiver) (operands_denote hcx args) p
    refine parts.imp fun _ stays sub mem _ => ?_
    rcases List.mem_append.1 mem with mem | mem
    · split at mem
      · next takes => exact stays.1 takes (cx.part sub) (mem_part? mem)
      · cases mem
    · exact stays.2 (cx.part sub) (mem_parts mem)
  | new note length =>
    intro _ _ sub mem _
    show Stays _ (constructionTree note.ty (cx.part? length))
    rw [Expr.operands] at mem
    split at mem
    · next ty =>
      rw [ty, mem_part? mem]
      exact Stays.whole.calling List.mem_cons_self _
    · cases mem

end Context

end CppEmission
