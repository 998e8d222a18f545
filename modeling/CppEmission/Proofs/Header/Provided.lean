import CppEmission.Proofs.Header.Entity
import CppEmission.Proofs.Header.Listing
import CppEmission.Proofs.Header.Occurrence

namespace CppEmission

open Surface

namespace Surface.Term

variable {t u v : Term Name} {x y : Name} {s : String}

@[simp] theorem entities_nothing : (nothing : Term Name).entities = [] := rfl

@[simp] theorem entities_name : (name x).entities = x.entities := List.append_nil _

@[simp] theorem entities_literal : (literal s : Term Name).entities = [] := rfl

@[simp] theorem entities_before : (before s t).entities = t.entities := rfl

@[simp] theorem entities_after : (after s t).entities = t.entities := rfl

@[simp] theorem entities_between : (between s t u).entities = t.entities ++ u.entities :=
  List.flatMap_append

@[simp] theorem entities_conditional :
    (conditional t u v).entities = t.entities ++ u.entities ++ v.entities := by
  simp [entities, leaves]

@[simp] theorem entities_index : (index t u).entities = t.entities ++ u.entities :=
  List.flatMap_append

@[simp] theorem entities_call : (call t u).entities = t.entities ++ u.entities :=
  List.flatMap_append

@[simp] theorem entities_member : (member t s x).entities = t.entities ++ x.entities := by
  simp [entities, leaves, Token.entities]

@[simp] theorem entities_braces : (braces x).entities = x.entities := List.append_nil _

@[simp] theorem entities_list : (list t).entities = t.entities := rfl

@[simp] theorem entities_declaration :
    (declaration x y t).entities = x.entities ++ (y.entities ++ t.entities) := rfl

@[simp] theorem entities_items (ts : List (Term Name)) :
    (items ts).entities = ts.flatMap (·.entities) := by
  rw [entities, leaves_items, List.flatMap_assoc]
  rfl

@[simp] theorem entities_calling (args : List (Term Name)) :
    (calling x args).entities = x.entities ++ args.flatMap (·.entities) := by
  rw [calling, entities_call, entities_name, entities_items]

@[simp] theorem entities_calls (args : List (Term Name)) :
    (calls t s args).entities = t.entities ++ args.flatMap (·.entities) := by
  simp [calls, Name.entities]

end Surface.Term

/-- A value of type `t` is made of the expression by a cast or by a constructor of strings. -/
def Expr.IsCastTo (e : Expr) (t : Ty) : Prop := ∃ callee, convert t e = .ok (.call callee)

instance (e : Expr) (t : Ty) : Decidable (e.IsCastTo t) :=
  match h : convert t e with
  | .ok (.call callee) => isTrue ⟨callee, h⟩
  | .ok .keep | .ok (.prepend _) | .ok (.append _) | .error _ =>
    isFalse fun ⟨_, h'⟩ => by rw [h] at h'; cases h'

def Expr.demands : Expr → List Facility
  | literal note (.int v) =>
    (if note.ty.isString then [.stringViews] else []) ++
      if v = Int64.minValue then [.fixedWidthInts] else []
  | literal note _ => if note.ty.isString then [.stringViews] else []
  | binary note op l r =>
    (if op = .add && note.ty.isString && l.ty.isString && r.ty.isString then [.stringStorage]
      else []) ++
      if op = .addAssign && l.ty.isString && !r.ty.isString then [.numberFormatting] else []
  | call _ f _ args =>
    ((f.params.zip args).filter fun a => a.2.IsCastTo a.1).flatMap fun a => a.1.facilities
  | intrinsic _ _ receiver _ => if receiver.any (·.isLiteral) then [.stringViews] else []
  | _ => []

def Expr.IsMet (scalars : Bool) (used : List Facility) (e : Expr) : Prop :=
  scalars → ∀ sub : Expr, sub.Occurs e → sub.demands ⊆ used

structure Expr.IsCovered (scalars : Bool) (used : List Facility) (e : Expr) : Prop where
  facilities : e.facilities ⊆ used
  demands : e.IsMet scalars used

namespace Expr

theorem optFacilities_toList (o : Option Expr) :
    optFacilities o = o.toList.flatMap (·.facilities) := by
  cases o <;> simp [optFacilities]

theorem allFacilities_flatMap (es : List Expr) : allFacilities es = es.flatMap (·.facilities) := by
  induction es with
  | nil => rfl
  | cons e es ih => rw [allFacilities, ih, List.flatMap_cons]

theorem facilities_children (e : Expr) : e.children.flatMap (·.facilities) ⊆ e.facilities := by
  cases e <;> simp [children, facilities, optFacilities_toList, allFacilities_flatMap]

theorem ty_facilities (e : Expr) : e.ty.facilities ⊆ e.facilities := by
  cases e <;> simp [facilities, ty, note]

namespace IsCovered

variable {scalars : Bool} {used : List Facility} {e c : Expr}

theorem child (h : e.IsCovered scalars used) (hc : c ∈ e.children) : c.IsCovered scalars used :=
  ⟨fun _ hf => h.facilities (e.facilities_children (List.mem_flatMap.2 ⟨c, hc, hf⟩)),
    fun counts sub occurs => h.demands counts sub (.inside hc occurs)⟩

theorem ty (h : e.IsCovered scalars used) : e.ty.facilities ⊆ used :=
  List.Subset.trans e.ty_facilities h.facilities

end IsCovered

end Expr

structure Part.IsProvided (scalars : Bool) (used : List Facility) (x : Part) : Prop where
  tree : Provides scalars used x.tree.entities
  ty : x.expr.ty.facilities ⊆ used

theorem Provides.of_mem {scalars : Bool} {used : List Facility} {x : Entity} {f : Facility}
    (hf : f ∈ x.facilities) (h : (x.isScalar → scalars) → f ∈ used) : Provides scalars used [x] :=
  Provides.cons.2 ⟨fun counts => x.isProvided_of_mem hf (h counts), .nil⟩

theorem Ownership.toHandle_ne_call {held : Ownership} {h : Handle} {callee : String} :
    held.toHandle h ≠ .ok (.call callee) := by
  unfold toHandle
  split <;> exact nofun

theorem ArrayShape.toHandle_ne_call {shape : ArrayShape} {h : Handle} {callee : String} :
    shape.toHandle h ≠ .ok (.call callee) := by
  unfold toHandle
  split
  case h_6 => split <;> exact nofun
  all_goals exact nofun

theorem Conversion.callee_provides {scalars : Bool} {used : List Facility} {t : Ty} {e : Expr}
    {text : String} (h : convert t e = .ok (.call text)) (ht : scalars → t.facilities ⊆ used) :
    Provides scalars used (callee t).entities := by
  have integer {k : IntKind} (ht : scalars → (Ty.int k).facilities ⊆ used) :
      Provides scalars used (callee (.int k)).entities :=
    .of_mem (f := .fixedWidthInts) (by decide) fun counts => ht (counts rfl) List.mem_cons_self
  unfold convert at h
  split at h
  · cases h
  split at h
  case h_1 => exact integer ht
  case h_2 | h_3 | h_4 => exact integer ht
  case h_5 | h_6 | h_7 | h_8 | h_9 => exact .nil
  case h_10 =>
    exact .of_mem (f := .stringStorage) (by decide) fun counts => ht (counts rfl) List.mem_cons_self
  case h_11 => exact (Ownership.toHandle_ne_call h).elim
  case h_13 => exact (ArrayShape.toHandle_ne_call h).elim
  case h_12 | h_14 => cases h

namespace Part

variable {scalars : Bool} {used : List Facility} {x l r : Part}

open Term

theorem converted_provides {t : Ty} (h : x.IsProvided scalars used)
    (ht : scalars → x.expr.IsCastTo t → t.facilities ⊆ used) : Provides scalars used (x.converted t).entities := by
  unfold converted
  split
  next c hc =>
    cases c with
    | keep => exact h.tree
    | prepend op => exact h.tree
    | append suffix =>
      rw [Conversion.tree, entities_calls, List.flatMap_nil, List.append_nil]
      exact h.tree
    | call text =>
      rw [Conversion.tree, entities_calling, List.flatMap_singleton]
      have needs (counts : scalars) : t.facilities ⊆ used := ht counts ⟨text, hc⟩
      exact Provides.append.2 ⟨Conversion.callee_provides hc needs, h.tree⟩
  · exact h.tree

theorem calling_provides {y : Library} {f : Facility} (hf : f ∈ (Entity.named y).facilities)
    (scalar : (Entity.named y).isScalar) (h : x.IsProvided scalars used)
    (needs : scalars → f ∈ used) :
    Provides scalars used (Term.calling (.library y) [x.tree]).entities := by
  rw [entities_calling, List.flatMap_singleton]
  exact Provides.append.2 ⟨.of_mem hf fun counts => needs (counts scalar), h.tree⟩

theorem asView_provides (h : x.IsProvided scalars used) (views : scalars → .stringViews ∈ used) :
    Provides scalars used x.asView.entities := calling_provides (by decide) rfl h views

theorem leadingSummand_provides {f : Facility} (hf : f ∈ [.stringStorage, .numberFormatting])
    (h : x.IsProvided scalars used) (strings : scalars → f ∈ used) :
    Provides scalars used x.leadingSummand.entities := by
  unfold leadingSummand
  split
  · exact h.tree
  · exact calling_provides hf rfl h strings
  · exact calling_provides hf rfl h strings

theorem trailingSummand_provides {f : Facility} (hf : f ∈ [.stringStorage, .numberFormatting])
    (h : x.IsProvided scalars used) (strings : scalars → f ∈ used) :
    Provides scalars used x.trailingSummand.entities := by
  unfold trailingSummand
  split
  · exact h.tree
  · split
    · exact h.tree
    · exact calling_provides hf rfl h strings
  · exact calling_provides hf rfl h strings

theorem stringReceiver_provides (h : x.IsProvided scalars used)
    (views : x.expr.isLiteral → scalars → .stringViews ∈ used) :
    Provides scalars used x.stringReceiver.entities := by
  unfold stringReceiver
  split
  next literal => exact asView_provides h (views literal)
  · exact h.tree

theorem printable_provides (h : x.IsProvided scalars used) :
    Provides scalars used x.printable.entities := by
  unfold printable
  split
  · split
    · rw [entities_calling, List.flatMap_singleton]
      exact h.tree
    · exact h.tree
  · exact h.tree

theorem member_provides (h : x.IsProvided scalars used) (name : String) :
    Provides scalars used (x.member (.plain name)).entities := by
  rw [member, entities_member]
  exact Provides.append.2 ⟨h.tree, .nil⟩

theorem element_provides (hr : r.IsProvided scalars used) (h : x.IsProvided scalars used) :
    Provides scalars used (r.element x).entities := by
  unfold element
  split
  next elem list =>
    have elements : elem.facilities ⊆ (Ty.list elem).facilities := List.subset_cons_self _ _
    exact converted_provides h fun _ _ => List.Subset.trans elements (list ▸ hr.ty)
  · exact h.tree

theorem initial_provides {ty : Ty} {value : Option Part}
    (h : ∀ x ∈ value, x.IsProvided scalars used) (ht : ty.facilities ⊆ used) :
    Provides scalars used (initial ty value).entities := by
  cases value with
  | some x => exact converted_provides (h x rfl) fun _ _ => ht
  | none =>
    rw [initial]
    split <;> exact .nil

theorem items_provide {elem : Option Ty} {xs : List Part}
    (ht : ∀ t ∈ elem, t.facilities ⊆ used) (h : ∀ x ∈ xs, x.IsProvided scalars used) :
    Provides scalars used ((items elem xs).flatMap (·.entities)) := by
  rw [items, List.flatMap_map]
  refine List.forall_mem_flatMap.2 fun x hx => ?_
  cases elem with
  | none => exact (h x hx).tree
  | some t => exact converted_provides (h x hx) fun _ _ => ht t rfl

theorem arguments_provide {params : List Ty} {xs : List Part}
    (ht : scalars → ∀ a ∈ params.zip (xs.map (·.expr)), a.2.IsCastTo a.1 → a.1.facilities ⊆ used)
    (h : ∀ x ∈ xs, x.IsProvided scalars used) :
    Provides scalars used ((arguments params xs).flatMap (·.entities)) := by
  induction xs generalizing params with
  | nil => cases params <;> exact .nil
  | cons x xs ih =>
    obtain ⟨hx, hxs⟩ := List.forall_mem_cons.1 h
    cases params with
    | nil =>
      rw [arguments, List.flatMap_cons]
      exact Provides.append.2 ⟨hx.tree, ih (fun _ => by simp) hxs⟩
    | cons t params =>
      simp only [List.map_cons, List.zip_cons_cons, List.forall_mem_cons] at ht
      rw [arguments, List.flatMap_cons]
      exact Provides.append.2 ⟨converted_provides hx fun counts => (ht counts).1,
        ih (fun counts => (ht counts).2) hxs⟩

end Part

namespace Context

variable {scalars : Bool} {used : List Facility} {cx : Context} {l r : Part}

open CppEmission.Part Term

theorem comparisonTree_provides (op : BinaryOp) (hl : l.IsProvided scalars used)
    (hr : r.IsProvided scalars used)
    (views : l.expr.isLiteral → l.expr.ty.isString → scalars → .stringViews ∈ used) :
    Provides scalars used (cx.comparisonTree op l r).entities := by
  rw [comparisonTree, entities_between]
  refine Provides.append.2 ⟨?_, hr.tree⟩
  split
  next literal =>
    simp only [Bool.and_eq_true] at literal
    exact asView_provides hl (views literal.2.1 literal.2.2)
  · exact hl.tree

theorem assignmentTree_provides (op : BinaryOp) (hl : l.IsProvided scalars used)
    (hr : r.IsProvided scalars used)
    (numbers : op = .addAssign → l.expr.ty.isString → !r.expr.ty.isString → scalars →
      .numberFormatting ∈ used) :
    Provides scalars used (cx.assignmentTree op l r).entities := by
  unfold assignmentTree
  split
  next appends =>
    simp only [Bool.and_eq_true, decide_eq_true_eq] at appends
    rw [entities_between]
    exact Provides.append.2 ⟨hl.tree,
      calling_provides (by decide) rfl hr (numbers appends.1.1.2 appends.1.2 appends.2)⟩
  · rw [entities_between]
    refine Provides.append.2 ⟨hl.tree, ?_⟩
    split
    · exact converted_provides hr fun _ _ => hl.ty
    · exact hr.tree

theorem concatenationTree_provides {f : Facility} (hf : f ∈ [.stringStorage, .numberFormatting])
    (hl : l.IsProvided scalars used) (hr : r.IsProvided scalars used)
    (strings : scalars → f ∈ used) :
    Provides scalars used (cx.concatenationTree l r).entities := by
  unfold concatenationTree
  split
  · rw [entities_between]
    exact Provides.append.2
      ⟨leadingSummand_provides hf hl strings, trailingSummand_provides hf hr strings⟩
  · rw [entities_between]
    exact Provides.append.2 ⟨hl.tree, hr.tree⟩

theorem binaryTree_provides {note : Note} {op : BinaryOp} {l r : Expr}
    (h : (Expr.binary note op l r).IsCovered scalars used)
    (hl : Provides scalars used (cx.tree l).entities)
    (hr : Provides scalars used (cx.tree r).entities)
    (views : l.isLiteral → l.ty.isString → scalars → .stringViews ∈ used) :
    Provides scalars used (cx.binaryTree note.ty op ⟨l, cx.tree l⟩ ⟨r, cx.tree r⟩).entities := by
  have hl : Part.IsProvided scalars used ⟨l, cx.tree l⟩ := ⟨hl, (h.child (by simp [Expr.children])).ty⟩
  have hr : Part.IsProvided scalars used ⟨r, cx.tree r⟩ := ⟨hr, (h.child (by simp [Expr.children])).ty⟩
  unfold binaryTree
  split
  · refine assignmentTree_provides op hl hr fun add left right counts => ?_
    exact h.demands counts _ .here (by simp [Expr.demands, add, left, right])
  split
  · exact comparisonTree_provides op hl hr views
  split
  next sum =>
    simp only [Bool.and_eq_true, decide_eq_true_eq] at sum
    cases both : l.ty.isString && r.ty.isString with
    | true =>
      simp only [Bool.and_eq_true] at both
      refine concatenationTree_provides (f := .stringStorage) (by decide) hl hr fun counts => ?_
      exact h.demands counts _ .here (by simp [Expr.demands, sum, both])
    | false =>
      refine concatenationTree_provides (f := .numberFormatting) (by decide) hl hr fun _ => ?_
      have formats : op.formatsNumber note.ty l.ty r.ty := by simp [BinaryOp.formatsNumber, sum, both]
      exact h.facilities (by simp [Expr.facilities, formats])
  split
  · rw [entities_index]
    exact Provides.append.2 ⟨hl.tree, hr.tree⟩
  · rw [entities_between]
    exact Provides.append.2 ⟨hl.tree, hr.tree⟩

theorem symbolTree_provides {left : Option Part} (s : Symbol)
    (h : ∀ x ∈ left, x.IsProvided scalars used) :
    Provides scalars used (cx.symbolTree left s).entities := by
  have own (c x : String) : Provides scalars used (Term.name (cx.ownName c x)).entities := by
    rw [ownName]
    split <;> exact .nil
  unfold symbolTree
  dsimp only
  split
  case h_5 | h_6 => exact own _ _
  case h_9 => exact member_provides (h _ rfl) _
  all_goals exact .nil

theorem calleeTree_provides (f : Signature) {receiver : Option Part}
    (h : ∀ x ∈ receiver, x.IsProvided scalars used) :
    Provides scalars used (cx.calleeTree f receiver).entities := by
  unfold calleeTree ownName
  dsimp only
  split
  · split
    · split <;> exact .nil
    · exact .nil
  · split
    · exact .nil
    · exact member_provides (h _ rfl) _

theorem constructionTree_provides {ty : Ty} {length : Option Part} (own : ty.facilities ⊆ used)
    (h : ∀ x ∈ length, x.IsProvided scalars used) :
    Provides scalars used (constructionTree ty length).entities := by
  unfold constructionTree
  split
  case h_1 =>
    rw [entities_calling]
    exact .of_mem (f := .sharedPointers) (by decide) fun _ => own List.mem_cons_self
  case h_2 elem n =>
    obtain ⟨shared, elem⟩ := List.append_subset.1 own
    rw [entities_calling, List.flatMap_singleton]
    exact Provides.append.2 ⟨Provides.append.2 ⟨.of_mem (f := .sharedPointers) (by decide)
      fun _ => shared List.mem_cons_self, .ty elem⟩, (h _ rfl).tree⟩
  case h_3 =>
    rw [entities_braces]
    exact .ty own
  case h_4 | h_5 | h_6 =>
    rw [entities_calling, List.flatMap_nil, List.append_nil]
    exact .ty own
  case h_7 => exact .nil

theorem libraryTree_provides {note : Note} {f : Intrinsic} {receiver : Option Part}
    {args : List Part} (own : note.ty.facilities ⊆ used) (called : .intrinsic f ∈ used)
    (views : ∀ x ∈ receiver, x.expr.isLiteral → scalars → .stringViews ∈ used)
    (hr : ∀ x ∈ receiver, x.IsProvided scalars used) (ha : ∀ x ∈ args, x.IsProvided scalars used) :
    Provides scalars used (libraryTree note f receiver args).entities := by
  have named {y : Library} (hy : .intrinsic f ∈ (Entity.named y).facilities) :
      Provides scalars used (Term.name (.library y)).entities :=
    .of_mem hy fun _ => called
  unfold libraryTree
  split
  -- the branches in the order of the definition
  case h_1 =>
    rw [entities_between, entities_calls, List.flatMap_singleton]
    exact Provides.append.2 ⟨Provides.append.2 ⟨stringReceiver_provides (hr _ rfl) (views _ rfl),
      (ha _ List.mem_cons_self).tree⟩, named (by decide)⟩
  case h_2 | h_3 =>
    rw [entities_calls, List.flatMap_singleton]
    exact Provides.append.2 ⟨stringReceiver_provides (hr _ rfl) (views _ rfl),
      (ha _ List.mem_cons_self).tree⟩
  case h_4 =>
    rw [entities_calls, List.flatMap_map]
    exact Provides.append.2 ⟨stringReceiver_provides (hr _ rfl) (views _ rfl),
      List.forall_mem_flatMap.2 fun x hx => (ha x hx).tree⟩
  case h_5 | h_6 =>
    rw [entities_calling, List.flatMap_singleton, entities_calls, List.flatMap_nil, List.append_nil]
    exact Provides.append.2 ⟨.ty own, stringReceiver_provides (hr _ rfl) (views _ rfl)⟩
  case h_7 =>
    rw [entities_calls, List.flatMap_singleton]
    exact Provides.append.2 ⟨(hr _ rfl).tree,
      element_provides (hr _ rfl) (ha _ List.mem_cons_self)⟩
  case h_8 =>
    obtain ⟨ha, hb⟩ := List.forall_mem_cons.1 ha
    simp only [entities_calls, entities_between, List.flatMap_cons, List.flatMap_nil,
      List.append_nil, Provides.append]
    exact ⟨(hr _ rfl).tree, ⟨(hr _ rfl).tree, ha.tree⟩,
      element_provides (hr _ rfl) (hb _ List.mem_cons_self)⟩
  case h_9 =>
    simp only [entities_calls, entities_between, List.flatMap_cons, List.flatMap_nil,
      List.append_nil, Provides.append]
    exact ⟨(hr _ rfl).tree, (hr _ rfl).tree, (ha _ List.mem_cons_self).tree⟩
  case h_10 | h_11 =>
    rw [entities_calls, List.flatMap_nil, List.append_nil]
    exact (hr _ rfl).tree
  case h_12 =>
    simp only [entities_calls, entities_calling, entities_between, List.flatMap_cons,
      List.flatMap_nil, List.append_nil, Provides.append]
    exact ⟨⟨named (by decide), (hr _ rfl).tree, (hr _ rfl).tree,
      element_provides (hr _ rfl) (ha _ List.mem_cons_self)⟩, (hr _ rfl).tree⟩
  case h_13 | h_14 =>
    rw [entities_calls, List.flatMap_singleton]
    exact Provides.append.2 ⟨(hr _ rfl).tree, (ha _ List.mem_cons_self).tree⟩
  case h_15 | h_16 =>
    obtain ⟨ha, hb⟩ := List.forall_mem_cons.1 ha
    simp only [entities_calling, List.flatMap_cons, List.flatMap_nil, List.append_nil,
      Provides.append]
    exact ⟨Provides.cons.2 ⟨fun _ => Entity.isProvided_of_mem (by decide) called, .ty own⟩,
      converted_provides ha fun _ _ => own,
        converted_provides (hb _ List.mem_cons_self) fun _ _ => own⟩
  case h_17 =>
    rw [entities_calling, List.flatMap_singleton]
    exact Provides.append.2 ⟨named (by decide), (ha _ List.mem_cons_self).tree⟩
  case h_18 => exact named (by decide)
  case h_19 =>
    simp only [entities_between, Provides.append]
    exact ⟨⟨named (by decide), printable_provides (ha _ List.mem_cons_self)⟩, .nil⟩
  case h_20 => exact .nil

end Context

theorem Literal.tree_provides {scalars : Bool} {used : List Facility} (ty : Ty) {l : Literal}
    (ints : l = .int Int64.minValue → scalars → .fixedWidthInts ∈ used) :
    Provides scalars used (l.tree ty).entities := by
  unfold tree
  split
  case h_3 =>
    split
    next least =>
      exact .of_mem (f := .fixedWidthInts) (by decide) fun counts =>
        ints (congrArg Literal.int least) (counts rfl)
    · split <;> exact .nil
  case h_4 =>
    dsimp only
    split <;> exact .nil
  all_goals exact .nil

theorem Expr.IsCovered.views {scalars : Bool} {used : List Facility} {e : Expr}
    (h : e.IsCovered scalars used) (literal : e.isLiteral) (string : e.ty.isString)
    (counts : scalars) : .stringViews ∈ used := by
  cases e with
  | literal note l =>
    have view : note.ty.isString := string
    exact h.demands counts _ .here (by cases l <;> simp [Expr.demands, view])
  | _ => cases literal

theorem Ty.elem?_facilities {t elem : Ty} (h : elem ∈ t.elem?) : elem.facilities ⊆ t.facilities := by
  cases t with
  | list | array =>
    cases h
    simp [facilities]
  | _ => cases h

namespace Context

variable {scalars : Bool} {used : List Facility} {cx : Context}

open CppEmission.Expr Term

theorem expr_parts (cx : Context) (es : List Expr) : (cx.parts es).map (·.expr) = es := by
  induction es with
  | nil => rfl
  | cons e es ih => rw [parts, List.map_cons, ih]

mutual

-- along the recursion of `tree`
theorem tree_provides : ∀ e : Expr, e.IsCovered scalars used →
    Provides scalars used (cx.tree e).entities
  | .literal note l, h => by
    refine Literal.tree_provides note.ty fun least counts => ?_
    subst least
    exact h.demands counts _ .here (by simp [demands])
  | .symbol note left s, h => symbolTree_provides s (part?_provided left fun c => h.child)
  | .self _, _ | .base _, _ | .resource .., _ => .nil
  | .prefixed _ op e, h | .postfixed _ op e, h => tree_provides e (h.child (by simp [children]))
  | .binary note op l r, h => by
    have left := h.child (c := l) (by simp [children])
    have right := h.child (c := r) (by simp [children])
    exact binaryTree_provides h (tree_provides l left) (tree_provides r right) left.views
  | .conditional note c t f, h => by
    have test := h.child (c := c) (by simp [children])
    have onTrue := h.child (c := t) (by simp [children])
    have onFalse := h.child (c := f) (by simp [children])
    rw [tree, entities_conditional, Provides.append, Provides.append]
    exact ⟨⟨tree_provides c test,
      Part.converted_provides ⟨tree_provides t onTrue, onTrue.ty⟩ fun _ _ => h.ty⟩,
      Part.converted_provides ⟨tree_provides f onFalse, onFalse.ty⟩ fun _ _ => h.ty⟩
  | .collection note es, h => by
    have elements (t : Ty) (ht : t ∈ note.ty.elem?) : t.facilities ⊆ used :=
      List.Subset.trans (Ty.elem?_facilities ht) h.ty
    rw [tree, entities_list, entities_items]
    exact Part.items_provide elements (parts_provided es fun c => h.child)
  | .varDecl note _ ty value, h => by
    have declared : ty.facilities ⊆ used := fun _ hf => h.facilities (by simp [facilities, hf])
    rw [tree, entities_declaration, Provides.append, Provides.append]
    exact ⟨.ty declared, .nil,
      Part.initial_provides (part?_provided value fun c => h.child) declared⟩
  | .call _ f receiver args, h => by
    have receivers := part?_provided receiver fun c hc => h.child (List.mem_append_left _ hc)
    have arguments := parts_provided args fun c hc => h.child (List.mem_append_right _ hc)
    rw [tree, entities_call, entities_items]
    refine Provides.append.2 ⟨calleeTree_provides f receivers,
      Part.arguments_provide (fun counts a ha cast => ?_) arguments⟩
    rw [cx.expr_parts] at ha
    refine List.Subset.trans ?_ (h.demands counts _ .here)
    intro used hused
    exact List.mem_flatMap.2 ⟨a, List.mem_filter.2 ⟨ha, decide_eq_true cast⟩, hused⟩
  | .intrinsic note f receiver args, h => by
    have receivers := part?_provided receiver fun c hc => h.child (List.mem_append_left _ hc)
    have arguments := parts_provided args fun c hc => h.child (List.mem_append_right _ hc)
    have called : .intrinsic f ∈ used := h.facilities (by simp [facilities])
    refine libraryTree_provides h.ty called ?_ receivers arguments
    cases receiver with
    | none => exact nofun
    | some r =>
      rintro _ ⟨⟩ literal counts
      have literal : r.isLiteral := literal
      exact h.demands counts _ .here (by simp [demands, literal])
  | .new note length, h => constructionTree_provides h.ty (part?_provided length fun c => h.child)

theorem part?_provided : ∀ o : Option Expr, (∀ c ∈ o.toList, c.IsCovered scalars used) →
    ∀ x ∈ cx.part? o, x.IsProvided scalars used
  | none, _, _, hx => nomatch hx
  | some e, h, _, rfl =>
    have covered := h e List.mem_cons_self
    ⟨tree_provides e covered, covered.ty⟩

theorem parts_provided : ∀ es : List Expr, (∀ c ∈ es, c.IsCovered scalars used) →
    ∀ x ∈ cx.parts es, x.IsProvided scalars used
  | [], _, _, hx => nomatch hx
  | e :: rest, h, x, hx => by
    obtain ⟨covered, others⟩ := List.forall_mem_cons.1 h
    rcases List.mem_cons.1 hx with rfl | hx
    · exact ⟨tree_provides e covered, covered.ty⟩
    · exact parts_provided rest others x hx

end

end Context

end CppEmission
