import CppEmission.Proofs.Header.Listing
import CppEmission.Proofs.Header.Occurrence
import CppEmission.Proofs.Naming.Escaped

namespace CppEmission

open Surface
open Keyword (escape isReserved)

namespace Surface

def Name.word? : Name → Option String
  | plain x | qualified _ x => some x
  | _ => none

def Token.word? : Token Name → Option String
  | name x => x.word?
  | literal _ | mark _ => none

def Term.words (t : Term Name) : List String := t.leaves.filterMap (·.word?)

def Term.Uses (P : String → Prop) (t : Term Name) : Prop := ∀ x ∈ t.words, P x

namespace Term

variable {P : String → Prop} {t u v : Term Name} {x y : Name} {s : String}

@[simp] theorem uses_nothing : Uses P nothing := nofun

@[simp] theorem uses_literal : Uses P (literal s) := nofun

@[simp] theorem uses_name : Uses P (name x) ↔ ∀ w ∈ x.word?, P w := by
  cases h : x.word? <;> simp [Uses, words, leaves, Token.word?, h]

@[simp] theorem uses_braces : Uses P (braces x) ↔ ∀ w ∈ x.word?, P w := uses_name

@[simp] theorem uses_before : Uses P (before s t) ↔ Uses P t := Iff.rfl

@[simp] theorem uses_after : Uses P (after s t) ↔ Uses P t := Iff.rfl

@[simp] theorem uses_list : Uses P (list t) ↔ Uses P t := Iff.rfl

@[simp] theorem uses_between : Uses P (between s t u) ↔ Uses P t ∧ Uses P u := by
  simp only [Uses, words, leaves, List.filterMap_append, List.forall_mem_append]

@[simp] theorem uses_index : Uses P (index t u) ↔ Uses P t ∧ Uses P u := by
  simp only [Uses, words, leaves, List.filterMap_append, List.forall_mem_append]

@[simp] theorem uses_call : Uses P (call t u) ↔ Uses P t ∧ Uses P u := by
  simp only [Uses, words, leaves, List.filterMap_append, List.forall_mem_append]

@[simp] theorem uses_conditional :
    Uses P (conditional t u v) ↔ (Uses P t ∧ Uses P u) ∧ Uses P v := by
  simp only [Uses, words, leaves, List.filterMap_append, List.forall_mem_append]

@[simp] theorem uses_member : Uses P (member t s x) ↔ Uses P t ∧ ∀ w ∈ x.word?, P w := by
  rw [← uses_name]
  simp only [Uses, words, leaves, List.filterMap_append, List.forall_mem_append]

@[simp] theorem uses_declaration : Uses P (declaration x y t) ↔
    (∀ w ∈ x.word?, P w) ∧ (∀ w ∈ y.word?, P w) ∧ Uses P t := by
  cases hx : x.word? <;> cases hy : y.word? <;> simp [Uses, words, leaves, Token.word?, hx, hy]

@[simp] theorem uses_items {ts : List (Term Name)} : Uses P (items ts) ↔ ∀ t ∈ ts, Uses P t := by
  simp only [Uses, words, leaves_items, List.filterMap_flatMap, List.forall_mem_flatMap]

@[simp] theorem uses_calling {args : List (Term Name)} :
    Uses P (calling x args) ↔ (∀ w ∈ x.word?, P w) ∧ ∀ t ∈ args, Uses P t := by
  rw [calling, uses_call, uses_name, uses_items]

@[simp] theorem uses_calls {args : List (Term Name)} :
    Uses P (calls t s args) ↔ (Uses P t ∧ P s) ∧ ∀ t ∈ args, Uses P t := by
  simp [calls, Name.word?]

end Term

end Surface

def Expr.FindsIn (P : String → Prop) (e : Expr) : Prop :=
  ∀ note name, (Expr.resource note name).Occurs e → P (resourceIdentifier name)

theorem Expr.FindsIn.child {P : String → Prop} {e c : Expr} (h : e.FindsIn P)
    (hc : c ∈ e.children) : c.FindsIn P :=
  fun note name occurs => h note name (.inside hc occurs)

section Expressions

variable {P : String → Prop} (free : ∀ x, isReserved x = false → P x)

include free in
theorem escape_uses (x : String) : P (escape x) := free _ (Keyword.isReserved_escape x)

namespace Part

variable {x l r : Part}

theorem asView_uses (h : x.tree.Uses P) : x.asView.Uses P := by simpa [asView, Name.word?] using h

theorem asOwned_uses (h : x.tree.Uses P) : x.asOwned.Uses P := by
  simpa [asOwned, Name.word?] using h

theorem asNumberText_uses (h : x.tree.Uses P) : x.asNumberText.Uses P := by
  simpa [asNumberText, Name.word?] using h

theorem leadingSummand_uses (h : x.tree.Uses P) : x.leadingSummand.Uses P := by
  unfold leadingSummand
  split
  · exact h
  · exact asOwned_uses h
  · exact asNumberText_uses h

theorem trailingSummand_uses (h : x.tree.Uses P) : x.trailingSummand.Uses P := by
  unfold trailingSummand
  split
  · exact h
  · split
    · exact h
    · exact asOwned_uses h
  · exact asNumberText_uses h

theorem stringReceiver_uses (h : x.tree.Uses P) : x.stringReceiver.Uses P := by
  unfold stringReceiver
  split
  · exact asView_uses h
  · exact h

theorem printable_uses (h : x.tree.Uses P) : x.printable.Uses P := by
  unfold printable
  split
  · split
    · simpa [Name.word?] using h
    · exact h
  · exact h

theorem member_uses {name : String} (h : x.tree.Uses P) (hn : P name) :
    (x.member (.plain name)).Uses P := by
  simpa [member, Name.word?] using ⟨h, hn⟩

include free

theorem converted_uses (t : Ty) (h : x.tree.Uses P) : (x.converted t).Uses P := by
  unfold converted
  split
  next c _ =>
    cases c with
    | keep | prepend => exact h
    | append suffix =>
      refine Term.uses_calls.2 ⟨⟨h, ?_⟩, List.forall_mem_nil _⟩
      split <;> exact free _ (by decide)
    | call => cases t <;> simpa [Conversion.tree, Conversion.callee, Name.word?] using h
  · exact h

theorem element_uses (h : x.tree.Uses P) : (r.element x).Uses P := by
  unfold element
  split
  · exact converted_uses free _ h
  · exact h

theorem initial_uses (ty : Ty) {value : Option Part} (h : ∀ x ∈ value, x.tree.Uses P) :
    (initial ty value).Uses P := by
  cases value with
  | some x => exact converted_uses free ty (h x rfl)
  | none =>
    rw [initial]
    split <;> simp

theorem items_use {elem : Option Ty} {xs : List Part} (h : ∀ x ∈ xs, x.tree.Uses P) :
    ∀ t ∈ items elem xs, t.Uses P := by
  refine List.forall_mem_map.2 fun x hx => ?_
  cases elem with
  | none => exact h x hx
  | some t => exact converted_uses free t (h x hx)

theorem arguments_use {params : List Ty} {xs : List Part} (h : ∀ x ∈ xs, x.tree.Uses P) :
    ∀ t ∈ arguments params xs, t.Uses P := by
  induction xs generalizing params with
  | nil => cases params <;> exact List.forall_mem_nil _
  | cons x xs ih =>
    obtain ⟨hx, hxs⟩ := List.forall_mem_cons.1 h
    cases params with
    | nil => exact List.forall_mem_cons.2 ⟨hx, ih hxs⟩
    | cons t params => exact List.forall_mem_cons.2 ⟨converted_uses free t hx, ih hxs⟩

end Part

namespace Context

open CppEmission.Part

variable {cx : Context} {l r : Part}

theorem comparisonTree_uses (op : BinaryOp) (hl : l.tree.Uses P) (hr : r.tree.Uses P) :
    (cx.comparisonTree op l r).Uses P := by
  refine Term.uses_between.2 ⟨?_, hr⟩
  split
  · exact asView_uses hl
  · exact hl

theorem constructionTree_uses {ty : Ty} {length : Option Part}
    (h : ∀ x ∈ length, x.tree.Uses P) : (constructionTree ty length).Uses P := by
  unfold constructionTree
  split
  case h_2 => simpa [Name.word?] using h _ rfl
  all_goals simp [Name.word?, refused]

include free

theorem assignmentTree_uses (op : BinaryOp) (hl : l.tree.Uses P) (hr : r.tree.Uses P) :
    (cx.assignmentTree op l r).Uses P := by
  unfold assignmentTree
  split
  · exact Term.uses_between.2 ⟨hl, asNumberText_uses hr⟩
  · refine Term.uses_between.2 ⟨hl, ?_⟩
    split
    · exact converted_uses free _ hr
    · exact hr

theorem binaryTree_uses (ty : Ty) (op : BinaryOp) (hl : l.tree.Uses P) (hr : r.tree.Uses P) :
    (cx.binaryTree ty op l r).Uses P := by
  unfold binaryTree concatenationTree
  split
  · exact assignmentTree_uses free op hl hr
  split
  · exact comparisonTree_uses op hl hr
  split
  · split
    · exact Term.uses_between.2 ⟨leadingSummand_uses hl, trailingSummand_uses hr⟩
    · exact Term.uses_between.2 ⟨hl, hr⟩
  split
  · exact Term.uses_index.2 ⟨hl, hr⟩
  · exact Term.uses_between.2 ⟨hl, hr⟩

theorem symbolTree_uses {left : Option Part} (s : Symbol) (h : ∀ x ∈ left, x.tree.Uses P) :
    (cx.symbolTree left s).Uses P := by
  have name := escape_uses free s.name
  unfold symbolTree ownName
  dsimp only
  split
  case h_9 => exact member_uses (h _ rfl) name
  case h_5 | h_6 => split <;> simpa [Name.word?] using name
  all_goals simpa [Name.word?] using name

theorem calleeTree_uses (f : Signature) {receiver : Option Part}
    (h : ∀ x ∈ receiver, x.tree.Uses P) : (cx.calleeTree f receiver).Uses P := by
  have name := escape_uses free f.name
  unfold calleeTree ownName
  dsimp only
  split
  · split
    · split <;> simpa [Name.word?] using name
    · simpa [Name.word?] using name
  · split
    · simpa [Name.word?] using name
    · exact member_uses (h _ rfl) name

theorem libraryTree_uses {note : Note} {f : Intrinsic} {receiver : Option Part}
    {args : List Part} (hr : ∀ x ∈ receiver, x.tree.Uses P) (ha : ∀ x ∈ args, x.tree.Uses P) :
    (libraryTree note f receiver args).Uses P := by
  have calls {t : Term Name} {method : String} {args : List (Term Name)} (h : t.Uses P)
      (reserved : isReserved method = false) (hargs : ∀ u ∈ args, u.Uses P) :
      (t.calls method args).Uses P := Term.uses_calls.2 ⟨⟨h, free _ reserved⟩, hargs⟩
  have one {u : Term Name} (h : u.Uses P) : ∀ t ∈ [u], t.Uses P := List.forall_mem_singleton.2 h
  have nothing : ∀ t ∈ ([] : List (Term Name)), t.Uses P := List.forall_mem_nil _
  have library (y : Library) : (Term.name (.library y)).Uses P := by simp [Name.word?]
  unfold libraryTree
  split
  -- the branches in the order of the definition
  case h_1 =>
    exact Term.uses_between.2 ⟨calls (stringReceiver_uses (hr _ rfl)) (by decide)
      (one (ha _ List.mem_cons_self)), library _⟩
  case h_2 | h_3 =>
    exact calls (stringReceiver_uses (hr _ rfl)) (by decide) (one (ha _ List.mem_cons_self))
  case h_4 =>
    exact calls (stringReceiver_uses (hr _ rfl)) (by decide) (List.forall_mem_map.2 ha)
  case h_5 | h_6 =>
    exact Term.uses_calling.2 ⟨by simp [Name.word?],
      one (calls (stringReceiver_uses (hr _ rfl)) (by decide) nothing)⟩
  case h_7 =>
    exact calls (hr _ rfl) (by decide) (one (element_uses free (ha _ List.mem_cons_self)))
  case h_8 =>
    obtain ⟨ha, hb⟩ := List.forall_mem_cons.1 ha
    refine calls (hr _ rfl) (by decide) (List.forall_mem_cons.2 ⟨?_, one (element_uses free
      (hb _ List.mem_cons_self))⟩)
    exact Term.uses_between.2 ⟨calls (hr _ rfl) (by decide) nothing, ha⟩
  case h_9 =>
    exact calls (hr _ rfl) (by decide) (one (Term.uses_between.2
      ⟨calls (hr _ rfl) (by decide) nothing, ha _ List.mem_cons_self⟩))
  case h_10 | h_11 => exact calls (hr _ rfl) (by decide) nothing
  case h_12 r a =>
    have start : (r.tree.calls "begin" []).Uses P := calls (hr _ rfl) (by decide) nothing
    have stop : (r.tree.calls "end" []).Uses P := calls (hr _ rfl) (by decide) nothing
    have element : (r.element a).Uses P := element_uses free (ha _ List.mem_cons_self)
    simp [Name.word?, start, stop, element]
  case h_13 | h_14 => exact calls (hr _ rfl) (by decide) (one (ha _ List.mem_cons_self))
  case h_15 | h_16 =>
    obtain ⟨ha, hb⟩ := List.forall_mem_cons.1 ha
    have first := converted_uses free note.ty ha
    have second := converted_uses free note.ty (hb _ List.mem_cons_self)
    simp [Name.word?, first, second]
  case h_17 =>
    have number := ha _ List.mem_cons_self
    simpa [Name.word?] using number
  case h_18 => exact Term.uses_between.2 ⟨library _, Term.uses_literal⟩
  case h_19 =>
    exact Term.uses_between.2 ⟨Term.uses_between.2
      ⟨library _, printable_uses (ha _ List.mem_cons_self)⟩, Term.uses_literal⟩
  case h_20 => exact Term.uses_literal

end Context

theorem Literal.tree_uses {P : String → Prop} (ty : Ty) (l : Literal) : (l.tree ty).Uses P := by
  unfold tree
  split
  case h_3 =>
    split
    · simp [Name.word?]
    · split <;> simp
  case h_4 =>
    dsimp only
    split <;> simp
  all_goals simp

namespace Context

variable {cx : Context}

mutual

-- along the recursion of `tree`
theorem tree_uses (free : ∀ x, isReserved x = false → P x) : ∀ e : Expr, e.FindsIn P →
    (cx.tree e).Uses P
  | .literal note l, _ => l.tree_uses note.ty
  | .symbol _ left s, h => symbolTree_uses free s (part?_uses free left fun _ => h.child)
  | .self _, _ | .base _, _ => Term.uses_literal
  | .prefixed _ _ e, h | .postfixed _ _ e, h => tree_uses free e (h.child List.mem_cons_self)
  | .binary note op l r, h =>
    binaryTree_uses free note.ty op (tree_uses free l (h.child (by simp [Expr.children])))
      (tree_uses free r (h.child (by simp [Expr.children])))
  | .conditional note c t f, h => by
    have test := tree_uses free c (h.child (by simp [Expr.children]))
    have onTrue := tree_uses free t (h.child (by simp [Expr.children]))
    have onFalse := tree_uses free f (h.child (by simp [Expr.children]))
    exact Term.uses_conditional.2 ⟨⟨test, Part.converted_uses free note.ty onTrue⟩,
      Part.converted_uses free note.ty onFalse⟩
  | .collection _ es, h =>
    Term.uses_items.2 (Part.items_use free (parts_use free es fun _ => h.child))
  | .varDecl _ x ty value, h => by
    have initial := Part.initial_uses free ty (part?_uses free value fun _ => h.child)
    simpa [tree, Name.word?] using ⟨escape_uses free x, initial⟩
  | .call _ f receiver args, h =>
    Term.uses_call.2
      ⟨calleeTree_uses free f (part?_uses free receiver fun _ hc =>
        h.child (List.mem_append_left _ hc)),
      Term.uses_items.2 (Part.arguments_use free (parts_use free args fun _ hc =>
        h.child (List.mem_append_right _ hc)))⟩
  | .intrinsic _ f receiver args, h =>
    libraryTree_uses free (part?_uses free receiver fun _ hc => h.child (List.mem_append_left _ hc))
      (parts_use free args fun _ hc => h.child (List.mem_append_right _ hc))
  | .new _ length, h => constructionTree_uses (part?_uses free length fun _ => h.child)
  | .resource note name, h => by simpa [tree, Name.word?] using h note name .here

theorem part?_uses (free : ∀ x, isReserved x = false → P x) : ∀ o : Option Expr,
    (∀ e ∈ o.toList, e.FindsIn P) → ∀ x ∈ cx.part? o, x.tree.Uses P
  | none, _, _, hx => nomatch hx
  | some e, h, _, rfl => tree_uses free e (h e List.mem_cons_self)

theorem parts_use (free : ∀ x, isReserved x = false → P x) : ∀ es : List Expr,
    (∀ e ∈ es, e.FindsIn P) → ∀ x ∈ cx.parts es, x.tree.Uses P
  | [], _, _, hx => nomatch hx
  | e :: rest, h, x, hx => by
    obtain ⟨first, others⟩ := List.forall_mem_cons.1 h
    rcases List.mem_cons.1 hx with rfl | hx
    · exact tree_uses free e first
    · exact parts_use free rest others x hx

end

end Context

end Expressions

section Programs

variable {P : String → Prop} {cx : Context}

theorem nameTerm_uses {x : String} (h : P x) : (nameTerm x).Uses P := by
  simpa [nameTerm, Name.word?] using h

theorem typeTerm_uses {t : Ty} : (typeTerm t).Uses P := by simp [typeTerm, Name.word?]

variable (free : ∀ x, isReserved x = false → P x)

include free

theorem convertedTree_uses (t : Ty) {e : Expr} (h : e.FindsIn P) :
    (cx.convertedTree t e).Uses P := Part.converted_uses free t (Context.tree_uses free e h)

theorem trees_use {es : List Expr} (h : ∀ e ∈ es, e.FindsIn P) :
    ∀ t ∈ es.map cx.tree, t.Uses P :=
  List.forall_mem_map.2 fun e he => Context.tree_uses free e (h e he)

theorem Constant.terms_use {c : Constant} (h : c.value.FindsIn P) :
    ∀ t ∈ c.terms cx, t.Uses P := by
  rw [terms]
  split
  · exact List.forall_mem_nil _
  · simp only [List.forall_mem_cons]
    exact ⟨typeTerm_uses, nameTerm_uses (escape_uses free _), convertedTree_uses free _ h,
      List.forall_mem_nil _⟩

theorem Context.labelTerm_uses {value label : Expr} (hv : value.FindsIn P)
    (hl : label.FindsIn P) : (cx.labelTerm value label).Uses P := by
  have value := cx.tree_uses free value hv
  have label := cx.tree_uses free label hl
  rw [labelTerm]
  split
  · exact comparisonTree_uses _ value label
  · exact label

end Programs

namespace Stmt

variable {P : String → Prop} {cx : Context}

mutual

-- along the recursion of `terms`
theorem terms_use (free : ∀ x, isReserved x = false → P x) : ∀ s : Stmt,
    (∀ e ∈ s.exprs, e.FindsIn P) → ∀ t ∈ s.terms cx, t.Uses P
  | .expr e, h => List.forall_mem_singleton.2 (Context.tree_uses free e (h e List.mem_cons_self))
  | .block body, h => allTerms_use free body h
  | .ifElse test thenDo elseDo, h => by
    simp only [exprs, terms, List.forall_mem_append, List.forall_mem_cons] at h ⊢
    exact ⟨⟨Context.tree_uses free test h.1.1, terms_use free thenDo h.1.2⟩,
      optTerms_use free elseDo h.2⟩
  | .whileLoop test body, h | .doWhile body test, h => by
    simp only [exprs, terms, List.forall_mem_cons] at h ⊢
    exact ⟨Context.tree_uses free test h.1, terms_use free body h.2⟩
  | .forLoop init test advance body, h => by
    rw [exprs, List.forall_mem_append] at h
    rw [terms, List.forall_mem_append]
    exact ⟨trees_use free h.1, terms_use free body h.2⟩
  | .foreach element value collection body, h => by
    simp only [exprs, terms, List.forall_mem_append, List.forall_mem_cons] at h ⊢
    refine ⟨⟨Context.tree_uses free collection h.1, nameTerm_uses (escape_uses free _), ?_⟩,
      terms_use free body h.2⟩
    cases value with
    | some v => exact List.forall_mem_singleton.2 (nameTerm_uses (escape_uses free _))
    | none =>
      dsimp only
      split
      · exact List.forall_mem_singleton.2 typeTerm_uses
      · exact List.forall_mem_nil _
  | .switch value cases default, h => by
    simp only [exprs, terms, List.forall_mem_append, List.forall_mem_cons] at h ⊢
    exact ⟨⟨Context.tree_uses free value h.1.1, casesTerms_use free h.1.1 cases h.1.2⟩,
      defaultTerms_use free default h.2⟩
  | .ret none, _ => List.forall_mem_nil _
  | .ret (some e), h => by
    have returned := h e List.mem_cons_self
    rw [terms]
    split
    · exact List.forall_mem_singleton.2 (convertedTree_uses free _ returned)
    · exact List.forall_mem_singleton.2 (Context.tree_uses free e returned)
  | .raise message, h => by
    have text : (cx.convertedTree (.string .storage) message).Uses P :=
      convertedTree_uses free _ (h message List.mem_cons_self)
    exact List.forall_mem_singleton.2
      (Term.uses_calling.2 ⟨by simp [Name.word?], List.forall_mem_singleton.2 text⟩)
  | .constant c, h => c.terms_use free (h c.value List.mem_cons_self)
  | .breakOut, _ | .continueLoop, _ | .native _, _ => List.forall_mem_nil _

theorem optTerms_use (free : ∀ x, isReserved x = false → P x) : ∀ s : Option Stmt,
    (∀ e ∈ optExprs s, e.FindsIn P) → ∀ t ∈ optTerms cx s, t.Uses P
  | none, _ => List.forall_mem_nil _
  | some s, h => terms_use free s h

theorem allTerms_use (free : ∀ x, isReserved x = false → P x) : ∀ ss : List Stmt,
    (∀ e ∈ allExprs ss, e.FindsIn P) → ∀ t ∈ allTerms cx ss, t.Uses P
  | [], _ => List.forall_mem_nil _
  | s :: rest, h => by
    rw [allExprs, List.forall_mem_append] at h
    rw [allTerms, List.forall_mem_append]
    exact ⟨terms_use free s h.1, allTerms_use free rest h.2⟩

theorem casesTerms_use (free : ∀ x, isReserved x = false → P x) {value : Expr}
    (hv : value.FindsIn P) : ∀ cs : List (Case Stmt),
      (∀ e ∈ casesExprs cs, e.FindsIn P) → ∀ t ∈ casesTerms cx value cs, t.Uses P
  | [], _ => List.forall_mem_nil _
  | ⟨values, body, _⟩ :: rest, h => by
    simp only [casesExprs, casesTerms, List.forall_mem_append, List.forall_mem_map] at h ⊢
    exact ⟨⟨fun e he => Context.labelTerm_uses free hv (h.1.1 e he), allTerms_use free body h.1.2⟩,
      casesTerms_use free hv rest h.2⟩

theorem defaultTerms_use (free : ∀ x, isReserved x = false → P x) :
    ∀ body : Option (List Stmt), (∀ e ∈ defaultExprs body, e.FindsIn P) →
      ∀ t ∈ defaultTerms cx body, t.Uses P
  | none, _ => List.forall_mem_nil _
  | some body, h => allTerms_use free body h

end

end Stmt

section Declarations

variable {P : String → Prop} (free : ∀ x, isReserved x = false → P x) {cx : Context}

include free

theorem Field.terms_use {f : Field} (h : ∀ e ∈ f.value.toList, e.FindsIn P) :
    ∀ t ∈ f.terms cx, t.Uses P := by
  have initial := Part.initial_uses free f.ty (cx.part?_uses free f.value h)
  refine List.forall_mem_singleton.2 ?_
  simpa [Name.word?] using ⟨escape_uses free f.name, initial⟩

theorem Param.terms_use {p : Param} (h : ∀ e ∈ p.default.toList, e.FindsIn P) :
    ∀ t ∈ p.terms cx, t.Uses P := by
  simp only [terms, List.forall_mem_cons, List.forall_mem_map]
  exact ⟨typeTerm_uses, nameTerm_uses (escape_uses free _),
    fun e he => convertedTree_uses free _ (h e he)⟩

theorem Method.terms_use {m : Method} (h : ∀ e ∈ m.exprs, e.FindsIn P) :
    ∀ t ∈ m.terms cx, t.Uses P := by
  simp only [exprs, List.forall_mem_append, List.forall_mem_flatMap] at h
  simp only [terms, headTerms, List.forall_mem_append, List.forall_mem_cons, List.forall_mem_map,
    List.forall_mem_flatMap]
  exact ⟨⟨fun _ _ => typeTerm_uses, nameTerm_uses (escape_uses free _),
    fun p hp => p.terms_use free (h.1 p hp)⟩, Stmt.optTerms_use free m.body h.2⟩

theorem Class.terms_use {c : Class} (name : P c.name) (base : ∀ b ∈ c.base, P b)
    (h : ∀ e ∈ c.exprs, e.FindsIn P) : ∀ t ∈ c.terms cx, t.Uses P := by
  simp only [exprs, List.forall_mem_append, List.forall_mem_flatMap, List.forall_mem_map] at h
  obtain ⟨⟨⟨constants, fields⟩, constructor⟩, methods⟩ := h
  have body : ∀ t ∈ (c.constructor.map (Stmt.allTerms (cx.inClass c))).getD [], t.Uses P := by
    cases declared : c.constructor with
    | none => exact List.forall_mem_nil _
    | some body =>
      rw [declared] at constructor
      exact Stmt.allTerms_use free body constructor
  simp only [terms, List.forall_mem_append, List.forall_mem_cons, List.forall_mem_map,
    List.forall_mem_flatMap]
  have base (b : String) (hb : b ∈ c.base.toList) : (nameTerm b).Uses P :=
    nameTerm_uses (base b (Option.mem_toList.1 hb))
  exact ⟨⟨⟨⟨⟨nameTerm_uses name, base⟩, fun d hd => d.terms_use free (constants d hd)⟩,
    fun f hf => f.terms_use free (fields f hf)⟩, body⟩,
    fun m hm => m.terms_use free (methods m hm)⟩

theorem Enum.terms_use {e : Enum} (name : P e.name) : ∀ t ∈ e.terms, t.Uses P := by
  simp only [terms, EnumConstant.terms, List.forall_mem_cons, List.forall_mem_flatMap,
    List.forall_mem_map]
  exact ⟨nameTerm_uses name, fun c _ => ⟨nameTerm_uses (escape_uses free _),
    fun _ _ => Term.uses_literal⟩⟩

omit free in
theorem Resource.terms_use {r : Resource} (name : P r.identifier) : ∀ t ∈ r.terms, t.Uses P := by
  simp only [terms, List.forall_mem_cons, List.forall_mem_map]
  exact ⟨typeTerm_uses, nameTerm_uses name, Term.uses_literal, fun _ _ => Term.uses_literal⟩

end Declarations

namespace Program

/-- The word is that of a resource which the program embeds or refers to. -/
def CallsResource (p : Program) (x : String) : Prop :=
  (∃ r ∈ p.resources, r.identifier = x) ∨
    ∃ note name, p.Contains (.resource note name) ∧ resourceIdentifier name = x

theorem terms_use {p : Program} {settings : Settings} {cx : Context} :
    ∀ t ∈ p.terms settings cx, ∀ x ∈ t.words, isReserved x →
      x ∈ p.typeNames ∨ x ∈ settings.enclosing ∨ p.CallsResource x := by
  let P (x : String) : Prop :=
    isReserved x → x ∈ p.typeNames ∨ x ∈ settings.enclosing ∨ p.CallsResource x
  have free (x : String) (hx : isReserved x = false) : P x := fun reserved => by simp [hx] at reserved
  have found : ∀ c ∈ p.classes, ∀ e ∈ c.exprs, e.FindsIn P := fun c hc e he note name occurs _ =>
    .inr (.inr (.inr ⟨note, name, ⟨e, List.mem_flatMap.2 ⟨c, hc, he⟩, occurs⟩, rfl⟩))
  have typed {c : Class} (hc : c ∈ p.classes) {x : String} (hx : x ∈ c.name :: c.base.toList) :
      P x := fun _ => .inl (List.mem_append_left _ (List.mem_flatMap.2 ⟨c, hc, hx⟩))
  show ∀ t ∈ p.terms settings cx, t.Uses P
  simp only [terms, List.forall_mem_append, List.forall_mem_map, List.forall_mem_flatMap]
  refine ⟨⟨⟨fun x hx => ?_, fun c hc => ?_⟩, fun e he => ?_⟩, fun r hr => ?_⟩
  · exact nameTerm_uses fun _ => .inr (.inl (Option.mem_toList.1 hx))
  · exact c.terms_use free (typed hc List.mem_cons_self) (fun b hb =>
      typed hc (List.mem_cons_of_mem _ (Option.mem_toList.2 hb))) (found c hc)
  · exact e.terms_use free fun _ => .inl (List.mem_append_right _ (List.mem_map_of_mem he))
  · exact r.terms_use fun _ => .inr (.inr (.inl ⟨r, hr, rfl⟩))

end Program

end CppEmission
