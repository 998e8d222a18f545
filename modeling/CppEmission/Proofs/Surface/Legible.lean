import CppEmission.Proofs.Surface.Emission

namespace CppEmission

open Grammar Surface

def Literal.IsOf : Literal → Ty → Prop
  | null, .null | bool _, .bool | int _, .int _ | float _, .float | float _, .double
  | string _, .string _ => True
  | _, _ => False

namespace Expr

def isNumber : Expr → Bool
  | literal _ (.int _) | literal _ (.float _) => true
  | _ => false

mutual

/-- The expression has no declaration and no list in braces in it, its literals have the types of
their kinds, no number has members, and its resources have identifiers. -/
def IsPlaced : Expr → Prop
  | literal note l => l.IsOf note.ty
  | self _ | base _ => True
  | symbol _ left _ => optIsPlaced left ∧ ∀ e ∈ left, e.isNumber = false
  | prefixed _ _ e | postfixed _ _ e => e.IsPlaced
  | binary _ _ l r => l.IsPlaced ∧ r.IsPlaced
  | conditional _ c t f => c.IsPlaced ∧ t.IsPlaced ∧ f.IsPlaced
  | collection .. | varDecl .. => False
  | call _ _ receiver args | intrinsic _ _ receiver args =>
    optIsPlaced receiver ∧ (∀ e ∈ receiver, e.isNumber = false) ∧ areAllPlaced args
  | new _ length => optIsPlaced length
  | resource _ name => isIdentifier (resourceIdentifier name)

def optIsPlaced : Option Expr → Prop
  | none => True
  | some e => e.IsPlaced

def areAllPlaced : List Expr → Prop
  | [] => True
  | e :: rest => e.IsPlaced ∧ areAllPlaced rest

end

end Expr

def Ty.isHeld : Ty → Bool
  | array .. | object .. => true
  | _ => false

structure Part.IsLegible (x : Part) : Prop where
  tree : x.tree.IsLegible
  ty : x.expr.ty.NamesIdentifiers
  number : x.tree.isNumber → x.expr.isNumber
  held : x.expr.isNumber → x.expr.ty.isHeld = false

theorem readable_escape {x : String} (h : isIdentifier x) :
    (Name.plain (Keyword.escape x)).IsReadable := by
  rw [Keyword.escape_of_not_isReserved (isReserved_of_isIdentifier h)]
  exact Name.readable_plain h

theorem readable_qualified_escape {c x : String} (hc : isIdentifier c) (hx : isIdentifier x) :
    (Name.qualified c (Keyword.escape x)).IsReadable := by
  rw [Keyword.escape_of_not_isReserved (isReserved_of_isIdentifier hx)]
  exact Name.readable_qualified hc hx

theorem legible_calling {f : Name} (hf : f.IsReadable) {t : Term Name} (ht : t.IsLegible) :
    (Term.calling f [t]).IsLegible := ⟨hf, .inr ht⟩

theorem legible_items {ts : List (Term Name)} (h : ∀ t ∈ ts, t.IsLegible) :
    Term.items ts = .nothing ∨ (Term.items ts).IsLegible := by
  cases ts with
  | nil => exact .inl rfl
  | cons t ts =>
    refine .inr ?_
    show (ts.foldl (.between ",") t).IsLegible
    obtain ⟨ht, hts⟩ := List.forall_mem_cons.1 h
    clear h
    induction ts generalizing t with
    | nil => exact ht
    | cons u ts ih =>
      obtain ⟨hu, hts⟩ := List.forall_mem_cons.1 hts
      exact ih _ ⟨ht, hu⟩ hts

theorem legible_calls {r : Term Name} (hr : r.IsLegible) (number : r.isNumber = false)
    {method : String} (hm : isIdentifier method) {ts : List (Term Name)}
    (h : ∀ t ∈ ts, t.IsLegible) : (r.calls method ts).IsLegible :=
  ⟨⟨hr, number, Name.readable_plain hm⟩, legible_items h⟩

variable {x y z : Part} {cx : Context}

namespace Conversion

theorem readable_callee {target : Ty} (h : target.NamesIdentifiers) :
    (callee target).IsReadable := by
  cases target with
  | string => exact Name.readable_library _
  | _ => exact Name.readable_cast h

end Conversion

theorem convert_append {target : Ty} {e : Expr} {suffix : String}
    (h : convert target e = .ok (.append suffix)) : e.ty.isHeld := by
  unfold convert at h
  split at h
  · cases h
  split at h
  case h_1 | h_9 | h_10 => split at h <;> cases h
  case h_2 | h_3 | h_4 | h_5 | h_6 | h_7 | h_8 | h_12 | h_14 => cases h
  case h_11 | h_13 => simp_all [Ty.isHeld]

namespace Part.IsLegible

theorem not_number (hx : x.IsLegible) (h : x.expr.isNumber = false) : x.tree.isNumber = false := by
  cases number : x.tree.isNumber with
  | false => rfl
  | true => simpa [h] using hx.number number

theorem converted (hx : x.IsLegible) {target : Ty} (ht : target.NamesIdentifiers) :
    (x.converted target).IsLegible := by
  rw [Part.converted]
  cases h : convert target x.expr with
  | error why => exact hx.tree
  | ok c =>
    cases convert_leadsTo target x.expr _ h with
    | keep => exact hx.tree
    | address | object => exact hx.tree
    | call => exact legible_calling (Conversion.readable_callee ht) hx.tree
    | get | data =>
      have number : x.expr.isNumber = false := by
        cases number : x.expr.isNumber with
        | false => rfl
        | true => simpa [convert_append h] using hx.held number
      exact legible_calls hx.tree (hx.not_number number) (by decide) (List.forall_mem_nil _)

theorem member (hx : x.IsLegible) (number : x.expr.isNumber = false) {name : Name}
    (h : name.IsReadable) : (x.member name).IsLegible := ⟨hx.tree, hx.not_number number, h⟩

theorem asView (hx : x.IsLegible) : x.asView.IsLegible :=
  legible_calling (Name.readable_library .stringView) hx.tree

theorem asOwned (hx : x.IsLegible) : x.asOwned.IsLegible :=
  legible_calling (Name.readable_library .string) hx.tree

theorem asNumberText (hx : x.IsLegible) : x.asNumberText.IsLegible :=
  legible_calling (Name.readable_library .toString) hx.tree

theorem leadingSummand (hx : x.IsLegible) : x.leadingSummand.IsLegible := by
  rw [Part.leadingSummand]
  split
  · exact hx.tree
  · exact hx.asOwned
  · exact hx.asNumberText

theorem trailingSummand (hx : x.IsLegible) : x.trailingSummand.IsLegible := by
  rw [Part.trailingSummand]
  split
  · exact hx.tree
  · split
    · exact hx.tree
    · exact hx.asOwned
  · exact hx.asNumberText

theorem stringReceiver (hx : x.IsLegible) :
    x.stringReceiver.IsLegible ∧ x.stringReceiver.isNumber = false := by
  rw [Part.stringReceiver]
  split
  · exact ⟨hx.asView, rfl⟩
  · next literal =>
    refine ⟨hx.tree, hx.not_number ?_⟩
    cases h : x.expr <;> simp_all [Expr.isLiteral, Expr.isNumber]

theorem printable (hx : x.IsLegible) : x.printable.IsLegible := by
  rw [Part.printable]
  split
  · split
    · exact legible_calling Name.readable_widen hx.tree
    · exact hx.tree
  · exact hx.tree

theorem element (hx : x.IsLegible) (hy : y.IsLegible) : (x.element y).IsLegible := by
  rw [Part.element]
  split
  · next elem list =>
    have ty := hx.ty
    rw [list] at ty
    have elem : elem.NamesIdentifiers := ty
    exact hy.converted elem
  · exact hy.tree

end Part.IsLegible

theorem Part.items_legible {elem : Option Ty} (he : ∀ t ∈ elem, t.NamesIdentifiers) {xs : List Part}
    (h : ∀ x ∈ xs, x.IsLegible) : ∀ t ∈ Part.items elem xs, t.IsLegible := by
  intro t ht
  obtain ⟨x, hx, rfl⟩ := List.mem_map.1 ht
  cases elem with
  | none => exact (h x hx).tree
  | some target => exact (h x hx).converted (he target rfl)

theorem Part.arguments_legible {params : List Ty} (hp : ∀ t ∈ params, t.NamesIdentifiers)
    {xs : List Part} (h : ∀ x ∈ xs, x.IsLegible) :
    ∀ t ∈ Part.arguments params xs, t.IsLegible := by
  induction xs generalizing params with
  | nil => cases params <;> exact nofun
  | cons x xs ih =>
    obtain ⟨hx, hxs⟩ := List.forall_mem_cons.1 h
    cases params with
    | nil => exact List.forall_mem_cons.2 ⟨hx.tree, ih nofun hxs⟩
    | cons t params =>
      obtain ⟨ht, hp⟩ := List.forall_mem_cons.1 hp
      exact List.forall_mem_cons.2 ⟨hx.converted ht, ih hp hxs⟩

theorem Literal.tree_legible (l : Literal) (ty : Ty) : (l.tree ty).IsLegible := by
  cases l with
  | null => exact .word (by decide)
  | bool b => cases b <;> exact .word (by decide)
  | string s => exact .quote s
  | int v =>
    rw [tree]
    split
    · exact Name.readable_library .leastInteger
    split <;> exact .number (isNumber_repr _)
  | float v =>
    rw [tree]
    have readable : (Token.literal (v.shortest.text Decimal.literalLayout ++
        if ty = .float then "f" else "")).Readable := by
      refine .number (isNumber_text _ _ ?_)
      split <;> decide
    split <;> exact readable

namespace Context

theorem ownName_readable {c x : String} (hc : isIdentifier c) (hx : isIdentifier x) :
    (cx.ownName c (Keyword.escape x)).IsReadable := by
  rw [ownName]
  split
  · exact readable_escape hx
  · exact readable_qualified_escape hc hx

theorem symbolTree_legible {part : Option Part} (h : ∀ x ∈ part, x.IsLegible)
    (number : ∀ x ∈ part, x.expr.isNumber = false) {s : Symbol} (hs : isIdentifier s.name)
    (owner : ∀ c ∈ s.kind.owner?, isIdentifier c) : (cx.symbolTree part s).IsLegible := by
  unfold symbolTree
  dsimp only
  split
  case h_1 | h_2 | h_3 | h_4 => exact readable_escape hs
  case h_5 c kind | h_6 c kind => exact ownName_readable (owner c (by rw [kind]; rfl)) hs
  case h_7 c _ kind | h_8 c _ kind =>
    exact readable_qualified_escape (owner c (by rw [kind]; rfl)) hs
  case h_9 x _ => exact (h x rfl).member (number x rfl) (readable_escape hs)
  case h_10 c kind => exact readable_qualified_escape (owner c (by rw [kind]; rfl)) hs

theorem binaryTree_legible (ty : Ty) (op : BinaryOp) (hx : x.IsLegible) (hy : y.IsLegible) :
    (cx.binaryTree ty op x y).IsLegible := by
  unfold binaryTree
  split
  · unfold assignmentTree
    split
    · exact ⟨hx.tree, hy.asNumberText⟩
    · refine ⟨hx.tree, ?_⟩
      split
      · exact hy.converted hx.ty
      · exact hy.tree
  split
  · refine ⟨?_, hy.tree⟩
    split
    · exact hx.asView
    · exact hx.tree
  split
  · unfold concatenationTree
    split
    · exact ⟨hx.leadingSummand, hy.trailingSummand⟩
    · exact ⟨hx.tree, hy.tree⟩
  split <;> exact ⟨hx.tree, hy.tree⟩

theorem calleeTree_legible {part : Option Part} (h : ∀ x ∈ part, x.IsLegible)
    (number : ∀ x ∈ part, x.expr.isNumber = false) {f : Signature} (hc : isIdentifier f.className)
    (hf : isIdentifier f.name) : (cx.calleeTree f part).IsLegible := by
  cases part with
  | none =>
    show (if f.isStatic then _ else _ : Name).IsReadable
    split
    · exact ownName_readable hc hf
    · exact readable_escape hf
  | some x =>
    rw [calleeTree]
    split
    · exact readable_qualified_escape hc hf
    · exact (h x rfl).member (number x rfl) (readable_escape hf)

theorem libraryTree_legible {note : Note} (hn : note.ty.NamesIdentifiers) (f : Intrinsic)
    {part : Option Part} (h : ∀ x ∈ part, x.IsLegible)
    (number : ∀ x ∈ part, x.expr.isNumber = false) {xs : List Part} (hs : ∀ x ∈ xs, x.IsLegible) :
    (libraryTree note f part xs).IsLegible := by
  have newline : (Term.literal "'\\n'" : Term Name).IsLegible := Token.Readable.newline
  have on {r : Part} (hr : r ∈ part) {method : String} (hm : isIdentifier method)
      {ts : List (Term Name)} (ht : ∀ t ∈ ts, t.IsLegible) : (r.tree.calls method ts).IsLegible :=
    legible_calls (h r hr).tree ((h r hr).not_number (number r hr)) hm ht
  have onString {r : Part} (hr : r ∈ part) {method : String} (hm : isIdentifier method)
      {ts : List (Term Name)} (ht : ∀ t ∈ ts, t.IsLegible) :
      (r.stringReceiver.calls method ts).IsLegible :=
    legible_calls (h r hr).stringReceiver.1 (h r hr).stringReceiver.2 hm ht
  have begin {r : Part} (hr : r ∈ part) : (r.tree.calls "begin" []).IsLegible :=
    on hr (by decide) nofun
  unfold libraryTree
  split
  case h_1 r a => exact ⟨onString rfl (by decide) (by simpa using (hs a (by simp)).tree),
    Name.readable_library .npos⟩
  case h_2 | h_3 =>
    exact onString rfl (by decide) (by simpa using (hs _ (List.mem_singleton.2 rfl)).tree)
  case h_4 =>
    refine onString rfl (by decide) fun t ht => ?_
    obtain ⟨x, hx, rfl⟩ := List.mem_map.1 ht
    exact (hs x hx).tree
  case h_5 | h_6 => exact legible_calling (Name.readable_cast hn) (onString rfl (by decide) nofun)
  case h_7 r a => exact on rfl (by decide) (by simpa using (h r rfl).element (hs a (by simp)))
  case h_8 r a b => exact on rfl (by decide) (by
    simpa using ⟨⟨begin rfl, (hs a (by simp)).tree⟩, (h r rfl).element (hs b (by simp))⟩)
  case h_9 r a => exact on rfl (by decide) (by simpa using ⟨begin rfl, (hs a (by simp)).tree⟩)
  case h_10 | h_11 => exact on rfl (by decide) nofun
  case h_12 r a =>
    have last : (r.tree.calls "end" []).IsLegible := on rfl (by decide) nofun
    exact ⟨⟨Name.readable_library .find, legible_items (by
      simpa using ⟨begin rfl, last, (h r rfl).element (hs a (by simp))⟩)⟩, last⟩
  case h_13 | h_14 =>
    exact on rfl (by decide) (by simpa using (hs _ (List.mem_singleton.2 rfl)).tree)
  case h_15 a b =>
    exact ⟨Name.readable_min hn, legible_items (by
      simpa using ⟨(hs a (by simp)).converted hn, (hs b (by simp)).converted hn⟩)⟩
  case h_16 a b =>
    exact ⟨Name.readable_max hn, legible_items (by
      simpa using ⟨(hs a (by simp)).converted hn, (hs b (by simp)).converted hn⟩)⟩
  case h_17 a => exact legible_calling (Name.readable_library .abs) (hs a (by simp)).tree
  case h_18 => exact ⟨Name.readable_library .cout, newline⟩
  case h_19 a => exact ⟨⟨Name.readable_library .cout, (hs a (by simp)).printable⟩, newline⟩
  case h_20 => exact .word (by decide)

theorem constructionTree_legible {ty : Ty} (hty : ty.NamesIdentifiers) {part : Option Part}
    (h : ∀ x ∈ part, x.IsLegible) : (constructionTree ty part).IsLegible := by
  unfold constructionTree
  split
  case h_1 => exact ⟨Name.readable_makeShared hty, .inl rfl⟩
  case h_2 elem n =>
    exact legible_calling (Name.readable_makeSharedArray (t := elem) hty) (h n rfl).tree
  case h_3 elem n => exact Name.readable_storage (t := elem) hty n
  case h_4 => exact ⟨Name.readable_object hty, .inl rfl⟩
  case h_5 elem => exact ⟨Name.readable_list (t := elem) hty, .inl rfl⟩
  case h_6 => exact ⟨Name.readable_map hty, .inl rfl⟩
  case h_7 => exact .word (by decide)

theorem part?_number (e : Option Expr) (h : ∀ x ∈ e, x.isNumber = false) :
    ∀ x ∈ cx.part? e, x.expr.isNumber = false := by
  cases e with
  | none => exact nofun
  | some e =>
    rintro _ ⟨⟩
    exact h e rfl

theorem isNumber_of_tree (e : Expr) (h : (cx.tree e).isNumber) : e.isNumber := by
  cases e with
  | literal note l =>
    cases l with
    | null => cases h
    | bool b => cases b <;> cases h
    | int v => rfl
    | float v => rfl
    | string s => simp [tree, Literal.tree, Term.isNumber, Quoted.quote] at h
  | symbol note left s =>
    rw [tree] at h
    unfold symbolTree at h
    split at h <;> cases h
  | binary note op l r =>
    rw [tree] at h
    unfold binaryTree assignmentTree concatenationTree at h
    split at h
    · split at h <;> cases h
    split at h
    · cases h
    split at h
    · split at h <;> cases h
    split at h <;> cases h
  | intrinsic note f receiver args =>
    rw [tree] at h
    unfold libraryTree at h
    split at h <;> cases h
  | new note length =>
    rw [tree] at h
    unfold constructionTree at h
    split at h <;> cases h
  | _ => cases h

end Context

theorem Expr.IsPlaced.held {e : Expr} (h : e.IsPlaced) (number : e.isNumber) :
    e.ty.isHeld = false := by
  cases e with
  | literal note l =>
    have kind : l.IsOf note.ty := h
    show note.ty.isHeld = false
    cases l <;> cases ty : note.ty <;> simp_all [Literal.IsOf, Ty.isHeld, isNumber]
  | _ => cases number

namespace Context

mutual

-- along the recursion of `tree`
theorem tree_legible : ∀ (e : Expr), e.NamesIdentifiers → e.IsPlaced → (cx.tree e).IsLegible
  | .literal note l, _, _ => l.tree_legible note.ty
  | .symbol _ left s, h, hp =>
    symbolTree_legible (part?_legible left h.2.1 hp.1) (part?_number left hp.2) h.2.2.1 h.2.2.2
  | .self _, _, _ => .word (by decide)
  | .base _, _, _ => .word (by decide)
  | .prefixed _ op e, h, hp => tree_legible e h.2 hp
  | .postfixed _ op e, h, hp => tree_legible e h.2 hp
  | .binary note op l r, h, hp =>
    binaryTree_legible note.ty op (part_legible l h.2.1 hp.1) (part_legible r h.2.2 hp.2)
  | .conditional _ c t f, h, hp =>
    ⟨tree_legible c h.2.1 hp.1, (part_legible t h.2.2.1 hp.2.1).converted h.1,
      (part_legible f h.2.2.2 hp.2.2).converted h.1⟩
  | .collection .., _, hp => hp.elim
  | .varDecl .., _, hp => hp.elim
  | .call _ f receiver args, h, hp =>
    ⟨calleeTree_legible (part?_legible receiver h.2.2.1 hp.1) (part?_number receiver hp.2.1)
      h.2.1.1 h.2.1.2.1,
      legible_items (Part.arguments_legible h.2.1.2.2 (parts_legible args h.2.2.2 hp.2.2))⟩
  | .intrinsic note f receiver args, h, hp =>
    libraryTree_legible h.1 f (part?_legible receiver h.2.1 hp.1) (part?_number receiver hp.2.1)
      (parts_legible args h.2.2 hp.2.2)
  | .new note length, h, hp => constructionTree_legible h.1 (part?_legible length h.2 hp)
  | .resource _ name, _, hp => Name.readable_plain hp

theorem part_legible (e : Expr) (h : e.NamesIdentifiers) (hp : e.IsPlaced) :
    (Part.mk e (cx.tree e)).IsLegible :=
  ⟨tree_legible e h hp, h.ty, isNumber_of_tree e, hp.held⟩

theorem part?_legible : ∀ (e : Option Expr), Expr.optNamesIdentifiers e → Expr.optIsPlaced e →
    ∀ x ∈ cx.part? e, x.IsLegible
  | none, _, _, _, h => nomatch h
  | some e, h, hp, _, rfl => part_legible e h hp

theorem parts_legible : ∀ (es : List Expr), Expr.allNamesIdentifiers es → Expr.areAllPlaced es →
    ∀ x ∈ cx.parts es, x.IsLegible
  | [], _, _, _, h => nomatch h
  | e :: rest, h, hp, x, hx => by
    rcases List.mem_cons.1 hx with rfl | hx
    · exact part_legible e h.1 hp.1
    · exact parts_legible rest h.2 hp.2 x hx

end

end Context

end CppEmission
