import CppEmission.Proofs.Dependency
import CppEmission.Proofs.Outcome

/-! A class leaves its place in the order of the program only for a class that is written before it
and has to stand behind the first. -/

namespace CppEmission

/-- The first element stands before the second somewhere in the list. -/
def Precedes (xs : List α) (a b : α) : Prop := [a, b].Sublist xs

namespace Precedes

variable {xs : List α} {a b c : α}

theorem iff_split : Precedes xs a b ↔ ∃ l r, xs = l ++ b :: r ∧ a ∈ l := by
  constructor
  · intro h
    obtain ⟨l, m, rfl, ha, hb⟩ := List.cons_sublist_iff.1 h
    obtain ⟨front, back, rfl⟩ := List.append_of_mem (List.singleton_sublist.1 hb)
    exact ⟨l ++ front, back, (List.append_assoc ..).symm, List.mem_append_left _ ha⟩
  · rintro ⟨l, r, rfl, ha⟩
    exact (List.singleton_sublist.2 ha).append (List.singleton_sublist.2 List.mem_cons_self)

theorem left_mem (h : Precedes xs a b) : a ∈ xs := h.subset List.mem_cons_self

theorem pairwise (xs : List α) : xs.Pairwise (Precedes xs) :=
  List.pairwise_iff_forall_sublist.2 id

section Nodup

variable (nodup : xs.Nodup)

include nodup

theorem irrefl (a : α) : ¬ Precedes xs a a := List.nodup_iff_sublist.1 nodup a

theorem mem_of_split {l r : List α} (h : Precedes xs a b) (split : xs = l ++ b :: r) : a ∈ l := by
  obtain ⟨l', r', split', ha⟩ := iff_split.1 h
  subst split
  obtain ⟨-, fresh, apart⟩ := List.nodup_append.1 nodup
  obtain ⟨rfl, -, -⟩ := (List.append_cons_inj_of_notMem
    (fun mem => apart b mem b List.mem_cons_self rfl) (List.nodup_cons.1 fresh).1).1 split'
  exact ha

theorem trans (h : Precedes xs a b) (h' : Precedes xs b c) : Precedes xs a c := by
  obtain ⟨l, r, split, hb⟩ := iff_split.1 h'
  obtain ⟨front, back, rfl⟩ := List.append_of_mem hb
  rw [List.append_assoc, List.cons_append] at split
  have ha := mem_of_split nodup h split
  exact iff_split.2 ⟨front ++ b :: back, r, by rw [split, List.append_assoc, List.cons_append],
    List.mem_append_left _ ha⟩

theorem total (ha : a ∈ xs) (hb : b ∈ xs) (ne : a ≠ b) : Precedes xs a b ∨ Precedes xs b a := by
  obtain ⟨l, r, rfl⟩ := List.append_of_mem ha
  rcases List.mem_append.1 hb with hb | hb
  · exact .inr (iff_split.2 ⟨l, r, rfl, hb⟩)
  · obtain ⟨front, back, rfl⟩ := List.append_of_mem ((List.mem_cons.1 hb).resolve_left ne.symm)
    exact .inl (iff_split.2 ⟨l ++ a :: front, back, by simp, by simp⟩)

theorem eq_of_perm {ys : List α} (perm : ys.Perm xs)
    (keeps : ∀ a b, Precedes xs a b → ¬ Precedes ys b a) : ys = xs := by
  have agrees : ys.Pairwise (Precedes xs) := (pairwise ys).imp_of_mem fun {b a} hb ha h => by
    have ne : a ≠ b := fun same => irrefl (perm.nodup_iff.2 nodup) b (same ▸ h)
    rcases total nodup (perm.subset ha) (perm.subset hb) ne with h' | h'
    · exact absurd h (keeps a b h')
    · exact h'
  exact perm.eq_of_pairwise (fun a b _ _ h h' => absurd (trans nodup h h') (irrefl nodup a))
    agrees (pairwise xs)

end Nodup

end Precedes

namespace Program

variable {p : Program} {path names more : List String} {done order : List Class}

theorem place_append : p.place path done (names ++ more) =
    (p.place path done names).bind fun done => p.place path done more := by
  induction path, done, names using place.induct p with
  | case1 path done => rw [place_nil, List.nil_append, Except.bind]
  | case2 path done name rest hc ih => rw [List.cons_append, place_unknown hc, place_unknown hc, ih]
  | case3 path done name rest c hc hdone ih =>
    rw [List.cons_append, place_done hc hdone, place_done hc hdone, ih]
  | case4 path done name rest c hc hdone hpath =>
    rw [List.cons_append, place_circle hc hdone hpath, place_circle hc hdone hpath, Except.bind]
  | case5 path done name rest c hc hdone hpath e he ih =>
    rw [List.cons_append, place_enter hc hdone hpath, place_enter hc hdone hpath, he]
    rfl
  | case6 path done name rest c hc hdone hpath done' hdone' ih ih' =>
    rw [List.cons_append, place_enter hc hdone hpath, place_enter hc hdone hpath, hdone']
    exact ih'

theorem place_isPrefix (hok : p.place path done names = .ok order) : done <+: order := by
  induction path, done, names using place.induct p generalizing order with
  | case1 path done =>
    rw [place_nil] at hok
    cases hok
    exact List.prefix_refl _
  | case2 path done name rest hc ih => exact ih (place_unknown hc ▸ hok)
  | case3 path done name rest c hc hdone ih => exact ih (place_done hc hdone ▸ hok)
  | case4 path done name rest c hc hdone hpath =>
    rw [place_circle hc hdone hpath] at hok
    cases hok
  | case5 path done name rest c hc hdone hpath e he ih =>
    rw [place_enter hc hdone hpath, he] at hok
    cases hok
  | case6 path done name rest c hc hdone hpath done' hdone' ih ih' =>
    rw [place_enter hc hdone hpath, hdone'] at hok
    exact ((ih hdone').trans (List.prefix_append _ _)).trans (ih' hok)

theorem place_reaches (hok : p.place path done names = .ok order) : ∀ d ∈ order, d ∈ done ∨
    ∃ c ∈ p.classes, c.name ∈ names ∧ Relation.ReflTransGen p.Needs c d := by
  induction path, done, names using place.induct p generalizing order with
  | case1 path done =>
    rw [place_nil] at hok
    cases hok
    exact fun d hd => .inl hd
  | case2 path done name rest hc ih =>
    intro d hd
    refine (ih (place_unknown hc ▸ hok) d hd).imp_right ?_
    rintro ⟨c, hc, mem, reach⟩
    exact ⟨c, hc, List.mem_cons_of_mem _ mem, reach⟩
  | case3 path done name rest c hc hdone ih =>
    intro d hd
    refine (ih (place_done hc hdone ▸ hok) d hd).imp_right ?_
    rintro ⟨c, hc, mem, reach⟩
    exact ⟨c, hc, List.mem_cons_of_mem _ mem, reach⟩
  | case4 path done name rest c hc hdone hpath =>
    rw [place_circle hc hdone hpath] at hok
    cases hok
  | case5 path done name rest c hc hdone hpath e he ih =>
    rw [place_enter hc hdone hpath, he] at hok
    cases hok
  | case6 path done name rest c hc hdone hpath done' hdone' ih ih' =>
    rw [place_enter hc hdone hpath, hdone'] at hok
    obtain ⟨hmem, rfl⟩ := mem_of_class? hc
    intro d hd
    rcases ih' hok d hd with placed | ⟨x, hx, mem, reach⟩
    · rcases List.mem_append.1 placed with placed | placed
      · refine (ih hdone' d placed).imp_right ?_
        rintro ⟨x, hx, mem, reach⟩
        exact ⟨c, hmem, List.mem_cons_self, reach.head (needs_iff.2 ⟨hmem, hx, mem⟩)⟩
      · obtain rfl := List.mem_singleton.1 placed
        exact .inr ⟨d, hmem, List.mem_cons_self, .refl⟩
    · exact .inr ⟨x, hx, List.mem_cons_of_mem _ mem, reach⟩

section Order

variable (hp : p.classNames.Nodup)

include hp

theorem classes_nodup : p.classes.Nodup := hp.of_map

theorem needed_of_inverted (hok : p.dependencyOrder = .ok order) {a b : Class}
    (first : Precedes p.classes a b) (inverted : Precedes order b a) :
    ∃ c, (c = a ∨ Precedes p.classes c a) ∧ Relation.TransGen p.Needs c b := by
  have nodup := classes_nodup hp
  have orderNodup : order.Nodup := (dependencyOrder_placed hp hok).nodup.of_map
  obtain ⟨l, r, split⟩ := List.append_of_mem first.left_mem
  have names : p.classNames = (l ++ [a]).map (·.name) ++ r.map (·.name) := by
    simp [classNames, split]
  -- what has its place when `a` has, before the classes behind `a` are looked at
  rw [dependencyOrder, names, place_append] at hok
  obtain ⟨settled, hsettled, hrest⟩ := bind_eq_ok.1 hok
  have found : p.class? a.name = some a :=
    (class?_eq_some_iff hp).2 ⟨first.left_mem, rfl⟩
  have ha : a ∈ settled := (place_ok hp .nil hsettled).2.2 a.name (by simp) a found
  have hb : b ∈ settled := by
    obtain ⟨rest, rfl⟩ := place_isPrefix hrest
    obtain ⟨front, back, rfl⟩ := List.append_of_mem ha
    have before := inverted.mem_of_split orderNodup (List.append_assoc ..)
    exact List.mem_append_left _ before
  obtain ⟨c, hc, mem, reach⟩ := (place_reaches hsettled b hb).resolve_left List.not_mem_nil
  have position : c = a ∨ Precedes p.classes c a := by
    obtain ⟨c', hc', same⟩ := List.mem_map.1 mem
    have hc'mem : c' ∈ p.classes := split ▸ by
      rw [← List.singleton_append, ← List.append_assoc]
      exact List.mem_append_left _ hc'
    obtain rfl := List.inj_on_of_nodup_map hp hc'mem hc same
    rcases List.mem_append.1 hc' with before | here
    · exact .inr (Precedes.iff_split.2 ⟨l, r, split, before⟩)
    · exact .inl (List.mem_singleton.1 here)
  rcases Relation.reflTransGen_iff_eq_or_transGen.1 reach with rfl | reach
  · rcases position with rfl | before
    · exact absurd first (Precedes.irrefl nodup _)
    · exact absurd (first.trans nodup before) (Precedes.irrefl nodup a)
  · exact ⟨c, position, reach⟩

theorem precedes_of_transGen (sorted : ∀ c d, p.Needs c d → Precedes p.classes d c) {c d : Class}
    (needs : Relation.TransGen p.Needs c d) : Precedes p.classes d c := by
  induction needs with
  | single needs => exact sorted _ _ needs
  | tail _ needs ih => exact (sorted _ _ needs).trans (classes_nodup hp) ih

theorem dependencyOrder_of_sorted (sorted : ∀ c d, p.Needs c d → Precedes p.classes d c) :
    p.dependencyOrder = .ok p.classes := by
  have nodup := classes_nodup hp
  cases h : p.dependencyOrder with
  | error e =>
    obtain ⟨c, -, -, circular⟩ := dependencyOrder_error h
    exact absurd (precedes_of_transGen hp sorted circular) (Precedes.irrefl nodup c)
  | ok order =>
    refine congrArg _ (Precedes.eq_of_perm nodup (dependencyOrder_perm hp h) ?_)
    intro a b first inverted
    obtain ⟨c, position, needs⟩ := needed_of_inverted hp h first inverted
    have before := precedes_of_transGen hp sorted needs
    rcases position with rfl | position
    · exact Precedes.irrefl nodup b (before.trans nodup first)
    · exact Precedes.irrefl nodup b ((before.trans nodup position).trans nodup first)

theorem dependencyOrder_reordered (hok : p.dependencyOrder = .ok order) :
    Program.dependencyOrder { p with classes := order } = .ok order := by
  have perm := dependencyOrder_perm hp hok
  have placed := dependencyOrder_placed hp hok
  refine dependencyOrder_of_sorted (p := { p with classes := order }) placed.nodup ?_
  intro c d needs
  have same : p.Needs c d := by
    obtain ⟨hc, hd, name⟩ := needs_iff.1 needs
    exact needs_iff.2 ⟨perm.subset hc, perm.subset hd, name⟩
  obtain ⟨l, r, split⟩ := List.append_of_mem needs.left_mem
  exact Precedes.iff_split.2 ⟨l, r, split, placed.sorted.mem_of_needs split same⟩

end Order

/-- The order keeps the classes as they stand as far as their dependencies allow. A class comes to
stand before one that precedes it only where that one, or one that precedes that one, depends on
it; classes that stand behind their dependencies all stay, and so the order is in order. -/
theorem dependencyOrder_stable (hp : p.classNames.Nodup) :
    (∀ order, p.dependencyOrder = .ok order →
      (∀ a b, Precedes p.classes a b → Precedes order b a →
        ∃ c, (c = a ∨ Precedes p.classes c a) ∧ Relation.TransGen p.Needs c b) ∧
      Program.dependencyOrder { p with classes := order } = .ok order) ∧
    ((∀ c d, p.Needs c d → Precedes p.classes d c) → p.dependencyOrder = .ok p.classes) := by
  refine ⟨fun order hok => ⟨fun a b => ?_, ?_⟩, ?_⟩
  · exact needed_of_inverted hp hok
  · exact dependencyOrder_reordered hp hok
  · exact dependencyOrder_of_sorted hp

theorem dependencyOrder_stable_base :
    let a : Class := { name := "A", base := some "C" }
    let b : Class := { name := "B" }
    let c : Class := { name := "C" }
    let p : Program := { classes := [a, b, c] }
    let q : Program := { classes := [c, a, b] }
    p.classNames.Nodup ∧ p.dependencyOrder = .ok q.classes ∧
      Precedes p.classes b c ∧ Precedes q.classes c b ∧
      (∃ x, (x = b ∨ Precedes p.classes x b) ∧ Relation.TransGen p.Needs x c) ∧
      (∀ x y, q.Needs x y → Precedes q.classes y x) ∧ q.dependencyOrder = .ok q.classes := by
  intro a b c p q
  have distinct : p.classNames.Nodup := by decide
  have order : p.dependencyOrder = .ok [c, a, b] := by
    change p.place [] [] ["A", "B", "C"] = _
    have base : p.place ["A"] [] a.dependencies = .ok [c] := by
      change p.place ["A"] [] ["C"] = _
      rw [place_free (c := c) rfl (by decide) (by decide) rfl, place_nil, List.nil_append]
    rw [place_enter (c := a) rfl (by decide) (by decide), base]
    change p.place [] [c, a] ["B", "C"] = _
    rw [place_free (c := b) rfl (by decide) (by decide) rfl, place_done (c := c) rfl (by decide),
      place_nil]
    rfl
  have first : Precedes p.classes b c := .cons _ (.refl _)
  have inverted : Precedes q.classes c b := .cons_cons _ (.cons _ (.refl _))
  have sorted : ∀ x y, q.Needs x y → Precedes q.classes y x := by
    intro x y needs
    obtain ⟨hx, hy, name⟩ := needs_iff.1 needs
    simp only [q, List.mem_cons, List.not_mem_nil, or_false] at hx hy
    rcases hx with rfl | rfl | rfl
    · exact absurd name List.not_mem_nil
    · have named : y.name = "C" := List.mem_singleton.1 name
      rcases hy with rfl | rfl | rfl
      · exact .cons_cons _ (.cons_cons _ (List.nil_sublist _))
      · exact absurd named (by decide)
      · exact absurd named (by decide)
    · exact absurd name List.not_mem_nil
  have stable := (dependencyOrder_stable distinct).1 _ order
  have settled := (dependencyOrder_stable (p := q) (by decide)).2 sorted
  exact ⟨distinct, order, first, inverted, stable.1 b c first inverted, sorted, settled⟩

end Program

end CppEmission
