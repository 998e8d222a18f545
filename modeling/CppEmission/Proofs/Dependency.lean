import CppEmission.Dependency
import Mathlib.Data.List.Nodup
import Mathlib.Logic.Relation

/-! The order of the classes is a topological sort of the program's graph of dependencies, and it
fails only where that graph goes in a circle. -/

namespace CppEmission

inductive Ty.Embeds : Ty → String → Prop
  | object : Embeds (.object c .value) c
  | array : Embeds elem c → Embeds (.array elem (.storage n)) c

theorem Ty.embedded?_eq_some_iff {t : Ty} {c : String} : t.embedded? = some c ↔ t.Embeds c := by
  constructor
  · intro h
    induction t using Ty.embedded?.induct with
    | case1 c' =>
      cases h
      exact .object
    | case2 elem n ih => exact .array (ih h)
    | case3 t hobject harray => simp [embedded?] at h
  · intro h
    induction h with
    | object => rfl
    | array _ ih => exact ih

namespace Program

variable {p : Program}

/-- The definition of the second class has to stand before that of the first. -/
inductive Needs (p : Program) : Class → Class → Prop
  | base : c ∈ p.classes → d ∈ p.classes → c.base = some d.name → p.Needs c d
  | field : c ∈ p.classes → d ∈ p.classes → f ∈ c.fields → f.ty.Embeds d.name → p.Needs c d

def Circular (p : Program) (c : Class) : Prop := Relation.TransGen p.Needs c c

theorem Needs.left_mem {c d : Class} (h : p.Needs c d) : c ∈ p.classes := by
  cases h <;> assumption

theorem Needs.right_mem {c d : Class} (h : p.Needs c d) : d ∈ p.classes := by
  cases h <;> assumption

theorem needs_iff {c d : Class} : p.Needs c d ↔
    c ∈ p.classes ∧ d ∈ p.classes ∧ d.name ∈ c.dependencies := by
  simp only [Class.dependencies, List.mem_append, Option.mem_toList, List.mem_filterMap,
    Ty.embedded?_eq_some_iff]
  constructor
  · intro h
    cases h with
    | base hc hd hbase => exact ⟨hc, hd, .inl hbase⟩
    | field hc hd hf hembeds => exact ⟨hc, hd, .inr ⟨_, hf, hembeds⟩⟩
  · rintro ⟨hc, hd, hbase | ⟨f, hf, hembeds⟩⟩
    · exact .base hc hd hbase
    · exact .field hc hd hf hembeds

theorem class?_eq_some_iff (hp : p.classNames.Nodup) {name : String} {c : Class} :
    p.class? name = some c ↔ c ∈ p.classes ∧ c.name = name := by
  constructor
  · exact mem_of_class?
  · rintro ⟨hc, rfl⟩
    obtain ⟨d, hd⟩ : ∃ d, p.class? c.name = some d :=
      Option.isSome_iff_exists.1 (List.find?_isSome.2 ⟨c, hc, by simp⟩)
    obtain ⟨hmem, hname⟩ := mem_of_class? hd
    rw [hd, List.inj_on_of_nodup_map hp hmem hc hname]

section Place

variable {path rest : List String} {done : List Class} {name : String} {c : Class}

theorem place_nil : p.place path done [] = .ok done := by
  rw [place]

theorem place_unknown (hc : p.class? name = none) :
    p.place path done (name :: rest) = p.place path done rest := by
  rw [place]
  split
  · rfl
  · simp_all

theorem place_done (hc : p.class? name = some c) (hdone : done.any (·.name == name)) :
    p.place path done (name :: rest) = p.place path done rest := by
  rw [place]
  split <;> simp_all

theorem place_circle (hc : p.class? name = some c) (hdone : ¬ done.any (·.name == name))
    (hpath : name ∈ path) :
    p.place path done (name :: rest) = .error (.circularDependency c.name) := by
  rw [place]
  split <;> simp_all

theorem place_enter (hc : p.class? name = some c) (hdone : ¬ done.any (·.name == name))
    (hpath : name ∉ path) :
    p.place path done (name :: rest) = (p.place (name :: path) done c.dependencies).bind
      fun done => p.place path (done ++ [c]) rest := by
  rw [place]
  split
  · simp_all
  next d hd =>
    obtain rfl : d = c := by simpa [hd] using hc
    rw [if_neg hdone, dif_neg hpath]
    cases p.place (name :: path) done d.dependencies <;> rfl

theorem place_free (hc : p.class? name = some c) (hdone : ¬ done.any (·.name == name))
    (hpath : name ∉ path) (free : c.dependencies = []) :
    p.place path done (name :: rest) = p.place path (done ++ [c]) rest := by
  rw [place_enter hc hdone hpath, free, place_nil, Except.bind]

end Place

theorem dependencyOrder_alone {p : Program} {c : Class} (alone : p.classes = [c])
    (free : c.dependencies = []) : p.dependencyOrder = .ok [c] := by
  have found : p.class? c.name = some c := by simp [class?, alone]
  rw [dependencyOrder, classNames, alone, List.map_singleton,
    place_free found (by simp) List.not_mem_nil free, place_nil, List.nil_append]

theorem place_subset {path names : List String} {done order : List Class}
    (h : done ⊆ p.classes) (hok : p.place path done names = .ok order) : order ⊆ p.classes := by
  induction path, done, names using place.induct p generalizing order with
  | case1 path done =>
    rw [place_nil] at hok
    cases hok
    exact h
  | case2 path done name rest hc ih => exact ih h (place_unknown hc ▸ hok)
  | case3 path done name rest c hc hdone ih => exact ih h (place_done hc hdone ▸ hok)
  | case4 path done name rest c hc hdone hpath =>
    rw [place_circle hc hdone hpath] at hok
    cases hok
  | case5 path done name rest c hc hdone hpath e he ih =>
    rw [place_enter hc hdone hpath, he] at hok
    cases hok
  | case6 path done name rest c hc hdone hpath done' hdone' ih ih' =>
    rw [place_enter hc hdone hpath, hdone'] at hok
    have own : [c] ⊆ p.classes := by simpa using (mem_of_class? hc).1
    exact ih' (List.append_subset.2 ⟨ih h hdone', own⟩) hok

theorem dependencyOrder_subset {order : List Class} (h : p.dependencyOrder = .ok order) :
    order ⊆ p.classes :=
  place_subset (List.nil_subset _) h

inductive Sorted (p : Program) : List Class → Prop
  | nil : Sorted p []
  | snoc : Sorted p order → (∀ d, p.Needs c d → d ∈ order) → Sorted p (order ++ [c])

theorem Sorted.mem_of_needs (h : p.Sorted order) {l r : List Class} {c d : Class}
    (hsplit : order = l ++ c :: r) (hneeds : p.Needs c d) : d ∈ l := by
  induction h generalizing r with
  | nil => simp at hsplit
  | snoc h hc ih =>
    rcases List.eq_nil_or_concat' r with rfl | ⟨r', last, rfl⟩
    · obtain ⟨rfl, hlast⟩ := List.append_inj' hsplit rfl
      cases hlast
      exact hc d hneeds
    · rw [← List.cons_append, ← List.append_assoc] at hsplit
      exact ih (List.append_inj_left' hsplit rfl)

theorem Sorted.mem_of_transGen (h : p.Sorted order) {l r : List Class} {c d : Class}
    (hsplit : order = l ++ c :: r) (hneeds : Relation.TransGen p.Needs c d) : d ∈ l := by
  induction hneeds using Relation.TransGen.head_induction_on generalizing l r with
  | single hneeds => exact h.mem_of_needs hsplit hneeds
  | head hneeds _ ih =>
    obtain ⟨front, back, rfl⟩ := List.append_of_mem (h.mem_of_needs hsplit hneeds)
    have mem := ih (by rw [hsplit, List.append_assoc, List.cons_append])
    exact List.mem_append_left _ mem

structure Placed (p : Program) (path : List String) (done : List Class) : Prop where
  sorted : p.Sorted done
  nodup : (done.map (·.name)).Nodup
  mem : ∀ c ∈ done, c ∈ p.classes
  waiting : ∀ c ∈ done, c.name ∉ path

theorem Placed.nil : p.Placed [] [] := ⟨.nil, .nil, nofun, nofun⟩

theorem Placed.enter (h : p.Placed path done) (hdone : ¬ done.any (·.name == name)) :
    p.Placed (name :: path) done := by
  refine ⟨h.sorted, h.nodup, h.mem, fun c hc mem => ?_⟩
  rcases List.mem_cons.1 mem with heq | mem
  · exact hdone (List.any_eq_true.2 ⟨c, hc, by simpa using heq⟩)
  · exact h.waiting c hc mem

theorem Placed.leave (h : p.Placed (c.name :: path) done) (hc : c ∈ p.classes)
    (hpath : c.name ∉ path) (hneeds : ∀ d, p.Needs c d → d ∈ done) :
    p.Placed path (done ++ [c]) where
  sorted := h.sorted.snoc hneeds
  nodup := by
    have fresh : ∀ d ∈ done, d.name ≠ c.name := fun d hd heq =>
      h.waiting d hd (heq ▸ List.mem_cons_self)
    simpa [List.nodup_append, h.nodup] using fresh
  mem := by
    simpa [or_imp, forall_and, hc] using h.mem
  waiting := by
    simpa [or_imp, forall_and, hpath] using fun d hd mem =>
      h.waiting d hd (List.mem_cons_of_mem _ mem)

theorem place_ok (hp : p.classNames.Nodup) {path names : List String} {done order : List Class}
    (h : p.Placed path done) (hok : p.place path done names = .ok order) :
    p.Placed path order ∧ done ⊆ order ∧
      ∀ name ∈ names, ∀ c, p.class? name = some c → c ∈ order := by
  induction path, done, names using place.induct p generalizing order with
  | case1 path done =>
    rw [place_nil] at hok
    cases hok
    exact ⟨h, List.Subset.refl _, nofun⟩
  | case2 path done name rest hc ih =>
    rw [place_unknown hc] at hok
    obtain ⟨placed, sub, mem⟩ := ih h hok
    exact ⟨placed, sub, by simpa [hc] using mem⟩
  | case3 path done name rest c hc hdone ih =>
    rw [place_done hc hdone] at hok
    obtain ⟨placed, sub, mem⟩ := ih h hok
    -- names are distinct, so the class that has its place is the one the name stands for
    obtain ⟨d, hd, hname⟩ := List.any_eq_true.1 hdone
    have same : p.class? name = some d :=
      (class?_eq_some_iff hp).2 ⟨h.mem d hd, by simpa using hname⟩
    exact ⟨placed, sub, by simpa [same, sub hd] using mem⟩
  | case4 path done name rest c hc hdone hpath =>
    rw [place_circle hc hdone hpath] at hok
    cases hok
  | case5 path done name rest c hc hdone hpath e he ih =>
    rw [place_enter hc hdone hpath, he] at hok
    cases hok
  | case6 path done name rest c hc hdone hpath done' hdone' ih ih' =>
    rw [place_enter hc hdone hpath, hdone'] at hok
    obtain ⟨hmem, rfl⟩ := mem_of_class? hc
    obtain ⟨entered, sub, mem⟩ := ih (h.enter hdone) hdone'
    have needed : ∀ d, p.Needs c d → d ∈ done' := fun d hd => by
      obtain ⟨-, hd, hname⟩ := needs_iff.1 hd
      exact mem d.name hname d ((class?_eq_some_iff hp).2 ⟨hd, rfl⟩)
    obtain ⟨placed, sub', mem'⟩ := ih' (entered.leave hmem hpath needed) hok
    refine ⟨placed, fun d hd => sub' (List.mem_append_left _ (sub hd)), ?_⟩
    simpa [hc, sub' (List.mem_append_right _ (List.mem_singleton_self c))] using mem'

def Waits (p : Program) (path names : List String) : Prop :=
  ∀ a ∈ path, ∀ b ∈ names, ∀ c d, p.class? a = some c → p.class? b = some d →
    Relation.TransGen p.Needs c d

theorem Waits.tail (h : p.Waits path (name :: rest)) : p.Waits path rest :=
  fun a ha b hb => h a ha b (List.mem_cons_of_mem _ hb)

theorem Waits.enter (h : p.Waits path (name :: rest)) (hc : p.class? name = some c) :
    p.Waits (name :: path) c.dependencies := by
  intro a ha b hb a' d ha' hd
  obtain ⟨hdmem, rfl⟩ := mem_of_class? hd
  have needs : p.Needs c d := needs_iff.2 ⟨(mem_of_class? hc).1, hdmem, hb⟩
  rcases List.mem_cons.1 ha with rfl | ha
  · rw [hc] at ha'
    cases ha'
    exact .single needs
  · exact (h a ha name List.mem_cons_self a' c ha' hc).tail needs

theorem place_error {path names : List String} {done : List Class} {e : EmitError}
    (h : p.Waits path names) (herror : p.place path done names = .error e) :
    ∃ c ∈ p.classes, e = .circularDependency c.name ∧ p.Circular c := by
  induction path, done, names using place.induct p with
  | case1 path done =>
    rw [place_nil] at herror
    cases herror
  | case2 path done name rest hc ih =>
    rw [place_unknown hc] at herror
    exact ih h.tail herror
  | case3 path done name rest c hc hdone ih =>
    rw [place_done hc hdone] at herror
    exact ih h.tail herror
  | case4 path done name rest c hc hdone hpath =>
    rw [place_circle hc hdone hpath] at herror
    cases herror
    exact ⟨c, (mem_of_class? hc).1, rfl, h name hpath name List.mem_cons_self c c hc hc⟩
  | case5 path done name rest c hc hdone hpath e he ih =>
    rw [place_enter hc hdone hpath, he] at herror
    cases herror
    exact ih (h.enter hc) he
  | case6 path done name rest c hc hdone hpath done' hdone' ih ih' =>
    rw [place_enter hc hdone hpath, hdone'] at herror
    exact ih' h.tail herror

section Order

variable (hp : p.classNames.Nodup) {order : List Class} (hok : p.dependencyOrder = .ok order)

include hp hok

theorem dependencyOrder_placed : p.Placed [] order :=
  (place_ok hp .nil hok).1

theorem dependencyOrder_perm : order.Perm p.classes := by
  obtain ⟨placed, -, mem⟩ := place_ok hp .nil hok
  have nodup : order.Nodup := placed.nodup.of_map
  rw [List.perm_ext_iff_of_nodup nodup (hp.of_map)]
  intro c
  constructor
  · exact placed.mem c
  · intro hc
    exact mem c.name (List.mem_map_of_mem hc) c ((class?_eq_some_iff hp).2 ⟨hc, rfl⟩)

theorem dependencyOrder_acyclic (c : Class) : ¬ p.Circular c := by
  intro circular
  have placed := dependencyOrder_placed hp hok
  have hc : c ∈ p.classes := by
    cases circular with
    | single hneeds => exact hneeds.left_mem
    | tail _ hneeds => exact hneeds.right_mem
  obtain ⟨l, r, rfl⟩ := List.append_of_mem ((dependencyOrder_perm hp hok).mem_iff.2 hc)
  have before : c ∈ l := placed.sorted.mem_of_transGen rfl circular
  have nodup := placed.nodup.of_map
  exact (List.nodup_append.1 nodup).2.2 c before c List.mem_cons_self rfl

end Order

theorem dependencyOrder_error {e : EmitError} (h : p.dependencyOrder = .error e) :
    ∃ c ∈ p.classes, e = .circularDependency c.name ∧ p.Circular c :=
  place_error (fun _ ha => absurd ha List.not_mem_nil) h

/-- There is an order exactly where the graph of the dependencies has no cycle; it has all the
classes of the program, each behind those it needs. Where there is none, the error names a class on
a cycle. -/
theorem dependencyOrder_topological {p : Program} (hp : p.classNames.Nodup) :
    ((∃ order, p.dependencyOrder = .ok order) ↔ ∀ c, ¬ p.Circular c) ∧
    (∀ order, p.dependencyOrder = .ok order → order.Perm p.classes ∧
      ∀ l c r, order = l ++ c :: r → ∀ d, p.Needs c d → d ∈ l) ∧
    ∀ e, p.dependencyOrder = .error e →
      ∃ c ∈ p.classes, e = .circularDependency c.name ∧ p.Circular c := by
  refine ⟨⟨?_, ?_⟩, ?_, ?_⟩
  · rintro ⟨order, hok⟩
    exact dependencyOrder_acyclic hp hok
  · intro acyclic
    cases h : p.dependencyOrder with
    | ok order => exact ⟨order, rfl⟩
    | error e =>
      obtain ⟨c, -, -, circular⟩ := dependencyOrder_error h
      exact absurd circular (acyclic c)
  · intro order hok
    refine ⟨dependencyOrder_perm hp hok, ?_⟩
    intro l c r hsplit d hneeds
    exact (dependencyOrder_placed hp hok).sorted.mem_of_needs hsplit hneeds
  · intro e
    exact dependencyOrder_error

theorem dependencyOrder_topological_swap :
    let p : Program := { classes := [{ name := "A", base := some "B" }, { name := "B" }] }
    p.classNames.Nodup ∧
      ((∃ order, p.dependencyOrder = .ok order) ↔ ∀ c, ¬ p.Circular c) ∧
      (∀ order, p.dependencyOrder = .ok order → order.Perm p.classes ∧
        ∀ l c r, order = l ++ c :: r → ∀ d, p.Needs c d → d ∈ l) ∧
      ∀ e, p.dependencyOrder = .error e →
        ∃ c ∈ p.classes, e = .circularDependency c.name ∧ p.Circular c := by
  intro p
  have distinct : p.classNames.Nodup := by decide
  exact ⟨distinct, dependencyOrder_topological distinct⟩

end Program

end CppEmission
