import CppEmission.Proofs.Dependency
import CppEmission.Proofs.Units.Outline
import CppEmission.Proofs.Units.Steady
import Mathlib.Data.List.Perm.Basic
import Mathlib.Data.List.Sigma

/-! The functions that the interface unit leaves to be defined are those that the implementation
unit defines. -/

namespace CppEmission

namespace Visibility

theorem flatMap_select (x : Visibility) (ys : List α) :
    (all.flatMap fun v => if x = v then ys else []) = ys := by
  cases x <;> simp [all]

theorem flatMap_filter_perm (f : α → Visibility) (xs : List α) :
    (all.flatMap fun v => xs.filter (f · = v)).Perm xs := by
  induction xs with
  | nil => exact .nil
  | cons x xs ih =>
    have split (v : Visibility) : (x :: xs).filter (f · = v) =
        (if f x = v then [x] else []) ++ xs.filter (f · = v) := by
      by_cases h : f x = v <;> simp [h]
    simp only [split]
    apply (List.flatMap_append_perm all _ _).symm.trans
    rw [flatMap_select]
    exact ih.append_left [x]

theorem flatMap_map_filter_perm (f : α → Visibility) (g : α → β) (xs : List α) :
    (all.flatMap fun v => (xs.filter (f · = v)).map g).Perm (xs.map g) := by
  rw [← List.map_flatMap]
  exact (flatMap_filter_perm f xs).map g

end Visibility

def Member.isFunction : Member → Bool
  | constructor | destructor | method .. => true
  | constant .. | field .. => false

namespace Class

def members (c : Class) : List Member :=
  [.constructor] ++ (if c.hasDestructor then [.destructor] else []) ++
    c.constants.zipIdx.map (fun (d, i) => .constant i d) ++
    c.fields.zipIdx.map (fun (f, i) => .field i f) ++
    c.methods.zipIdx.map fun (m, i) => .method i m

theorem flatMap_constructorOf (c : Class) :
    Visibility.all.flatMap c.constructorOf = [.constructor] :=
  Visibility.flatMap_select _ _

theorem flatMap_destructorOf (c : Class) : Visibility.all.flatMap c.destructorOf =
    if c.hasDestructor then [.destructor] else [] := by
  cases h : c.hasDestructor <;> simp [Visibility.all, destructorOf, h]

theorem flatMap_membersOf (c : Class) :
    (Visibility.all.flatMap c.membersOf).Perm c.members := by
  apply (List.flatMap_append_perm _ _ _).symm.trans
  apply List.Perm.append _ (Visibility.flatMap_map_filter_perm _ _ _)
  apply (List.flatMap_append_perm _ _ _).symm.trans
  apply List.Perm.append _ (Visibility.flatMap_map_filter_perm _ _ _)
  apply (List.flatMap_append_perm _ _ _).symm.trans
  apply List.Perm.append _ (Visibility.flatMap_map_filter_perm _ _ _)
  apply (List.flatMap_append_perm _ _ _).symm.trans
  rw [flatMap_constructorOf, flatMap_destructorOf]

theorem flatMap_nonempty (gs : List VisibilityGroup) :
    (gs.filter (!·.members.isEmpty)).flatMap (·.members) = gs.flatMap (·.members) := by
  induction gs with
  | nil => rfl
  | cons g gs ih =>
    cases h : g.members with
    | nil => simp [h, ih]
    | cons m ms => simp [h, ih]

theorem groups_perm (c : Class) : (c.groups.flatMap (·.members)).Perm c.members := by
  rw [groups, flatMap_nonempty, List.flatMap_map]
  exact c.flatMap_membersOf

def isDefined (c : Class) : Member → Bool
  | .constructor => c.constructor.isSome
  | .method _ m => !m.isAbstract
  | _ => false

theorem filter_isDefined (c : Class) : c.members.filter c.isDefined = c.definedMembers := by
  have destructor :
      (if c.hasDestructor then [Member.destructor] else []).filter c.isDefined = [] := by
    split <;> rfl
  have constructor : [Member.constructor].filter c.isDefined =
      if c.constructor.isSome then [.constructor] else [] := by
    cases h : c.constructor <;> simp [isDefined, h]
  simp only [members, definedMembers, List.filter_append, constructor, destructor,
    List.filter_map]
  simp [Function.comp_def, isDefined]

theorem definedMembers_nodup (c : Class) : c.definedMembers.Nodup := by
  have places : ((c.methods.zipIdx.filter (!·.1.isAbstract)).map Prod.snd).Nodup :=
    (List.nodup_zipIdx_map_snd c.methods).sublist (List.filter_sublist.map _)
  have methods : ((c.methods.zipIdx.filter (!·.1.isAbstract)).map
      fun (m, i) => Member.method i m).Nodup := by
    apply List.Pairwise.map _ _ (List.pairwise_map.1 places)
    intro x y ne heq
    exact ne (Member.method.inj heq).1
  rw [definedMembers]
  split
  · exact List.nodup_cons.2 ⟨by simp, methods⟩
  · exact methods

theorem Declares.isPlain_eq {c : Class} {m : Member} {line : String}
    (notStatic : c.constructor.isSome → !c.isStatic) (h : c.Declares m line) :
    (m.isFunction && isPlain line) = c.isDefined m := by
  cases h with
  | constructor =>
    rw [isPlain_constructorLine, Member.isFunction, isDefined, Bool.true_and]
    cases hc : c.constructor with
    | none => rfl
    | some body => simpa [hc] using notStatic
  | destructor => rw [isPlain_destructorLine]; rfl
  | constant => rfl
  | field => rfl
  | method describes => rw [MethodHead.isPlain_declaration describes]; rfl

end Class

structure Outline where
  entries : List Entry
  definitions : List Definition
  deriving Inhabited

namespace Outline

def declared (o : Outline) : List (Member × String) := o.entries.filterMap Entry.declared?

def defined (o : Outline) : List (Member × String) :=
  o.definitions.map fun d => (d.member, d.header)

def interface (o : Outline) (c : Class) : List Writer.Op :=
  .blankLine :: .openBlock c.header :: o.entries.map Entry.op ++ [.closeBlockWith "\x7d;"]

def implementation (o : Outline) : List Writer.Op := o.definitions.flatMap Definition.ops

/-- Each member of the class is declared once. The functions that are declared with nothing behind
them are those that are defined, each once, and a method is defined under what it is declared as. -/
structure Agrees (o : Outline) (c : Class) : Prop where
  members : (o.declared.map (·.1)).Perm c.members
  functions : ((o.declared.filter fun d => d.1.isFunction && isPlain d.2).map (·.1)).Perm
    (o.defined.map (·.1))
  once : (o.defined.map (·.1)).Nodup
  method : ∀ i m line header, (.method i m, line) ∈ o.declared → (.method i m, header) ∈ o.defined →
    ∃ head : MethodHead, head.Describes m ∧ line = head.declaration m.kind ∧
      header = head.definition c.name
  constructor : (∃ header, (.constructor, header) ∈ o.defined) ↔
    (.constructor, c.name ++ "();") ∈ o.declared
  constructorHeader : ∀ header, (.constructor, header) ∈ o.defined →
    header = c.name ++ "::" ++ c.name ++ "()"

section Agreement

variable {c : Class} {o : Outline} (lists : c.Lists (c.groups.flatMap (·.members)) o.entries)
  (defines : c.DefinesAll c.definedMembers o.definitions)
  (notStatic : c.constructor.isSome → !c.isStatic)

include lists

theorem declared_perm : (o.declared.map (·.1)).Perm c.members :=
  lists.members ▸ c.groups_perm

include notStatic

theorem filter_declared_perm :
    ((o.declared.filter fun d => d.1.isFunction && isPlain d.2).map (·.1)).Perm
      c.definedMembers := by
  have plain : (o.declared.filter fun d => d.1.isFunction && isPlain d.2) =
      o.declared.filter (c.isDefined ∘ (·.1)) :=
    List.filter_congr fun d hd => (lists.declares d hd).isPlain_eq notStatic
  rw [plain, ← List.filter_map, ← c.filter_isDefined]
  exact (declared_perm lists).filter _

theorem constructor_declared : c.constructor.isSome ↔
    (.constructor, c.name ++ "();") ∈ o.declared := by
  constructor
  · intro some
    have mem : Member.constructor ∈ c.members := by simp [Class.members]
    obtain ⟨⟨_, line⟩, hd, rfl⟩ := List.mem_map.1 ((declared_perm lists).mem_iff.2 mem)
    have declares := lists.declares _ hd
    cases declares with
    | constructor =>
      have line : c.constructorLine = c.name ++ "();" := by
        have static := notStatic some
        simp_all [Class.constructorLine, String.append_assoc]
      rwa [← line]
  · intro hd
    have plain : isPlain (c.name ++ "();") = true := isPlain_append (by decide)
    have defined := (lists.declares _ hd).isPlain_eq notStatic
    rw [plain] at defined
    exact defined.symm

omit lists notStatic

include defines

theorem members_defined : o.defined.map (·.1) = c.definedMembers := by
  rw [← defines.members, Outline.defined, List.map_map]
  rfl

theorem defines_of_defined {d : Member × String} (hd : d ∈ o.defined) : c.Defines d.1 d.2 := by
  obtain ⟨definition, mem, rfl⟩ := List.mem_map.1 hd
  exact defines.defines definition mem

include lists notStatic

theorem agrees : o.Agrees c := by
  have defined := members_defined defines
  refine ⟨declared_perm lists, ?_, ?_, ?_, ?_, ?_⟩
  · rw [defined]
    exact filter_declared_perm lists notStatic
  · rw [defined]
    exact c.definedMembers_nodup
  · intro i m line header hdeclared hdefined
    cases lists.declares _ hdeclared with
    | method describes =>
      cases defines_of_defined defines hdefined with
      | method hheader => exact ⟨_, describes, rfl, hheader _ describes⟩
  · have mem : (∃ header, (.constructor, header) ∈ o.defined) ↔
        .constructor ∈ o.defined.map (·.1) := by simp
    rw [← constructor_declared lists notStatic, mem, defined]
    simp [Class.definedMembers]
  · intro header hdefined
    cases defines_of_defined defines hdefined
    rfl

end Agreement

end Outline

theorem Class.exists_outline {cx : Context} {c : Class}
    (hdeclare : (cx.script c.declare).fault = none) (hdefine : (cx.script c.define).fault = none) :
    ∃ o : Outline, o.Agrees c ∧ (cx.script c.declare).ops = o.interface c ∧
      (cx.script c.define).ops = o.implementation := by
  obtain ⟨es, hops, lists⟩ := c.script_declare (congrArg (Script.mk _) hdeclare)
  obtain ⟨notStatic, ds, hops', defines⟩ := c.script_define (congrArg (Script.mk _) hdefine)
  exact ⟨⟨es, ds⟩, Outline.agrees lists defines notStatic, hops, hops'⟩

end CppEmission
