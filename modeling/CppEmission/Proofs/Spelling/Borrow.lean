import CppEmission.Proofs.Spelling

namespace CppEmission

namespace Ty

def arrays : Ty → Ty
  | array elem shape => array elem.arrays shape
  | object c (.ptr .readOnly) => array (object c .value) (.pointer .readOnly)
  | object c (.ptr .mutable) => array (object c .value) (.pointer .mutable)
  | list elem => list elem.arrays
  | map key value => map key.arrays value.arrays
  | t => t

/-- Borrows that lead directly to borrows are of the same kind. -/
def IsUniform : Ty → Prop
  | array elem (.pointer h) =>
    (h.isBorrow → ∀ k ∈ elem.handle?, k.isBorrow → k = h) ∧ elem.IsUniform
  | array elem (.storage _) | list elem => elem.IsUniform
  | map key value => key.IsUniform ∧ value.IsUniform
  | _ => True

variable {enums : List String} {t u : Ty} {h k : Handle}

theorem spelling_object_borrow (c : String) (hh : h.isBorrow) :
    (object c (.ptr h)).spelling = (array (object c .value) (.pointer h)).spelling := by
  cases h <;> first | rfl | contradiction

section Text

theorem isString_ownKeys (t : Ty) : t.ownKeys.isString = t.isString := by
  cases t <;> rfl

theorem text_ownKeys (t : Ty) : t.ownKeys.text = t.text := by
  induction t with
  | array elem shape ih => rw [ownKeys, text, ih, text]
  | list elem ih => rw [ownKeys, text, ih, text]
  | map key value ihk ihv =>
    rw [ownKeys, text, text, ihv]
    by_cases isText : key.isString
    · rw [if_pos isText, if_pos isText]
      rfl
    · rw [if_neg isText, isString_ownKeys, if_neg isText, if_neg isText, ihk]
  | _ => rfl

theorem spelling_pointer_comm (hh : h.isBorrow) (hk : k.isBorrow) (text : String) :
    (ArrayShape.pointer h).spelling ((ArrayShape.pointer k).spelling text) =
      (ArrayShape.pointer k).spelling ((ArrayShape.pointer h).spelling text) := by
  cases h <;> cases k <;> first | rfl | contradiction

theorem text_lend (hh : h.isBorrow) (t : Ty) :
    (t.lend h).text = (ArrayShape.pointer h).spelling t.text := by
  fun_induction lend h t with
  | case1 t ih =>
    rw [text, ih rfl]
    exact spelling_pointer_comm rfl rfl t.text
  | case2 | case3 => rfl

theorem isString_lend (h : Handle) (t : Ty) : (t.lend h).isString = false := by
  fun_cases lend h t <;> rfl

theorem isString_canonical (t : Ty) : t.canonical.isString = t.isString := by
  fun_cases canonical t <;> first | rfl | exact isString_lend _ _

theorem text_canonical (t : Ty) : t.canonical.text = t.text := by
  fun_induction canonical t with
  | case1 elem ih | case3 elem n ih | case6 elem ih => rw [text, ih, text]
  | case2 elem h shared ih =>
    rw [text_lend (by cases h <;> trivial), ih, text]
  | case4 => rfl
  | case5 c h shared => cases h <;> first | rfl | contradiction
  | case7 key value ihk ihv => rw [text, isString_canonical, ihk, ihv, text]
  | case8 => rfl

theorem spelling_eq_iff (ht : t.Named enums) (hu : u.Named enums) :
    u.spelling = t.spelling ↔ u.ownKeys.canonical = t.ownKeys.canonical := by
  constructor
  · intro same
    exact canonical_eq_of_spelling_eq hu ht (same.trans (spelling_eq_text ht)) (spelling_eq_text ht)
  · intro same
    have texts := congrArg text same
    rw [text_canonical, text_canonical, text_ownKeys, text_ownKeys] at texts
    rw [spelling_eq_text ht, spelling_eq_text hu, texts]

end Text

section Uniform

theorem handle?_ownKeys (t : Ty) : t.ownKeys.handle? = t.handle? := by
  cases t with
  | array elem shape => cases shape <;> rfl
  | _ => rfl

theorem IsUniform.ownKeys (ht : t.IsUniform) : t.ownKeys.IsUniform := by
  induction t with
  | array elem shape ih =>
    cases shape with
    | storage n => exact ih ht
    | pointer h => exact ⟨by rw [handle?_ownKeys]; exact ht.1, ih ht.2⟩
  | list elem ih => exact ih ht
  | map key value ihk ihv =>
    refine ⟨?_, ihv ht.2⟩
    split
    · trivial
    · exact ihk ht.1
  | _ => trivial

theorem handle?_arrays (t : Ty) : t.arrays.handle? = t.handle? := by
  fun_cases Ty.arrays t with
  | case1 elem shape => cases shape <;> rfl
  | _ => rfl

theorem IsUniform.arrays (ht : t.IsUniform) : t.arrays.IsUniform := by
  fun_induction Ty.arrays t with
  | case1 elem shape ih =>
    cases shape with
    | storage n => exact ih ht
    | pointer h => exact ⟨by rw [handle?_arrays]; exact ht.1, ih ht.2⟩
  | case2 | case3 => exact ⟨nofun, trivial⟩
  | case4 elem ih => exact ih ht
  | case5 key value ihk ihv => exact ⟨ihk ht.1, ihv ht.2⟩
  | case6 => exact ht

theorem lend_eq_array (around : ∀ k ∈ t.handle?, k.isBorrow → k = h) :
    t.lend h = array t (.pointer h) := by
  fun_cases lend h t with
  | case1 => exact absurd (around .readOnly rfl rfl) (by decide)
  | _ => rfl

theorem isUniform_of_lend (ht : (t.lend h).IsUniform) : (array t (.pointer h)).IsUniform := by
  fun_induction lend h t with
  | case1 t ih =>
    obtain ⟨around, inner⟩ := ht
    rw [lend_eq_array ((ih inner).1 rfl)] at around
    exact absurd (around rfl .mutable rfl rfl) (by decide)
  | case2 | case3 => exact ht

theorem canonical_eq_arrays (ht : t.IsUniform) : t.canonical = t.arrays := by
  fun_induction canonical t with
  | case1 elem ih => rw [Ty.arrays, ih ht.2]
  | case2 elem h shared ih =>
    have borrow : h.isBorrow := by
      cases h <;> first | rfl | contradiction
    rw [ih ht.2, lend_eq_array (h := h), Ty.arrays]
    intro k hk
    rw [handle?_arrays] at hk
    exact ht.1 borrow k hk
  | case3 elem n ih | case6 elem ih => rw [Ty.arrays, ih ht]
  | case4 => rfl
  | case5 c h shared => cases h <;> first | rfl | contradiction
  | case7 key value ihk ihv => rw [Ty.arrays, ihk ht.1, ihv ht.2]
  | case8 t =>
    fun_cases Ty.arrays t with
    | case1 elem shape => cases shape <;> simp_all
    | _ => simp_all

theorem isUniform_of_canonical (ht : t.canonical.IsUniform) : t.IsUniform := by
  fun_induction canonical t with
  | case1 elem ih => exact ⟨nofun, ih ht.2⟩
  | case2 elem h shared ih =>
    obtain ⟨around, inner⟩ := isUniform_of_lend ht
    have uniform := ih inner
    rw [canonical_eq_arrays uniform, handle?_arrays] at around
    exact ⟨around, uniform⟩
  | case3 elem n ih | case6 elem ih => exact ih ht
  | case4 | case5 => trivial
  | case7 key value ihk ihv => exact ⟨ihk ht.1, ihv ht.2⟩
  | case8 => exact ht

theorem arrays_eq_of_canonical_eq (ht : t.IsUniform) (same : u.canonical = t.canonical) :
    u.arrays = t.arrays := by
  have uniform : u.canonical.IsUniform := by
    rw [same, canonical_eq_arrays ht]
    exact ht.arrays
  rw [← canonical_eq_arrays ht, ← canonical_eq_arrays (isUniform_of_canonical uniform), same]

end Uniform

section Mixed

/-- What `t` is taken for: a type with the same text that differs from it in more than the keys of
its maps and the number of objects behind its pointers. -/
structure Misread (enums : List String) (t u : Ty) : Prop where
  named : u.Named enums
  text : u.text = t.text
  isString : u.isString = false
  ne : u.ownKeys.arrays ≠ t.ownKeys.arrays

theorem text_object_borrow (c : String) (hh : h.isBorrow) :
    (object c (.ptr h)).text = (ArrayShape.pointer h).spelling c := by
  cases h <;> first | rfl | contradiction

theorem exists_borrow (ht : t.Named enums) (hk : k.isBorrow) (borrows : t.handle? = some k)
    (hh : h.isBorrow) :
    ∃ u : Ty, ∃ inner, u.Named enums ∧ t.text = (ArrayShape.pointer k).spelling inner ∧
      u.text = (ArrayShape.pointer h).spelling inner := by
  fun_cases handle? t with
  | case1 c k' =>
    obtain rfl : k' = k := Option.some.inj borrows
    exact ⟨object c (.ptr h), c, ht, text_object_borrow c hk, text_object_borrow c hh⟩
  | case2 elem k' =>
    obtain rfl : k' = k := Option.some.inj borrows
    exact ⟨array elem (.pointer h), elem.text, ht, rfl, rfl⟩
  | case3 => simp_all [handle?]

theorem exists_misread_borrow (ht : t.Named enums) (hh : h.isBorrow) (hk : k.isBorrow)
    (borrows : t.handle? = some k) (mixed : k ≠ h) :
    ∃ u, Misread enums (array t (.pointer h)) u := by
  obtain ⟨v, inner, named, texts⟩ := exists_borrow ht hk borrows hh
  refine ⟨array v (.pointer k), named, ?_, rfl, fun same => mixed ?_⟩
  · rw [text, text, texts.1, texts.2]
    exact spelling_pointer_comm hk hh inner
  · have handles := congrArg handle? same
    rw [handle?_arrays, handle?_ownKeys, handle?_arrays, handle?_ownKeys] at handles
    exact Option.some.inj handles

theorem exists_misread (ht : t.Named enums) (mixed : ¬ t.IsUniform) :
    ∃ u, Misread enums t u := by
  induction t with
  | array elem shape ih =>
    have inside (nested : ¬ elem.IsUniform) : ∃ u, Misread enums (array elem shape) u := by
      obtain ⟨u, named, texts, -, ne⟩ := ih ht nested
      refine ⟨array u shape, named, by rw [text, text, texts], rfl, fun same => ne ?_⟩
      exact (Ty.array.inj same).1
    cases shape with
    | storage n => exact inside mixed
    | pointer h =>
      by_cases nested : elem.IsUniform
      · obtain ⟨hh, k, borrows, hk, ne⟩ :
            h.isBorrow ∧ ∃ k, elem.handle? = some k ∧ k.isBorrow ∧ k ≠ h := by
          simpa [IsUniform, nested] using mixed
        exact exists_misread_borrow ht hh hk borrows ne
      · exact inside nested
  | list elem ih =>
    obtain ⟨u, named, texts, -, ne⟩ := ih ht mixed
    refine ⟨list u, named, by rw [text, text, texts], rfl, fun same => ne ?_⟩
    exact Ty.list.inj same
  | map key value ihk ihv =>
    rcases not_and_or.1 mixed with mixed | mixed
    · obtain ⟨u, named, texts, isString, ne⟩ := ihk ht.1 mixed
      have plain : key.isString = false := by
        cases key <;> first | rfl | exact absurd trivial mixed
      refine ⟨map u value, ⟨named, ht.2⟩, ?_, rfl, fun same => ne ?_⟩
      · rw [text, text, isString, plain, texts]
      · simpa [Ty.ownKeys, Ty.arrays, isString, plain] using same
    · obtain ⟨u, named, texts, -, ne⟩ := ihv ht.2 mixed
      refine ⟨map key u, ⟨ht.1, named⟩, by rw [text, text, texts], rfl, fun same => ne ?_⟩
      exact (Ty.map.inj same).2
  | _ => exact absurd trivial mixed

end Mixed

/-- Named types are spelled alike when they differ in nothing but the keys of their maps, the number
of objects behind their pointers and the order of the modifiers of nested borrows. The last of these
makes a type be taken for another unless its nested borrows all are of one kind. -/
theorem nested_borrows_told_apart_iff (ht : t.Named enums) :
    (∀ u : Ty, u.Named enums →
      (u.spelling = t.spelling ↔ u.ownKeys.canonical = t.ownKeys.canonical)) ∧
    ((∀ u : Ty, u.Named enums → u.spelling = t.spelling → u.ownKeys.arrays = t.ownKeys.arrays) ↔
      t.IsUniform) := by
  refine ⟨fun u hu => spelling_eq_iff ht hu, fun told => ?_, fun uniform u hu same => ?_⟩
  · by_contra mixed
    obtain ⟨u, named, texts, -, ne⟩ := exists_misread ht mixed
    refine ne (told u named ?_)
    rw [spelling_eq_text ht, spelling_eq_text named, texts]
  · exact arrays_eq_of_canonical_eq uniform.ownKeys ((spelling_eq_iff ht hu).1 same)

/-- A map to borrowed arrays of objects, which a map to borrowed objects is spelled like. -/
theorem nested_borrows_told_apart_iff_map :
    let t := map (string .view) (array (object "Foo" .value) (.pointer .mutable))
    let u := map (string .storage) (object "Foo" (.ptr .mutable))
    t.Named [] ∧ u.spelling = t.spelling ∧ u.ownKeys.arrays = t.ownKeys.arrays := by
  intro t u
  have named : isTypeName "Foo" := by decide
  have ht : t.Named [] := ⟨trivial, named, List.not_mem_nil⟩
  have hu : u.Named [] := ⟨trivial, named, List.not_mem_nil⟩
  have uniform : t.IsUniform := ⟨trivial, nofun, trivial⟩
  exact ⟨ht, rfl, (nested_borrows_told_apart_iff ht).2.2 uniform u hu rfl⟩

/-- A read-only borrow of an array of mutable pointers is spelled like a mutable borrow of an array
of read-only pointers, which lets the holder change what it may only look at. -/
theorem nested_borrows_spelled_alike :
    let t := array (object "Foo" (.ptr .mutable)) (.pointer .readOnly)
    let u := array (object "Foo" (.ptr .readOnly)) (.pointer .mutable)
    (t.Named [] ∧ u.Named []) ∧
      (t.spelling = .ok "const Foo * *" ∧ u.spelling = .ok "const Foo * *") ∧
      t.ownKeys ≠ u.ownKeys ∧ t.ownKeys.arrays ≠ u.ownKeys.arrays := by
  have named : isTypeName "Foo" := by decide
  exact ⟨⟨⟨named, List.not_mem_nil⟩, named, List.not_mem_nil⟩, ⟨rfl, rfl⟩, by decide, by decide⟩

end Ty

end CppEmission
