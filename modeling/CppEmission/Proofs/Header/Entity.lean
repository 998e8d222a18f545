import CppEmission.Facility
import CppEmission.Proofs.Surface.Derivation
import CppEmission.Proofs.Surface.Name

namespace CppEmission

open Surface

inductive Entity
  | vector
  | map
  | array
  | sharedPtr
  | makeShared
  | minimum
  | maximum
  | fixedInt
  | named (used : Library)
  deriving DecidableEq

def Surface.Library.headers : Library → List String
  | string | toString | npos => ["string"]
  | stringView => ["string_view"]
  | find => ["algorithm"]
  | abs => ["cmath", "cstdlib"]
  | cout => ["iostream"]
  | runtimeError => ["stdexcept"]
  | leastInteger => ["cstdint"]

namespace Entity

def headers : Entity → List String
  | vector => ["vector"]
  | map => ["map"]
  | array => ["array"]
  | sharedPtr | makeShared => ["memory"]
  | minimum | maximum => ["algorithm"]
  | fixedInt => ["cstdint"]
  | named x => x.headers

/-- The types of texts and integers, and what makes texts and integers of them. Conversions and
string operators bring these in where the source does not name them. -/
def isScalar : Entity → Bool
  | fixedInt | named .string | named .stringView | named .toString | named .leastInteger => true
  | _ => false

def facilities : Entity → List Facility
  | vector => [.lists]
  | map => [.maps]
  | array => [.storageArrays]
  | sharedPtr | makeShared => [.sharedPointers]
  | minimum => [.intrinsic .mathMin]
  | maximum => [.intrinsic .mathMax]
  | fixedInt => [.fixedWidthInts, .resources]
  | named .string | named .toString => [.stringStorage, .numberFormatting]
  | named .npos => [.intrinsic .stringContains]
  | named .stringView => [.stringViews]
  | named .find => [.intrinsic .listContains]
  | named .abs => [.intrinsic .mathAbs]
  | named .cout => [.intrinsic .consoleWriteLine]
  | named .runtimeError => [.throws]
  | named .leastInteger => [.fixedWidthInts]

def IsProvided (used : List Facility) (x : Entity) : Prop := ∀ h ∈ x.headers, h ∈ Header.needed used

theorem headers_rows (x : Entity) : ∀ f ∈ x.facilities, ∀ h ∈ x.headers,
    ∃ row ∈ Header.all, row.name = h ∧ f ∈ row.provides := by
  cases x with
  | named x => cases x <;> decide
  | _ => decide

variable {used : List Facility} {x : Entity} {f : Facility}

theorem isProvided_of_mem (hx : f ∈ x.facilities) (hf : f ∈ used) : x.IsProvided used := by
  intro h hh
  obtain ⟨row, mem, rfl, provides⟩ := x.headers_rows f hx h hh
  refine List.mem_map_of_mem (List.mem_filter.2 ⟨mem, ?_⟩)
  exact List.any_eq_true.2 ⟨f, provides, List.contains_iff_mem.2 hf⟩

end Entity

def ArrayShape.entities : ArrayShape → List Entity
  | storage _ => [.array]
  | pointer .shared => [.sharedPtr]
  | pointer _ => []

def Ownership.entities : Ownership → List Entity
  | ptr .shared => [.sharedPtr]
  | _ => []

def Ty.entities : Ty → List Entity
  | null | bool | float | double | enum _ => []
  | int _ => [.fixedInt]
  | string .view => [.named .stringView]
  | string .storage => [.named .string]
  | array elem shape => shape.entities ++ elem.entities
  | object _ held => held.entities
  | list elem => .vector :: elem.entities
  | map key value =>
    .map :: (if key.isString then [.named .string] else key.entities) ++ value.entities

theorem ArrayShape.facility_of_entity {shape : ArrayShape} {x : Entity} (h : x ∈ shape.entities) :
    ∃ f ∈ shape.facilities, f ∈ x.facilities := by
  rcases shape with _ | _ | _ | _ <;> simp_all [entities, facilities, Entity.facilities]

theorem Ownership.facility_of_entity {held : Ownership} {x : Entity} (h : x ∈ held.entities) :
    ∃ f ∈ held.facilities, f ∈ x.facilities := by
  rcases held with _ | _ | _ | _ <;> simp_all [entities, facilities, Entity.facilities]

theorem Ty.facility_of_entity {t : Ty} {x : Entity} (h : x ∈ t.entities) :
    ∃ f ∈ t.facilities, f ∈ x.facilities := by
  induction t with
  | null | bool | float | double | enum => cases h
  | int k => simp_all [entities, facilities, Entity.facilities]
  | string shape => cases shape <;> simp_all [entities, facilities, Entity.facilities]
  | object c held => exact Ownership.facility_of_entity h
  | array elem shape ih =>
    rcases List.mem_append.1 h with h | h
    · obtain ⟨f, hf, hx⟩ := ArrayShape.facility_of_entity h
      exact ⟨f, List.mem_append_left _ hf, hx⟩
    · obtain ⟨f, hf, hx⟩ := ih h
      exact ⟨f, List.mem_append_right _ hf, hx⟩
  | list elem ih =>
    rcases List.mem_cons.1 h with rfl | h
    · exact ⟨.lists, List.mem_cons_self, List.mem_cons_self⟩
    · obtain ⟨f, hf, hx⟩ := ih h
      exact ⟨f, List.mem_cons_of_mem _ hf, hx⟩
  | map key value ihk ihv =>
    rcases List.mem_append.1 h with h | h
    · rcases List.mem_cons.1 h with rfl | h
      · exact ⟨.maps, by simp [facilities], List.mem_cons_self⟩
      split at h
      · next string =>
        obtain rfl := List.mem_singleton.1 h
        exact ⟨.stringStorage, by simp [facilities, string], List.mem_cons_self⟩
      · obtain ⟨f, hf, hx⟩ := ihk h
        exact ⟨f, by simp [facilities, hf], hx⟩
    · obtain ⟨f, hf, hx⟩ := ihv h
      exact ⟨f, by simp [facilities, hf], hx⟩

def Surface.Name.entities : Name → List Entity
  | plain _ | qualified .. | widen => []
  | library x => [.named x]
  | type t | cast t => t.entities
  | min t => .minimum :: t.entities
  | max t => .maximum :: t.entities
  | makeShared _ => [.makeShared]
  | makeSharedArray t => .makeShared :: t.entities

def Surface.Token.entities : Token Name → List Entity
  | name x => x.entities
  | literal _ | mark _ => []

def Surface.Term.entities (t : Term Name) : List Entity := t.leaves.flatMap (·.entities)

/-- The headers of what stands in the list are among those for the facilities. Texts and integers
count if `scalars` does. -/
def Provides (scalars : Bool) (used : List Facility) (xs : List Entity) : Prop :=
  ∀ x ∈ xs, (x.isScalar → scalars) → x.IsProvided used

namespace Provides

variable {scalars : Bool} {used : List Facility} {xs ys : List Entity} {x : Entity}

@[simp] theorem nil : Provides scalars used [] := nofun

@[simp] theorem append : Provides scalars used (xs ++ ys) ↔
    Provides scalars used xs ∧ Provides scalars used ys := List.forall_mem_append

@[simp] theorem cons : Provides scalars used (x :: xs) ↔
    ((x.isScalar → scalars) → x.IsProvided used) ∧ Provides scalars used xs := List.forall_mem_cons

theorem ty {t : Ty} (h : t.facilities ⊆ used) : Provides scalars used t.entities := by
  intro x hx _
  obtain ⟨f, hf, provides⟩ := Ty.facility_of_entity hx
  exact Entity.isProvided_of_mem provides (h hf)

end Provides

end CppEmission
