import CppEmission.Refusal
import CppEmission.Program

namespace CppEmission

def Class.dependencies (c : Class) : List String :=
  c.base.toList ++ c.fields.filterMap (·.ty.embedded?)

namespace Program

def classNames (p : Program) : List String := p.classes.map (·.name)

def unentered (p : Program) (path : List String) : Nat :=
  p.classNames.countP (· ∉ path)

theorem countP_not_mem_cons_le (names path : List String) (name : String) :
    names.countP (· ∉ name :: path) ≤ names.countP (· ∉ path) :=
  List.countP_mono_left fun x _ hx => by simp_all

theorem countP_not_mem_cons_lt {names path : List String} {name : String} (hmem : name ∈ names)
    (hpath : name ∉ path) :
    names.countP (· ∉ name :: path) < names.countP (· ∉ path) := by
  induction names with
  | nil => simp at hmem
  | cons x xs ih =>
    have le := countP_not_mem_cons_le xs path name
    by_cases hxn : x = name
    · subst hxn
      rw [List.countP_cons_of_neg (by simp), List.countP_cons_of_pos (by simpa using hpath)]
      omega
    · have lt := ih ((List.mem_cons.1 hmem).resolve_left fun h => hxn h.symm)
      rw [List.countP_cons, List.countP_cons]
      by_cases hx : x ∈ path <;> simpa [hx, hxn] using lt

theorem unentered_cons_lt {p : Program} {path : List String} {name : String} {c : Class}
    (hc : p.class? name = some c) (hpath : name ∉ path) :
    p.unentered (name :: path) < p.unentered path := by
  obtain ⟨h, rfl⟩ := mem_of_class? hc
  exact countP_not_mem_cons_lt (List.mem_map_of_mem h) hpath

/-- Puts the classes of the given names behind `done`, each behind its own dependencies. The
`path` holds the classes that are waiting for their dependencies; to meet one of them again is to
go in a circle. A name that no class has asks for nothing. -/
def place (p : Program) (path : List String) (done : List Class) :
    List String → Except EmitError (List Class)
  | [] => .ok done
  | name :: rest =>
    match _hc : p.class? name with
    | none => p.place path done rest
    | some c =>
      if done.any (·.name == name) then p.place path done rest
      else if _hpath : name ∈ path then .error (.circularDependency c.name)
      else
        match p.place (name :: path) done c.dependencies with
        | .error e => .error e
        | .ok done => p.place path (done ++ [c]) rest
termination_by names => (p.unentered path, names.length)
decreasing_by
  · exact Prod.Lex.right _ (by simp)
  · exact Prod.Lex.right _ (by simp)
  · exact Prod.Lex.left _ _ (unentered_cons_lt ‹_› ‹_›)
  · exact Prod.Lex.right _ (by simp)

def dependencyOrder (p : Program) : Except EmitError (List Class) :=
  p.place [] [] p.classNames

end Program

end CppEmission
