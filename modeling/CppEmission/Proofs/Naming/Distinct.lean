import CppEmission.Proofs.Location.Site
import CppEmission.Proofs.Naming.Escaped
import CppEmission.Proofs.Units.Label

/-! When the names that a program declares stay distinct as they are escaped. -/

namespace CppEmission

namespace Keyword

/-- The first name is escaped to the second, which stays as it is. -/
def Collides (a b : String) : Prop := isReserved a = true ∧ b = a ++ "_"

instance (a b : String) : Decidable (Collides a b) := inferInstanceAs (Decidable (_ ∧ _))

namespace Collides

variable {a b : String}

theorem ne (h : Collides a b) : a ≠ b := by
  obtain ⟨word, rfl⟩ := h
  intro same
  rw [same, isReserved_append_underscore] at word
  cases word

theorem escape_eq (h : Collides a b) : escape a = escape b := by
  obtain ⟨word, rfl⟩ := h
  rw [escape_of_isReserved word, escape_of_not_isReserved (isReserved_append_underscore a)]

end Collides

theorem escape_eq_escape_iff {a b : String} :
    escape a = escape b ↔ a = b ∨ Collides a b ∨ Collides b a := by
  constructor
  · intro same
    cases ha : isReserved a <;> cases hb : isReserved b
    case false.false =>
      rw [escape_of_not_isReserved ha, escape_of_not_isReserved hb] at same
      exact .inl same
    case false.true =>
      rw [escape_of_not_isReserved ha, escape_of_isReserved hb] at same
      exact .inr (.inr ⟨hb, same⟩)
    case true.false =>
      rw [escape_of_isReserved ha, escape_of_not_isReserved hb] at same
      exact .inr (.inl ⟨ha, same.symm⟩)
    case true.true =>
      rw [escape_of_isReserved ha, escape_of_isReserved hb] at same
      exact .inl (String.append_left_inj _ |>.1 same)
  · rintro (rfl | collides | collides)
    · rfl
    · exact collides.escape_eq
    · exact collides.escape_eq.symm

/-- No two of the names are escaped to one. -/
def Apart (names : List String) : Prop := ∀ a ∈ names, ∀ b ∈ names, ¬ Collides a b

instance (names : List String) : Decidable (Apart names) :=
  inferInstanceAs (Decidable (∀ a ∈ names, ∀ b ∈ names, _))

theorem nodup_map_escape_iff {names : List String} (distinct : names.Nodup) :
    (names.map escape).Nodup ↔ Apart names := by
  rw [List.nodup_map_iff_inj_on distinct]
  constructor
  · intro inj a ha b hb collides
    exact collides.ne (inj a ha b hb collides.escape_eq)
  · intro apart a ha b hb same
    rcases escape_eq_escape_iff.1 same with rfl | collides | collides
    · rfl
    · exact absurd collides (apart a ha b hb)
    · exact absurd collides (apart b hb a ha)

/-- The names are emitted as they are escaped, in some order. Distinct names stay distinct unless
two of them are escaped to one. -/
structure Renames (names emitted : List String) : Prop where
  escaped : emitted.Perm (names.map escape)
  distinct : names.Nodup → (emitted.Nodup ↔ Apart names)

theorem Renames.of_perm {names emitted : List String} (h : emitted.Perm (names.map escape)) :
    Renames names emitted :=
  ⟨h, fun distinct => h.nodup_iff.trans (nodup_map_escape_iff distinct)⟩

end Keyword

open Keyword (escape Renames)

def Member.name? : Member → Option String
  | constructor | destructor => none
  | constant _ d => some d.name
  | field _ f => some f.name
  | method _ m => some m.name

namespace Member

inductive IsShown : Member → String → String → Prop
  | constant {t : Ty} {ty value name : String} (type : d.ty.ofConstant? = some t)
      (spelled : t.spelling = .ok ty) : IsShown (.constant i d)
        ("static constexpr " ++ ty ++ " " ++ name ++ " = " ++ value ++ ";") name
  | field {ty name initial : String} (words : storage = "" ∨ storage = "static inline ")
      (spelled : f.ty.spelling = .ok ty)
      (value : initial = f.ty.initializer ∨ ∃ value, initial = " = " ++ value) :
      IsShown (.field i f) (storage ++ (ty ++ " " ++ name ++ initial) ++ ";") name
  | method {head : MethodHead} (describes : head.Describes m) :
      IsShown (.method i m) (head.declaration m.kind) head.name

inductive AreShown : List (Member × String) → List String → Prop
  | nil : AreShown [] []
  | unnamed {m : Member} : m.name? = none → AreShown ds names → AreShown ((m, line) :: ds) names
  | named {m : Member} : m.IsShown line name → AreShown ds names →
      AreShown ((m, line) :: ds) (name :: names)

end Member

def Class.memberNames (c : Class) : List String :=
  c.constants.map (·.name) ++ c.fields.map (·.name) ++ c.methods.map (·.name)

theorem Class.filterMap_members (c : Class) :
    c.members.filterMap Member.name? = c.memberNames := by
  have named {α : Type} (make : Nat → α → Member) (name : α → String) (xs : List α)
      (h : ∀ i x, (make i x).name? = some (name x)) :
      (xs.zipIdx.map fun (x, i) => make i x).filterMap Member.name? = xs.map name := by
    rw [List.filterMap_map]
    calc xs.zipIdx.filterMap (Member.name? ∘ fun (x, i) => make i x)
      _ = xs.zipIdx.filterMap (some ∘ (name ∘ Prod.fst)) :=
          List.filterMap_congr fun d _ => h d.2 d.1
      _ = xs.map name := by
        rw [List.filterMap_eq_map, ← List.map_map, List.zipIdx_map_fst]
  have destructor :
      (if c.hasDestructor then [Member.destructor] else []).filterMap Member.name? = [] := by
    split <;> rfl
  have constants := named .constant (·.name) c.constants fun _ _ => rfl
  have fields := named .field (·.name) c.fields fun _ _ => rfl
  have methods := named .method (·.name) c.methods fun _ _ => rfl
  rw [members, List.filterMap_append, List.filterMap_append, List.filterMap_append,
    List.filterMap_append, destructor, constants, fields, methods]
  rfl

namespace Context

theorem constantLine_shown {cx : Context} {d : Constant} {line : String} (i : Nat)
    (h : cx.constantLine .member d = .ok line) :
    (Member.constant i d).IsShown line (escape d.name) := by
  rw [constantLine] at h
  cases type : d.ty.ofConstant? with
  | none =>
    rw [type] at h
    cases h
  | some t =>
    rw [type] at h
    obtain ⟨ty, spelled, h⟩ := bind_eq_ok.1 h
    obtain ⟨value, -, h⟩ := bind_eq_ok.1 h
    cases h
    exact .constant type (typeName_eq_ok.1 spelled)

theorem declared_text {cx : Context} {name text : String} {ty : Ty} {value : Option Operand}
    (h : cx.declared name ty value = .ok text) :
    ∃ spelled initial, ty.spelling = .ok spelled ∧
      (initial = ty.initializer ∨ ∃ value, initial = " = " ++ value) ∧
      text = spelled ++ " " ++ escape name ++ initial := by
  rw [declared] at h
  obtain ⟨spelled, hspelled, h⟩ := bind_eq_ok.1 h
  rw [typeName_eq_ok] at hspelled
  cases value with
  | none =>
    cases h
    exact ⟨spelled, _, hspelled, .inl rfl, rfl⟩
  | some o =>
    obtain ⟨value, -, h⟩ := bind_eq_ok.1 h
    cases h
    exact ⟨spelled, _, hspelled, .inr ⟨value, rfl⟩, String.append_assoc⟩

theorem fieldLine_shown {cx : Context} {f : Field} {line : String} (i : Nat)
    (h : cx.fieldLine f = .ok line) : (Member.field i f).IsShown line (escape f.name) := by
  rw [fieldLine] at h
  obtain ⟨text, declared, h⟩ := bind_eq_ok.1 h
  obtain ⟨ty, initial, spelled, value, rfl⟩ := declared_text declared
  cases h
  refine .field ?_ spelled value
  split
  · exact .inr rfl
  · exact .inl rfl

theorem methodLine_shown {cx : Context} {m : Method} {line : String} (i : Nat)
    (h : cx.methodLine m = .ok line) : (Member.method i m).IsShown line (escape m.name) := by
  obtain ⟨head, describes, rfl⟩ := methodLine_describes h
  rw [← describes.name]
  exact .method describes

end Context

namespace Member

theorem isShown_of_written {cx : Context} {c : Class} {m : Member} {line name : String}
    (h : cx.script (m.declare c) = ⟨[.line line], none⟩) (named : m.name? = some name) :
    m.IsShown line (escape name) := by
  cases m <;> cases named
  all_goals
    simp only [declare, Context.script, Script.append_nil] at h
    obtain ⟨_, hline, written⟩ := Script.after_eq_complete.1 h
    cases written
  case constant i d => exact Context.constantLine_shown i hline
  case field i f => exact Context.fieldLine_shown i hline
  case method i m => exact Context.methodLine_shown i hline

theorem areShown_of_written {cx : Context} {c : Class} {ds : List (Member × String)}
    (h : ∀ d ∈ ds, cx.script (d.1.declare c) = ⟨[.line d.2], none⟩) :
    AreShown ds (((ds.map (·.1)).filterMap name?).map escape) := by
  induction ds with
  | nil => exact .nil
  | cons d ds ih =>
    obtain ⟨written, rest⟩ := List.forall_mem_cons.1 h
    rw [List.map_cons]
    cases named : d.1.name? with
    | none =>
      rw [List.filterMap_cons_none named]
      exact .unnamed named (ih rest)
    | some name =>
      rw [List.filterMap_cons_some named]
      exact .named (isShown_of_written written named) (ih rest)

end Member

namespace Class

structure DeclaresNames (c : Class) (es : List Entry) : Prop where
  members : ((es.filterMap Entry.declared?).map (·.1)).Perm c.members
  names : ∃ names, Member.AreShown (es.filterMap Entry.declared?) names ∧
    Renames c.memberNames names
  params : ∀ i m line, (.method i m, line) ∈ es.filterMap Entry.declared? →
    ∃ head : MethodHead, head.Describes m ∧ line = head.declaration m.kind ∧
      Renames m.paramNames head.paramNames

structure DefinesNames (c : Class) (ds : List Definition) : Prop where
  members : ds.map (·.member) = c.definedMembers
  params : ∀ d ∈ ds, ∀ i m, d.member = .method i m →
    ∃ head : MethodHead, head.Describes m ∧ d.header = head.definition c.name ∧
      Renames m.paramNames head.paramNames

theorem IsLabelled.declaresNames {cx : Context} {c : Class} {es : List Entry}
    (h : c.IsLabelled cx es) : c.DeclaresNames es := by
  have members : ((es.filterMap Entry.declared?).map (·.1)).Perm c.members := by
    rw [h.members]
    exact c.groups_perm
  refine ⟨members, ⟨_, Member.areShown_of_written h.written, .of_perm ?_⟩, ?_⟩
  · rw [← filterMap_members]
    exact (members.filterMap _).map _
  · intro i m line mem
    obtain ⟨_, written, declares⟩ := Member.script_declare (h.written _ mem)
    cases written
    cases declares with
    | method describes => exact ⟨_, describes, rfl, .of_perm (.of_eq describes.paramNames)⟩

-- the head is taken from the definition: of classes that share a name only one is declared
theorem exists_describes_of_define {cx : Context} {c : Class} {m : Method}
    (h : (cx.script c.define).fault = none) (hm : m ∈ c.methods)
    (concrete : m.isAbstract = false) : ∃ head : MethodHead, head.Describes m := by
  rw [Context.fault_define, List.findSome?_eq_none_iff] at h
  have site := h (.definition c m) (List.mem_cons_of_mem _
    (List.mem_flatMap.2 ⟨m, hm, List.mem_singleton_self _⟩))
  rw [Site.script, Site.actions, defineMethod, if_neg (by simp [concrete])] at site
  simp only [Context.script, Script.append_nil] at site
  split at site
  · cases site
  · obtain ⟨_, header, -⟩ := Script.complete_after_iff.1 site
    exact Context.exists_describes header

theorem exists_definesNames {cx : Context} {c : Class} (h : (cx.script c.define).fault = none) :
    ∃ ds, c.DefinesNames ds ∧ (cx.script c.define).ops = ds.flatMap Definition.ops := by
  obtain ⟨-, ds, hops, defines⟩ := script_define (Script.eq_mk_of_complete h)
  refine ⟨ds, ⟨defines.members, fun d hd i m hmember => ?_⟩, hops⟩
  have defined : .method i m ∈ c.members.filter c.isDefined := by
    rw [filter_isDefined, ← defines.members, ← hmember]
    exact List.mem_map_of_mem hd
  obtain ⟨member, concrete⟩ := List.mem_filter.1 defined
  have own : m ∈ c.methods := List.fst_mem_of_mem_zipIdx (by simpa [members] using member)
  obtain ⟨head, describes⟩ := exists_describes_of_define h own (by simpa [isDefined] using concrete)
  have under := defines.defines d hd
  rw [hmember] at under
  cases under with
  | method text =>
    exact ⟨head, describes, text head describes, .of_perm (.of_eq describes.paramNames)⟩

end Class

/-- The units show the members of the classes, in dependency order and in the order of the program,
under their names and with those of their parameters. -/
def Units.ShowNames (units : Units) (settings : Settings) (p : Program) : Prop :=
  ∃ (order : List Class) (resources : List Resource) (entries : Class → List Entry)
    (definitions : Class → List Definition),
    p.dependencyOrder = .ok order ∧ (p.classNames.Nodup → order.Perm p.classes) ∧
    p.embeddable = .ok resources ∧
    (∀ c ∈ order, c.DeclaresNames (entries c)) ∧
    (∀ c ∈ p.classes, c.DefinesNames (definitions c)) ∧
    units.interface = settings.page (p.interfaceFront settings ++
      order.flatMap (fun c => .blankLine :: .openBlock c.header :: (entries c).map Entry.op ++
        [.closeBlockWith "\x7d;"]) ++
      Program.interfaceBack settings resources) ∧
    units.implementation = settings.page (Program.implementationFront settings ++
      p.classes.flatMap (fun c => (definitions c).flatMap Definition.ops) ++
      Program.implementationBack settings resources)

/-- Two names are escaped to one only where the one is a reserved word and the other is that word
with an underscore. Apart from these, the names of members and of parameters that are distinct in a
program are so in what is generated from it. -/
theorem generate_tells_names_apart (dialect : Dialect) (settings : Settings) (p : Program) :
    (∀ a b, escape a = escape b ↔ a = b ∨ Keyword.Collides a b ∨ Keyword.Collides b a) ∧
      ∀ units, generate dialect settings p = .ok units → units.ShowNames settings p := by
  refine ⟨fun a b => Keyword.escape_eq_escape_iff, fun units h => ?_⟩
  obtain ⟨order, resources, horder, hresources, declares, defines, hinterface, himplementation⟩ :=
    generate_pages h
  choose! entries labelled written using fun c hc => Class.exists_isLabelled (declares c hc)
  choose! definitions named written' using fun c hc => Class.exists_definesNames (defines c hc)
  refine ⟨order, resources, entries, definitions, horder,
    fun distinct => p.dependencyOrder_perm distinct horder, hresources,
    fun c hc => (labelled c hc).declaresNames, named, ?_, ?_⟩
  · rw [hinterface, List.flatMap_congr written]
  · rw [himplementation, List.flatMap_congr written']

theorem generate_tells_names_apart_reserved :
    let c : Class := {
      name := "A"
      fields := [{ name := "delete", ty := .int .i32 }, { name := "count", ty := .int .i32 }]
      methods := [{
        name := "f"
        params := [{ name := "new", ty := .int .i32 }, { name := "old", ty := .int .i32 }]
        body := some (.block []) }] }
    let p : Program := { classes := [c] }
    c.memberNames.Nodup ∧ Keyword.Apart c.memberNames ∧
      ∃ units, generate .cpp {} p = .ok units ∧ units.ShowNames {} p := by
  intro c p
  obtain ⟨units, h⟩ : ∃ units, generate .cpp {} p = .ok units := by
    rw [generate_alone .cpp {} rfl rfl rfl]
    exact ⟨_, rfl⟩
  exact ⟨by decide, by decide, units, h, (generate_tells_names_apart .cpp {} p).2 units h⟩

/-- Two fields of distinct names are declared under one. -/
theorem generate_merges_fields :
    let c : Class := {
      name := "A"
      fields := [{ name := "delete", ty := .int .i32 }, { name := "delete_", ty := .int .i32 }] }
    let p : Program := { classes := [c] }
    c.memberNames.Nodup ∧ Keyword.Collides "delete" "delete_" ∧
      ∃ units, generate .cpp {} p = .ok units ∧
        "    int32_t delete_\x7b\x7d;\n    int32_t delete_\x7b\x7d;\n".toList <:+:
          units.interface.toList := by
  intro c p
  rw [generate_alone .cpp {} rfl rfl rfl]
  refine ⟨by decide, by decide, _, rfl, ?_⟩
  decide +kernel

end CppEmission
