import CppEmission.Proofs.Header.Typed
import CppEmission.Proofs.Writer.Move

/-! The interface unit includes the headers of all that the two units are written with. -/

namespace CppEmission

open Surface

variable {ts : List (Term Name)}

theorem Writer.Op.Draws.hash {text : String} (rest : String) (h : text = "#" ++ rest) :
    Writer.Op.Draws ts (.line text) := h ▸ .directive

namespace Script.Draws

theorem blank {s : Script} (h : s.Draws ts) : (blank ++ s).Draws ts :=
  (op .blankLine).append h

theorem lines {texts : List String} (h : ∀ text ∈ texts, Composed ts text) :
    Draws ts (.lines texts) :=
  List.forall_mem_map.2 fun text mem => .line (h text mem)

end Script.Draws

def includeLine (header : String) : String := "#include <" ++ header ++ ">"

theorem interfacePrologue_draws (used : List Facility) : (interfacePrologue used).Draws ts := by
  rw [interfacePrologue]
  refine .append (.op (.hash "pragma once" (by decide))) ?_
  split
  · exact .nil
  · refine .blank (List.forall_mem_map.2 fun text mem => ?_)
    obtain ⟨header, -, rfl⟩ := List.mem_map.1 mem
    exact .hash ("include <" ++ header ++ ">") (by simp only [← String.append_assoc]; rfl)

theorem includeLine_mem_interfacePrologue {used : List Facility} {header : String}
    (h : header ∈ Header.needed used) : Writer.Op.line (includeLine header) ∈ (interfacePrologue used).ops := by
  rw [interfacePrologue]
  cases needed : Header.needed used with
  | nil =>
    rw [needed] at h
    cases h
  | cons first rest =>
    rw [needed] at h
    exact List.mem_cons_of_mem _ (List.mem_cons_of_mem _
      (List.mem_map_of_mem (List.mem_map_of_mem h)))

namespace Settings

variable {s : Settings}

theorem banners_draws (s : Settings) : s.banners.Draws ts := by
  have text : lineComment s.banner = "//" ++ (" " ++ s.banner) := by
    rw [lineComment, ← String.append_assoc]
    rfl
  rw [banners, text]
  exact .op .comment

variable (named : s.enclosing.toList.map nameTerm ⊆ ts)

include named

theorem opening_draws : ∀ op ∈ s.opening, op.Draws ts := by
  rw [opening]
  cases enclosing : s.enclosing with
  | none => exact List.forall_mem_nil _
  | some name =>
    rw [enclosing] at named
    exact Script.Draws.blank (.line (Context.headed (by decide) (by decide)
      (Context.name_composed (named List.mem_cons_self))))

theorem closing_draws : ∀ op ∈ s.closing, op.Draws ts := by
  rw [closing]
  cases enclosing : s.enclosing with
  | none => exact List.forall_mem_nil _
  | some name =>
    rw [enclosing] at named
    exact Script.Draws.blank (.line (.append (.own (by decide))
      (Context.name_composed (named List.mem_cons_self))))

end Settings

namespace Program

variable {p : Program} {settings : Settings} {resources : List Resource}

section Around

variable (named : settings.enclosing.toList.map nameTerm ⊆ ts)

include named

theorem interfaceFront_draws (classes : ∀ c ∈ p.classes, nameTerm c.name ∈ ts)
    (enums : ∀ e ∈ p.enums, e.terms ⊆ ts) : ∀ op ∈ p.interfaceFront settings, op.Draws ts := by
  simp only [interfaceFront, List.forall_mem_append, List.forall_mem_flatMap]
  refine ⟨⟨⟨⟨settings.banners_draws.append (interfacePrologue_draws _), fun text _ => ?_⟩,
    Settings.opening_draws named⟩, ?_⟩, fun e he => ?_⟩
  · exact Script.Draws.blank (.op .raw)
  · split
    · exact nofun
    · refine Script.Draws.blank (.lines fun text mem => ?_)
      obtain ⟨c, hc, rfl⟩ := List.mem_map.1 mem
      exact Class.forwardLine_composed (classes c hc)
  · exact Script.Draws.blank (.line (Enum.line_composed (enums e he)))

theorem interfaceBack_draws (embedded : ∀ r ∈ resources, r.terms ⊆ ts) :
    ∀ op ∈ interfaceBack settings resources, op.Draws ts := by
  refine List.forall_mem_append.2 ⟨?_, Settings.closing_draws named⟩
  split
  · exact nofun
  · rw [Resource.concat_declarations]
    exact Script.Draws.blank (List.forall_mem_map.2 fun r hr =>
      Resource.declaration_draws (embedded r hr))

theorem implementationFront_draws : ∀ op ∈ implementationFront settings, op.Draws ts := by
  refine List.forall_mem_append.2 ⟨settings.banners_draws.append (.op ?_),
    Settings.opening_draws named⟩
  exact .hash ("include \"" ++ settings.interfaceFile ++ "\"")
    (by simp only [← String.append_assoc]; rfl)

theorem implementationBack_draws (embedded : ∀ r ∈ resources, r.terms ⊆ ts) :
    ∀ op ∈ implementationBack settings resources, op.Draws ts :=
  List.forall_mem_append.2 ⟨List.forall_mem_flatMap.2 fun r hr =>
    Resource.definition_draws (embedded r hr), Settings.closing_draws named⟩

end Around

end Program

/-- Both units are written with the terms and with their own words. -/
def Units.AreWrittenWith (units : Units) (settings : Settings) (ts : List (Term Name)) : Prop :=
  ∃ interface implementation,
    units = ⟨settings.page interface, settings.page implementation⟩ ∧
      (∀ op ∈ interface, op.Draws ts) ∧ ∀ op ∈ implementation, op.Draws ts

def Units.Includes (units : Units) (header : String) : Prop :=
  (includeLine header ++ "\n").toList <:+: units.interface.toList

theorem Header.mem_needed {row : Header} {f : Facility} {used : List Facility} (hr : row ∈ all)
    (hf : f ∈ row.provides) (hu : f ∈ used) : row.name ∈ needed used :=
  List.mem_map_of_mem (List.mem_filter.2
    ⟨hr, List.any_eq_true.2 ⟨f, hf, List.contains_iff_mem.2 hu⟩⟩)

section Generation

variable {settings : Settings} {p : Program} {units : Units}

theorem areWrittenWith_of_generate (h : generate .cpp settings p = .ok units)
    (listed : p.terms settings ⟨.cpp, p, {}⟩ ⊆ ts) : units.AreWrittenWith settings ts := by
  obtain ⟨order, resources, horder, hresources, -, -, hinterface, himplementation⟩ :=
    generate_pages h
  simp only [Program.terms, List.append_subset, flatMap_subset] at listed
  obtain ⟨⟨⟨named, classes⟩, enums⟩, embedded⟩ := listed
  have listed (c : Class) (hc : c ∈ p.classes) : c.IsListed ⟨.cpp, p, {}⟩ ts :=
    Class.isListed (classes c hc)
  have embedded : ∀ r ∈ resources, r.terms ⊆ ts := fun r hr =>
    embedded r (Program.embeddable_subset hresources hr)
  refine ⟨_, _, congrArg₂ Units.mk hinterface himplementation, ?_, ?_⟩
  · have front := Program.interfaceFront_draws named (fun c hc => (listed c hc).name) enums
    have definitions : ∀ c ∈ order, (Context.script ⟨.cpp, p, {}⟩ c.declare).Draws ts :=
      fun c hc => Class.declare_draws rfl (listed c (Program.dependencyOrder_subset horder hc))
    simp only [List.forall_mem_append, List.forall_mem_flatMap]
    exact ⟨⟨front, definitions⟩, Program.interfaceBack_draws named embedded⟩
  · have definitions : ∀ c ∈ p.classes, (Context.script ⟨.cpp, p, {}⟩ c.define).Draws ts :=
      fun c hc => Class.define_draws rfl (listed c hc)
    simp only [List.forall_mem_append, List.forall_mem_flatMap]
    exact ⟨⟨Program.implementationFront_draws named, definitions⟩,
      Program.implementationBack_draws named embedded⟩

theorem includes_of_needed {header : String} (h : generate .cpp settings p = .ok units)
    (needed : header ∈ Header.needed p.facilities) : units.Includes header := by
  obtain ⟨_, _, -, -, -, -, hinterface, -⟩ := generate_pages h
  have prologue := includeLine_mem_interfacePrologue needed
  rw [Units.Includes, hinterface]
  refine Writer.line_isInfix ?_ _
  simp only [Program.interfaceFront, List.mem_append]
  exact .inl (.inl (.inl (.inl (.inl (.inl (List.mem_append_right _ prologue))))))

theorem includes_of_terms (scalars : Bool) (h : generate .cpp settings p = .ok units)
    (met : scalars → ∀ e, p.Contains e → e.demands ⊆ p.facilities) :
    ∀ t ∈ p.terms settings ⟨.cpp, p, {}⟩, ∀ x ∈ t.entities, (x.isScalar → scalars) →
      ∀ header ∈ x.headers, units.Includes header :=
  fun t ht x hx counts header hh =>
    includes_of_needed h (Program.terms_provide met t ht x hx counts header hh)

end Generation

def Intrinsic.headers : Intrinsic → List String
  | stringContains => ["string"]
  | listContains | mathMin | mathMax => ["algorithm"]
  | mathAbs => ["cmath", "cstdlib"]
  | consoleWriteLine => ["iostream"]
  | _ => []

theorem Intrinsic.headers_rows (f : Intrinsic) : ∀ header ∈ f.headers,
    ∃ row ∈ Header.all, row.name = header ∧ .intrinsic f ∈ row.provides := by
  cases f <;> decide

/-- The interface includes the headers of all containers, shared pointers and other entities that
the units are written with, texts and integers aside, and those of each function of the library that
is called, which are the functions that count as used. -/
theorem generate_includes_headers {settings : Settings} {p : Program} {units : Units}
    (h : generate .cpp settings p = .ok units) :
    let ts := p.terms settings ⟨.cpp, p, {}⟩
    units.AreWrittenWith settings ts ∧
      (∀ t ∈ ts, ∀ x ∈ t.entities, ¬ x.isScalar → ∀ header ∈ x.headers, units.Includes header) ∧
      (∀ e f, p.Contains e → e.IsCallOf f → ∀ header ∈ f.headers, units.Includes header) ∧
      ∀ f, p.uses (.intrinsic f) ↔ ∃ e, p.Contains e ∧ e.IsCallOf f := by
  refine ⟨areWrittenWith_of_generate h (List.Subset.refl _), ?_, ?_, p.uses_intrinsic⟩
  · exact fun t ht x hx apart =>
      includes_of_terms false h nofun t ht x hx fun scalar => absurd scalar apart
  · intro e f contains call header hh
    have used := (p.uses_intrinsic f).2 ⟨e, contains, call⟩
    obtain ⟨row, hrow, rfl, provides⟩ := f.headers_rows header hh
    exact includes_of_needed h (Header.mem_needed hrow provides (List.contains_iff_mem.1 used))

theorem generate_includes_headers_largest :
    let x : Expr := .symbol ⟨.float, {}⟩ none ⟨"x", .parameter⟩
    let p : Program := { classes := [{
      name := "A"
      fields := [{ name := "xs", ty := .list (.object "B" (.ptr .shared)) }]
      methods := [{
        name := "f"
        params := [{ name := "x", ty := .float }]
        returnTy := some .float
        body := some (.ret (some (.intrinsic ⟨.float, {}⟩ .mathMax none [x, x]))) }] }] }
    let ts := p.terms {} ⟨.cpp, p, {}⟩
    ∃ units, generate .cpp {} p = .ok units ∧ units.AreWrittenWith {} ts ∧
      (∀ t ∈ ts, ∀ x ∈ t.entities, ¬ x.isScalar → ∀ header ∈ x.headers, units.Includes header) ∧
      (∀ e f, p.Contains e → e.IsCallOf f → ∀ header ∈ f.headers, units.Includes header) ∧
      ∀ f, p.uses (.intrinsic f) ↔ ∃ e, p.Contains e ∧ e.IsCallOf f := by
  intro x p ts
  obtain ⟨units, h⟩ : ∃ units, generate .cpp {} p = .ok units := by
    rw [generate_alone .cpp {} rfl rfl rfl]
    exact ⟨_, rfl⟩
  exact ⟨units, h, generate_includes_headers h⟩

/-- The headers of texts and integers are included as well where the expressions are typed and the
methods that arguments are cast for are declared in the program. -/
theorem generate_includes_scalar_headers {settings : Settings} {p : Program} {units : Units}
    (h : generate .cpp settings p = .ok units) (typed : ∀ e, p.Contains e → e.IsTyped)
    (covered : ∀ e, p.Contains e → p.CoversCall e) :
    let ts := p.terms settings ⟨.cpp, p, {}⟩
    units.AreWrittenWith settings ts ∧
      ∀ t ∈ ts, ∀ x ∈ t.entities, x.isScalar → ∀ header ∈ x.headers, units.Includes header :=
  ⟨areWrittenWith_of_generate h (List.Subset.refl _), fun t ht x hx _ =>
    includes_of_terms true h (fun _ => Program.demands_subset typed covered) t ht x hx fun _ => rfl⟩

/-- A sum of a text and a number, and an argument that is cast for a method of the same class. -/
theorem generate_includes_scalar_headers_call :
    let sum : Expr := .binary ⟨.string .storage, {}⟩ .add (.ofString "a")
      (.literal ⟨.int .i32, {}⟩ (.int 1))
    let d : Expr := .symbol ⟨.double, {}⟩ none ⟨"d", .parameter⟩
    let call : Expr := .call ⟨.null, {}⟩ ⟨"A", "take", false, [.int .i32]⟩ none [d]
    let p : Program := { classes := [{
      name := "A"
      fields := [{ name := "text", ty := .string .storage, value := some sum }]
      methods := [{
        name := "f"
        params := [{ name := "d", ty := .double }]
        body := some (.expr call) }, {
        name := "take"
        params := [{ name := "x", ty := .int .i32 }]
        body := some (.block []) }] }] }
    let ts := p.terms {} ⟨.cpp, p, {}⟩
    d.IsCastTo (.int .i32) ∧ p.Contains call ∧
      (∀ e, p.Contains e → e.IsTyped) ∧ (∀ e, p.Contains e → p.CoversCall e) ∧
      ∃ units, generate .cpp {} p = .ok units ∧ units.AreWrittenWith {} ts ∧
        ∀ t ∈ ts, ∀ x ∈ t.entities, x.isScalar → ∀ header ∈ x.headers, units.Includes header := by
  intro sum d call p ts
  obtain ⟨units, h⟩ : ∃ units, generate .cpp {} p = .ok units := by
    rw [generate_alone .cpp {} rfl rfl rfl]
    exact ⟨_, rfl⟩
  have contained : ∀ e, p.Contains e →
      e = sum ∨ e = .ofString "a" ∨ e = .literal ⟨.int .i32, {}⟩ (.int 1) ∨ e = call ∨ e = d := by
    rintro e ⟨root, mem, occurs⟩
    rcases List.mem_pair.1 mem with rfl | rfl
    · rcases occurs with _ | ⟨child, occurs⟩
      · exact .inl rfl
      rcases List.mem_pair.1 child with rfl | rfl <;> rcases occurs with _ | ⟨⟨⟩, _⟩ <;> simp
    · rcases occurs with _ | ⟨child, occurs⟩
      · simp
      obtain rfl := List.mem_singleton.1 child
      rcases occurs with _ | ⟨⟨⟩, _⟩
      simp
  have declared : p.Declares ⟨"A", "take", false, [.int .i32]⟩ :=
    ⟨_, List.mem_singleton.2 rfl, rfl, _, List.mem_cons_of_mem _ (List.mem_singleton.2 rfl), rfl, rfl⟩
  have typed : ∀ e, p.Contains e → e.IsTyped := by
    intro e contains
    rcases contained e contains with rfl | rfl | rfl | rfl | rfl
    · exact fun _ _ _ => rfl
    · exact ⟨fun _ => rfl, nofun⟩
    · exact ⟨nofun, fun _ => ⟨.i32, rfl⟩⟩
    · trivial
    · trivial
  have covered : ∀ e, p.Contains e → p.CoversCall e := by
    intro e contains
    rcases contained e contains with rfl | rfl | rfl | rfl | rfl
    case inr.inr.inr.inl => exact .inl declared
    all_goals trivial
  exact ⟨⟨_, rfl⟩, ⟨call, List.mem_cons_of_mem _ (List.mem_singleton.2 rfl), .here⟩, typed, covered,
    units, h, generate_includes_scalar_headers h typed covered⟩

/-- An argument may be cast to the type of a parameter, but the program is scanned for the parameters
of its own methods alone: a method that it knows from native text has others. -/
theorem generate_includes_scalar_headers_undeclared :
    let take : Signature := ⟨"Ext", "take", true, [.int .i32]⟩
    let p : Program := {
      classes := [{
        name := "A"
        methods := [{
          name := "f"
          params := [{ name := "d", ty := .double }]
          body := some (.expr (.call ⟨.null, {}⟩ take none
            [.symbol ⟨.double, {}⟩ none ⟨"d", .parameter⟩])) }] }]
      natives := ["struct Ext \x7b static void take(int n); \x7d;"] }
    ∃ units, generate .cpp {} p = .ok units ∧
      "Ext::take(static_cast<int32_t>(d));".toList <:+: units.implementation.toList ∧
      ¬ units.Includes "cstdint" := by
  intro take p
  rw [generate_alone .cpp {} rfl rfl rfl]
  refine ⟨_, rfl, ?_, ?_⟩
  · decide +kernel
  · rw [Units.Includes]
    decide +kernel

end CppEmission
