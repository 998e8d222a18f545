import CppEmission.Proofs.Location.Site

/-! The location of an error in the declaration of a field. A place further out may give its own
location to an error that has none, but whatever stops a declaration has one. -/

namespace CppEmission

def Diagnostic.orAt (location : String) : Diagnostic → Diagnostic
  | unsupported construct l => unsupported construct (if l.isEmpty then location else l)
  | unrepresentableLiteral literal l =>
    unrepresentableLiteral literal (if l.isEmpty then location else l)
  | circularDependency c => circularDependency c

theorem Diagnostic.orAt_of_located {d : Diagnostic} {text : String} (h : d.location? = some text)
    (located : text ≠ "") (location : String) : d.orAt location = d := by
  have kept : text.isEmpty = false := by simpa using located
  cases d <;> cases h <;> simp [orAt, kept]

namespace Location

theorem code_text_ne_empty (className methodName : Option String) (span : Span) :
    (code className methodName span).text ≠ "" := by
  rw [text]
  split <;> simp [Span.display, String.append_eq_empty_iff]

theorem count_colon_text (className : String) (span : Span) :
    (code (some className) none span).text.toList.count ':' = className.toList.count ':' := by
  have digits (n : Nat) : ':' ∉ Nat.toDigits 10 n := fun h =>
    absurd (Nat.isDigit_of_mem_toDigits (by decide) (by decide) h) (by decide)
  have display : span.display.toList.count ':' = 0 := by
    simp [Span.display, List.count_eq_zero, digits]
  rw [text, scopeText]
  dsimp only [Option.getD]
  split
  next empty => simp_all
  · simp [display]

end Location

theorem Script.text_of_complete {s : Script} (h : s.fault = none) (w : Writer) :
    ∃ text, s.text w = .ok text :=
  ⟨_, Script.text_eq_ok.2 ⟨s.ops, congrArg (Script.mk s.ops) h, rfl⟩⟩

/-- The generation of the program gets to the site and is refused there. -/
def Program.StopsAt (p : Program) (dialect : Dialect) (site : Site) (e : EmitError) : Prop :=
  ∃ order resources before after, p.dependencyOrder = .ok order ∧ p.embeddable = .ok resources ∧
    p.sites order = before ++ site :: after ∧
    (∀ s ∈ before, (s.script ⟨dialect, p, {}⟩).fault = none) ∧
    (site.script ⟨dialect, p, {}⟩).fault = some e

theorem Program.StopsAt.generate {p : Program} {dialect : Dialect} {site : Site} {e : EmitError}
    (h : p.StopsAt dialect site e) (settings : Settings) :
    generate dialect settings p = .error e := by
  obtain ⟨order, resources, before, after, horder, hresources, split, complete, fault⟩ := h
  have first : ((p.sites order).findSome? fun s => (s.script ⟨dialect, p, {}⟩).fault) = some e :=
    List.findSome?_eq_some_iff.2 ⟨before, site, after, split, fault, complete⟩
  rw [← Context.fault_program _ p settings order resources, Option.or_eq_some_iff] at first
  rw [generate_settled dialect settings horder hresources]
  obtain interface | ⟨interface, implementation⟩ := first
  · exact bind_eq_error.2 (.inl (Script.text_eq_error.2 interface))
  · obtain ⟨text, written⟩ := Script.text_of_complete interface settings.writer
    refine bind_eq_error.2 (.inr ⟨text, written, bind_eq_error.2 (.inl ?_)⟩)
    exact Script.text_eq_error.2 implementation

theorem generate_eq_error_iff_stopsAt {p : Program} {dialect : Dialect} {settings : Settings}
    {e : EmitError} {order : List Class} {resources : List Resource}
    (horder : p.dependencyOrder = .ok order) (hresources : p.embeddable = .ok resources) :
    generate dialect settings p = .error e ↔ ∃ site, p.StopsAt dialect site e := by
  refine ⟨fun h => ?_, fun ⟨_, h⟩ => h.generate settings⟩
  obtain ⟨before, site, after, split, fault, complete⟩ :=
    List.findSome?_eq_some_iff.1 (generate_eq_error horder hresources h)
  exact ⟨site, order, resources, before, after, horder, hresources, split, complete, fault⟩

theorem Site.fieldLine_of_fault {cx : Context} {c : Class} {i : Nat} {f : Field} {e : EmitError}
    (h : ((declaration c (.field i f)).script cx).fault = some e) :
    (cx.entering (.enterClass (some c))).fieldLine f = .error e := by
  have h : (Script.after ((cx.entering (.enterClass (some c))).fieldLine f) .line ++ {}).fault =
      some e := h
  cases line : (cx.entering (.enterClass (some c))).fieldLine f with
  | ok text => rw [line] at h; cases h
  | error e' => rw [line] at h; cases h; rfl

theorem Context.fieldLine_eq_error {cx : Context} {f : Field} {e : EmitError}
    (h : cx.fieldLine f = .error e) : cx.typeName f.ty = .error e ∨
      ∃ v, f.value = some v ∧ cx.coerce f.ty v .assign = .error e := by
  obtain h | ⟨_, -, h⟩ := bind_eq_error.1 h
  · obtain type | ⟨typeName, -, h⟩ := bind_eq_error.1 h
    · exact .inl type
    cases value : f.value with
    | none => rw [value] at h; cases h
    | some v =>
      rw [value] at h
      obtain conversion | ⟨_, -, h⟩ := bind_eq_error.1 h
      · exact .inr ⟨v, rfl, conversion⟩
      · cases h
  · cases h

/-- What stops the declaration of a field, its type or its initial value, is located by the class
alone. No location around the declaration is taken, so that the name of the field is not given. -/
theorem field_error_names_class_only {p : Program} {dialect : Dialect} {c : Class} {i : Nat}
    {f : Field} {e : EmitError} (h : p.StopsAt dialect (.declaration c (.field i f)) e)
    (settings : Settings) :
    generate dialect settings p = .error e ∧
    (Context.typeName ⟨dialect, p, .enterClass (some c)⟩ f.ty = .error e ∨
      ∃ v, f.value = some v ∧
        Context.coerce ⟨dialect, p, .enterClass (some c)⟩ f.ty v .assign = .error e) ∧
    (∀ location, e.diagnostic.orAt location = e.diagnostic) ∧
    ∃ span, e.diagnostic.location? = some (Location.code (some c.name) none span).text ∧
      ¬ (c.name ++ "::" ++ f.name).toList <:+:
        (Location.code (some c.name) none span).text.toList := by
  refine ⟨h.generate settings, ?_⟩
  obtain ⟨-, -, -, -, -, -, -, -, fault⟩ := h
  have refused := Site.fieldLine_of_fault fault
  obtain ⟨why, span, rfl⟩ := Context.fieldLine_here f e refused
  have located := EmitError.location?_refused why (.code (some c.name) none span)
  have kept := Diagnostic.orAt_of_located located (Location.code_text_ne_empty _ _ _)
  refine ⟨Context.fieldLine_eq_error refused, kept, span, located, fun named => ?_⟩
  have colons : (c.name ++ "::" ++ f.name).toList.count ':' =
      c.name.toList.count ':' + (f.name.toList.count ':' + 2) := by simp
  have fewer := named.sublist.count_le ':'
  rw [Location.count_colon_text, colons] at fewer
  omega

/-- An initial value that cannot be made a shared object. -/
theorem field_error_names_class_only_converted :
    let value := Expr.new ⟨.object "Node" .value, ⟨3, 9⟩⟩ none
    let f : Field := { name := "next", ty := .object "Node" (.ptr .shared), value := some value }
    let c : Class := { name := "Node", fields := [f] }
    let p : Program := { classes := [c] }
    ∃ e, p.StopsAt .cpp (.declaration c (.field 0 f)) e ∧ generate .cpp {} p = .error e ∧
      e.diagnostic.orAt "Node::next" = .unsupported
        "conversion from Value to Shared class reference" "Node at 3..9" := by
  intro value f c p
  have stops : p.StopsAt .cpp (.declaration c (.field 0 f))
      (.refused (.objectConversion .value .shared) (.code (some "Node") none ⟨3, 9⟩)) :=
    ⟨p.classes, [], [.declaration c .constructor], [.constructor c],
      Program.dependencyOrder_alone rfl rfl, Program.embeddable_nil rfl, rfl, by decide, rfl⟩
  obtain ⟨generated, -, kept, -⟩ := field_error_names_class_only stops {}
  exact ⟨_, stops, generated, (kept _).trans (by decide +kernel)⟩

/-- The place around the declaration means to name the field, here `A::x`, but the spelling of the
type has failed at the class before. -/
theorem null_field_not_named :
    let f : Field := { name := "x", ty := .null }
    let c : Class := { name := "A", fields := [f] }
    let p : Program := { classes := [c] }
    ∃ e text, p.StopsAt .cpp (.declaration c (.field 0 f)) e ∧ generate .cpp {} p = .error e ∧
      e.message = "unsupported construct: `null` as a declared type (at A at 0..0)" ∧
      e.diagnostic.location? = some text ∧ ¬ "A::x".toList <:+: text.toList := by
  intro f c p
  have stops : p.StopsAt .cpp (.declaration c (.field 0 f))
      (.refused .nullType (.code (some "A") none {})) :=
    ⟨p.classes, [], [.declaration c .constructor], [.constructor c],
      Program.dependencyOrder_alone rfl rfl, Program.embeddable_nil rfl, rfl, by decide, rfl⟩
  exact ⟨_, _, stops, stops.generate {}, by decide +kernel, rfl, by decide +kernel⟩

end CppEmission
