import CppEmission.Proofs.Header.Inclusion
import CppEmission.Proofs.Naming.Stmt
import CppEmission.Proofs.Naming.Word

/-! The units of a program are those of the program with its names escaped, and none of the escaped
names is reserved. -/

namespace CppEmission

open Keyword (escape)

namespace Context

variable {cx : Context}

theorem returnName_escaped (m : Method) :
    Repeats (cx.escaped.returnName m.escaped) (cx.returnName m) := by
  rw [returnName, returnName, Method.escaped]
  cases m.returnTy with
  | none => exact .refl _
  | some t => exact typeName_escaped t

theorem paramText_escaped (p : Param) :
    Repeats (cx.escaped.paramText p.escaped) (cx.paramText p) := by
  rw [paramText, paramText, Param.escaped, Keyword.escape_escape]
  exact (typeName_escaped _).bind fun _ => .refl _

theorem methodHeader_escaped (className : String) (m : Method) :
    Repeats (cx.escaped.methodHeader className m.escaped) (cx.methodHeader className m) := by
  have params : Repeats (m.escaped.params.mapM cx.escaped.paramText) (m.params.mapM cx.paramText) :=
    .mapM (List.forall₂_map_left_iff.2 (List.forall₂_same.2 fun p _ => paramText_escaped p))
  have name : escape m.escaped.name = escape m.name := Keyword.escape_escape _
  rw [methodHeader, methodHeader, name]
  exact (returnName_escaped m).bind fun _ => params.bind fun _ => .refl _

section Lines

variable (hcx : cx.dialect.convert = convert)

include hcx

theorem fieldLine_escaped (f : Field) :
    Repeats (cx.escaped.fieldLine f.escaped) (cx.fieldLine f) := by
  have static : cx.escaped.scope.class?.any (·.isStatic) = cx.scope.class?.any (·.isStatic) :=
    Option.any_map
  rw [fieldLine, fieldLine, static]
  exact (declared_escaped hcx f.name f.ty (operand?_escaped hcx f.value)).bind fun _ => .refl _

theorem paramTextWithDefault_escaped (p : Param) :
    Repeats (cx.escaped.paramTextWithDefault p.escaped) (cx.paramTextWithDefault p) := by
  refine (paramText_escaped p).bind fun _ => ?_
  rw [Param.escaped]
  cases p.default with
  | none => exact .refl _
  | some e => exact (coerce_escaped hcx p.ty e _).bind fun _ => .refl _

theorem methodLine_escaped (m : Method) :
    Repeats (cx.escaped.methodLine m.escaped) (cx.methodLine m) := by
  have params : Repeats (m.escaped.params.mapM cx.escaped.paramTextWithDefault)
      (m.params.mapM cx.paramTextWithDefault) :=
    .mapM (List.forall₂_map_left_iff.2
      (List.forall₂_same.2 fun p _ => paramTextWithDefault_escaped hcx p))
  have name : escape m.escaped.name = escape m.name := Keyword.escape_escape _
  rw [methodLine, methodLine, name]
  exact (returnName_escaped m).bind fun _ => params.bind fun _ => .refl _

end Lines

end Context

theorem Class.constructorLine_escaped (c : Class) :
    c.escaped.constructorLine = c.constructorLine := by
  rw [constructorLine, constructorLine]
  cases declared : c.constructor <;> simp [escaped, declared, Stmt.defaultEscaped, isStatic]

theorem Enum.line_escaped (e : Enum) : e.escaped.line = e.line := by
  have text (c : EnumConstant) : c.escaped.text = c.text := by
    rw [EnumConstant.text, EnumConstant.text, EnumConstant.escaped, Keyword.escape_escape]
  simp only [line, escaped, List.isEmpty_map, List.map_map, Function.comp_def, text]

def Retraces (as' as : List Action) : Prop :=
  ∀ cx : Context, cx.dialect.convert = convert →
    (cx.escaped.script as').Copies (cx.script as) ∧ cx.escaped.after as' = (cx.after as).escaped

namespace Retraces

variable {as as' bs bs' : List Action}

theorem nil : Retraces [] [] := fun _ _ => ⟨.refl _, rfl⟩

theorem append (h : Retraces as' as) (k : Retraces bs' bs) :
    Retraces (as' ++ bs') (as ++ bs) := by
  intro cx hcx
  have there : (cx.after as).dialect.convert = convert := by rwa [cx.after_eq_entering as]
  obtain ⟨copies, leads⟩ := h cx hcx
  obtain ⟨copies', leads'⟩ := k _ there
  rw [Context.script_append, Context.script_append, Context.after_append, Context.after_append,
    leads]
  exact ⟨copies.append copies', leads'⟩

theorem flatMap {α : Type} {e : α → α} {f f' : α → List Action}
    (h : ∀ x, Retraces (f' (e x)) (f x)) (xs : List α) :
    Retraces ((xs.map e).flatMap f') (xs.flatMap f) := by
  induction xs with
  | nil => exact nil
  | cons x xs ih => exact (h x).append ih

theorem write {text text' : Context → Script} (h : ∀ cx : Context,
    cx.dialect.convert = convert → (text' cx.escaped).Copies (text cx)) :
    Retraces [.write text'] [.write text] :=
  fun cx hcx => ⟨(h cx hcx).append (.refl _), rfl⟩

theorem put (s : Script) : Retraces [.put s] [.put s] := write fun _ _ => .refl _

theorem puts (f : α → Script) (xs : List α) :
    Retraces (xs.map fun x => .put (f x)) (xs.map fun x => .put (f x)) := by
  induction xs with
  | nil => exact nil
  | cons x xs ih => exact (put (f x)).append ih

theorem enterClass (c : Option Class) :
    Retraces [.enterClass (c.map (·.escaped))] [.enterClass c] :=
  fun _ _ => ⟨.refl _, rfl⟩

theorem enterMethod (m : Option Method) :
    Retraces [.enterMethod (m.map (·.escaped))] [.enterMethod m] :=
  fun _ _ => ⟨.refl _, rfl⟩

theorem enclose (settings : Settings) (h : Retraces as' as) :
    Retraces (settings.enclose as') (settings.enclose as) := by
  rw [Settings.enclose, Settings.enclose]
  cases settings.enclosing with
  | none => exact h
  | some name => exact ((put _).append h).append (put _)

end Retraces

theorem Member.declare_escaped (c : Class) (m : Member) :
    Retraces (m.escaped.declare c.escaped) (m.declare c) := by
  cases m with
  | constructor =>
    rw [escaped, declare, declare, c.constructorLine_escaped]
    exact .put _
  | destructor => exact .put _
  | constant _ d => exact .write fun _ hcx => .line (Context.constantLine_escaped hcx .member d)
  | field _ f => exact .write fun _ hcx => .line (Context.fieldLine_escaped hcx f)
  | method _ m =>
    exact (Retraces.enterMethod (some m)).append
      ((Retraces.write fun _ hcx => .line (Context.methodLine_escaped hcx m)).append
        (.enterMethod none))

namespace Class

theorem declareGroups_escaped (c : Class) (access : Option String) (gs : List VisibilityGroup) :
    Retraces (c.escaped.declareGroups access (gs.map (·.escaped))) (c.declareGroups access gs) := by
  induction gs generalizing access with
  | nil => exact .nil
  | cons g gs ih =>
    have label : Retraces
        (if access = some g.visibility.access then [] else [.put (accessLabel g.visibility.access)])
        (if access = some g.visibility.access then []
          else [.put (accessLabel g.visibility.access)]) := by
      split
      · exact .nil
      · exact .put _
    rw [List.map_cons, declareGroups, declareGroups]
    exact (label.append (.flatMap (Member.declare_escaped c) g.members)).append (ih _)

theorem declare_escaped (c : Class) : Retraces c.escaped.declare c.declare := by
  rw [declare, declare, groups_escaped]
  exact (Retraces.put _).append ((Retraces.enterClass (some c)).append ((Retraces.put _).append
    ((c.declareGroups_escaped none c.groups).append ((Retraces.put _).append (.enterClass none)))))

theorem defineConstructor_escaped (c : Class) :
    Retraces c.escaped.defineConstructor c.defineConstructor := by
  cases declared : c.constructor with
  | none =>
    simp only [defineConstructor, escaped, declared, Stmt.defaultEscaped]
    exact .nil
  | some body =>
    simp only [defineConstructor, escaped, declared, Stmt.defaultEscaped]
    exact .write fun _ hcx => .ite (.fail _ _)
      ((Script.Copies.refl _).append (.block _ (Context.emitAll_escaped hcx body)))

theorem defineMethod_escaped (c : Class) (m : Method) :
    Retraces (c.escaped.defineMethod m.escaped) (c.defineMethod m) := by
  have abstract : m.escaped.isAbstract = m.isAbstract := rfl
  rw [defineMethod, defineMethod, abstract]
  split
  · exact .nil
  refine (Retraces.enterMethod (some m)).append (.write fun cx hcx => ?_)
  have body : m.escaped.body = Stmt.optEscaped m.body := rfl
  rw [body]
  cases m.body with
  | none => exact .fail _ _
  | some body =>
    exact .after (Context.methodHeader_escaped c.name m) fun _ =>
      (Script.Copies.refl _).append (.block _ (Context.emit_escaped hcx true body))

theorem define_escaped (c : Class) : Retraces c.escaped.define c.define :=
  (Retraces.enterClass (some c)).append ((c.defineConstructor_escaped.append
    (.flatMap c.defineMethod_escaped c.methods)).append (.enterClass none))

end Class

namespace Program

variable {p : Program}

theorem class?_escaped (name : String) : p.escaped.class? name = (p.class? name).map (·.escaped) :=
  List.find?_map

theorem classNames_escaped : p.escaped.classNames = p.classNames := by
  simp only [classNames, escaped, List.map_map]
  rfl

theorem place_escaped (path : List String) (done : List Class) (names : List String) :
    p.escaped.place path (done.map (·.escaped)) names =
      (p.place path done names).map (·.map (·.escaped)) := by
  have kept (done : List Class) (name : String) :
      (done.map (·.escaped)).any (·.name == name) = done.any (·.name == name) := List.any_map
  fun_induction p.place path done names with
  | case1 path done => exact place_nil
  | case2 path done name rest hc ih =>
    rw [place_unknown (by rw [class?_escaped, hc]; rfl), ih]
  | case3 path done name rest c hc hdone ih =>
    rw [place_done (by rw [class?_escaped, hc]; rfl) (by rw [kept, hdone]), ih]
  | case4 path done name rest c hc hdone hpath =>
    rw [place_circle (by rw [class?_escaped, hc]; rfl) (by rwa [kept]) hpath]
    rfl
  | case5 path done name rest c hc hdone hpath e he ih =>
    rw [place_enter (by rw [class?_escaped, hc]; rfl) (by rwa [kept]) hpath,
      Class.dependencies_escaped, ih, he]
    rfl
  | case6 path done name rest c hc hdone hpath placed hplaced ih ih' =>
    rw [place_enter (by rw [class?_escaped, hc]; rfl) (by rwa [kept]) hpath,
      Class.dependencies_escaped, ih, hplaced]
    rwa [List.map_append] at ih'

theorem dependencyOrder_escaped :
    p.escaped.dependencyOrder = p.dependencyOrder.map (·.map (·.escaped)) := by
  rw [dependencyOrder, dependencyOrder, classNames_escaped]
  exact place_escaped [] [] p.classNames

theorem interface_escaped (p : Program) (settings : Settings) (order : List Class) (resources : List Resource) :
    Retraces (p.escaped.interface settings (order.map (·.escaped)) resources)
      (p.interface settings order resources) := by
  have forward : p.escaped.forwardDeclarations = p.forwardDeclarations := by
    simp only [forwardDeclarations, escaped, List.isEmpty_map, List.map_map]
    rfl
  have enums : p.escaped.enums.map (fun e => Action.put (blank ++ .line e.line)) =
      p.enums.map fun e => .put (blank ++ .line e.line) := by
    simp only [escaped, List.map_map, Function.comp_def, Enum.line_escaped]
  have classes : Retraces p.forwardDeclarations p.forwardDeclarations := by
    rw [forwardDeclarations]
    split
    · exact .nil
    · exact .put _
  have listed : Retraces (declareResources resources) (declareResources resources) := by
    rw [declareResources]
    split
    · exact .nil
    · exact .put _
  rw [interface, interface, facilities_escaped, forward, enums]
  exact (Retraces.put _).append ((Retraces.puts _ p.natives).append (.enclose settings
    (((classes.append (.puts _ p.enums)).append (.flatMap Class.declare_escaped order)).append
      listed)))

theorem implementation_escaped (p : Program) (settings : Settings) (resources : List Resource) :
    Retraces (p.escaped.implementation settings resources)
      (p.implementation settings resources) :=
  (Retraces.put _).append (.enclose settings
    ((Retraces.flatMap Class.define_escaped p.classes).append (.puts _ resources)))

end Program

theorem Script.Copies.text {writer : Writer} {s s' : Script} {text : String} (h : s'.Copies s)
    (complete : s.text writer = .ok text) : s'.text writer = .ok text := by
  obtain ⟨ops, rfl, rfl⟩ := text_eq_ok.1 complete
  rw [h rfl, complete]

section Generation

variable {settings : Settings} {p : Program} {units : Units}

theorem generate_escaped (h : generate .cpp settings p = .ok units) :
    generate .cpp settings p.escaped = .ok units := by
  rw [generate_eq_answer, Generator.answer] at h
  obtain ⟨order, horder, h⟩ := bind_eq_ok.1 h
  obtain ⟨resources, hresources, h⟩ := bind_eq_ok.1 h
  obtain ⟨interface, hinterface, h⟩ := bind_eq_ok.1 h
  obtain ⟨implementation, himplementation, h⟩ := bind_eq_ok.1 h
  have order' : p.escaped.dependencyOrder = .ok (order.map (·.escaped)) := by
    rw [Program.dependencyOrder_escaped, horder]
    rfl
  have copied := (p.interface_escaped settings order resources ⟨.cpp, p, {}⟩ rfl).1
  have copied' := (p.implementation_escaped settings resources ⟨.cpp, p, {}⟩ rfl).1
  rw [generate_settled .cpp settings order' hresources]
  exact bind_eq_ok.2 ⟨interface, copied.text hinterface,
    bind_eq_ok.2 ⟨implementation, copied'.text himplementation, h⟩⟩

/-- The units of a program are written with its terms, whose words for constants, fields, methods,
parameters, variables and constants of enums are not reserved. They are the units of the program
with all these names escaped, so that a reserved name is spelled in the same way wherever something
is declared by it or referred to. The names of classes and enums stay as they are. -/
theorem generate_escapes_names (h : generate .cpp settings p = .ok units) :
    let ts := p.terms settings ⟨.cpp, p, {}⟩
    units.AreWrittenWith settings ts ∧
      (∀ t ∈ ts, ∀ x ∈ t.words, Keyword.isReserved x →
        x ∈ p.typeNames ∨ x ∈ settings.enclosing ∨ p.CallsResource x) ∧
      generate .cpp settings p.escaped = .ok units ∧ p.escaped.names = p.names.map escape ∧
      (∀ name ∈ p.escaped.names, Keyword.isReserved name = false) ∧
      p.escaped.typeNames = p.typeNames := by
  have free : ∀ name ∈ p.escaped.names, Keyword.isReserved name = false := by
    rw [p.names_escaped]
    exact List.forall_mem_map.2 fun name _ => Keyword.isReserved_escape name
  exact ⟨areWrittenWith_of_generate h (List.Subset.refl _), p.terms_use, generate_escaped h,
    p.names_escaped, free, p.typeNames_escaped⟩

theorem generate_escapes_names_parameter :
    let p : Program := { classes := [{
      name := "A"
      fields := [{ name := "delete", ty := .int .i32 }]
      methods := [{
        name := "new"
        params := [{ name := "class", ty := .int .i32 }]
        returnTy := some (.int .i32)
        body := some (.ret (some (.symbol ⟨.int .i32, {}⟩ none ⟨"class", .parameter⟩))) }] }] }
    let ts := p.terms {} ⟨.cpp, p, {}⟩
    ∃ units, generate .cpp {} p = .ok units ∧ units.AreWrittenWith {} ts ∧
      (∀ t ∈ ts, ∀ x ∈ t.words, Keyword.isReserved x →
        x ∈ p.typeNames ∨ x ∈ ({} : Settings).enclosing ∨ p.CallsResource x) ∧
      generate .cpp {} p.escaped = .ok units ∧ p.escaped.names = p.names.map escape ∧
      (∀ name ∈ p.escaped.names, Keyword.isReserved name = false) ∧
      p.escaped.typeNames = p.typeNames := by
  intro p ts
  obtain ⟨units, h⟩ : ∃ units, generate .cpp {} p = .ok units := by
    rw [generate_alone .cpp {} rfl rfl rfl]
    exact ⟨_, rfl⟩
  exact ⟨units, h, generate_escapes_names h⟩

/-- A class is declared by its own name, reserved or not. -/
theorem generate_escapes_names_class :
    let p : Program := { classes := [{ name := "delete" }] }
    ∃ units, generate .cpp {} p = .ok units ∧ Keyword.isReserved "delete" = true ∧
      "class delete;".toList <:+: units.interface.toList ∧
      "delete() = default;".toList <:+: units.interface.toList := by
  intro p
  rw [generate_alone .cpp {} rfl rfl rfl]
  refine ⟨_, rfl, by decide, ?_, ?_⟩
  all_goals decide +kernel

end Generation

end CppEmission
