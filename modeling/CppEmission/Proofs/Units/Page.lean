import CppEmission.Proofs.Units.Agreement
import Mathlib.Tactic.Choose

/-! The pages of a program: what stands in front of its classes, its classes, and what stands
behind them. -/

namespace CppEmission

namespace Context

variable (cx : Context)

theorem script_put (s : Script) (as : List Action) :
    cx.script (.put s :: as) = s ++ cx.script as := rfl

theorem script_puts (f : α → Script) (h : ∀ x, (f x).fault = none) (xs : List α) :
    cx.script (xs.map fun x => .put (f x)) = ⟨xs.flatMap fun x => (f x).ops, none⟩ := by
  induction xs with
  | nil => rfl
  | cons x xs ih =>
    rw [List.map_cons, script_put, ih, Script.append_of_complete (h x)]
    rfl

theorem script_flatMap {cx : Context} {f : α → List Action} (steady : ∀ x, Steady (f x))
    {xs : List α} {ops : List Writer.Op} (h : cx.script (xs.flatMap f) = ⟨ops, none⟩) :
    ops = xs.flatMap (fun x => (cx.script (f x)).ops) ∧
      ∀ x ∈ xs, (cx.script (f x)).fault = none := by
  induction xs generalizing ops with
  | nil =>
    cases h
    exact ⟨rfl, nofun⟩
  | cons x xs ih =>
    rw [List.flatMap_cons, script_append, (Steady.flatMap steady xs).script_after] at h
    obtain ⟨_, _, hx, hxs, rfl⟩ := Script.append_eq_complete.1 h
    obtain ⟨rfl, complete⟩ := ih hxs
    rw [List.flatMap_cons, hx]
    refine ⟨rfl, List.forall_mem_cons.2 ⟨?_, complete⟩⟩
    rw [hx]

end Context

def Settings.page (s : Settings) (ops : List Writer.Op) : String := (s.writer.run ops).buffer

def Settings.opening (s : Settings) : List Writer.Op :=
  (s.enclosing.map fun name => (blank ++ openNamespace name).ops).getD []

def Settings.closing (s : Settings) : List Writer.Op :=
  (s.enclosing.map fun name => (blank ++ closeNamespace name).ops).getD []

namespace Program

def interfaceFront (p : Program) (settings : Settings) : List Writer.Op :=
  (settings.banners ++ interfacePrologue p.facilities).ops ++
    p.natives.flatMap (fun text => (blank ++ .op (.raw text)).ops) ++ settings.opening ++
    (if p.classes.isEmpty then [] else (blank ++ .lines (p.classes.map (·.forwardLine))).ops) ++
    p.enums.flatMap fun e => (blank ++ .line e.line).ops

def interfaceBack (settings : Settings) (resources : List Resource) : List Writer.Op :=
  (if resources.isEmpty then [] else (blank ++ .concat (resources.map fun r =>
    .resourceDeclaration r.identifier r.bytes.length)).ops) ++ settings.closing

def implementationFront (settings : Settings) : List Writer.Op :=
  (settings.banners ++ implementationPrologue settings).ops ++ settings.opening

def implementationBack (settings : Settings) (resources : List Resource) : List Writer.Op :=
  resources.flatMap (fun r => (blank ++ .resourceDefinition r.identifier r.bytes).ops) ++
    settings.closing

end Program

namespace Script

theorem mk_append_mk (a b : List Writer.Op) (fault : Option EmitError) :
    (⟨a, none⟩ : Script) ++ ⟨b, fault⟩ = ⟨a ++ b, fault⟩ := rfl

theorem eq_mk_of_complete {s : Script} (h : s.fault = none) : s = ⟨s.ops, none⟩ := by
  rw [← h]

end Script

theorem fault_interfacePrologue (used : List Facility) : (interfacePrologue used).fault = none := by
  rw [interfacePrologue]
  split <;> rfl

namespace Context

variable (cx : Context)

theorem script_enclose (settings : Settings) (body : List Action) :
    cx.script (settings.enclose body) =
      ⟨settings.opening, none⟩ ++ cx.script body ++ ⟨settings.closing, none⟩ := by
  rw [Settings.enclose, Settings.opening, Settings.closing]
  cases settings.enclosing with
  | none => simp
  | some name =>
    dsimp only
    rw [List.cons_append, script_put, script_append]
    exact (Script.append_assoc _ _ _).symm

theorem script_forwardDeclarations (p : Program) : cx.script p.forwardDeclarations =
    ⟨if p.classes.isEmpty then [] else (blank ++ .lines (p.classes.map (·.forwardLine))).ops,
      none⟩ := by
  rw [Program.forwardDeclarations]
  split
  · rfl
  · exact Script.append_nil _

theorem script_declareResources (resources : List Resource) :
    cx.script (Program.declareResources resources) =
      ⟨if resources.isEmpty then [] else (blank ++ .concat (resources.map fun r =>
        .resourceDeclaration r.identifier r.bytes.length)).ops, none⟩ := by
  rw [Program.declareResources]
  split
  · rfl
  · rw [script_put, script, Script.append_nil]
    apply Script.eq_mk_of_complete
    rw [Script.fault_append rfl]
    apply Script.fault_concat
    intro s hs
    obtain ⟨r, -, rfl⟩ := List.mem_map.1 hs
    rfl

theorem script_interface (p : Program) (settings : Settings) (order : List Class)
    (resources : List Resource) : cx.script (p.interface settings order resources) =
      ⟨p.interfaceFront settings, none⟩ ++ cx.script (order.flatMap (·.declare)) ++
        ⟨Program.interfaceBack settings resources, none⟩ := by
  have natives := script_puts cx (fun text => blank ++ .op (.raw text)) (fun _ => rfl) p.natives
  have enums := script_puts cx (fun e : Enum => blank ++ .line e.line) (fun _ => rfl) p.enums
  have prologue : settings.banners ++ interfacePrologue p.facilities =
      ⟨(settings.banners ++ interfacePrologue p.facilities).ops, none⟩ := by
    apply Script.eq_mk_of_complete
    rw [Script.fault_append rfl, fault_interfacePrologue]
  have classes := Steady.flatMap Steady.declare order
  have resourcesSteady := Steady.declareResources resources
  have enumsSteady := Steady.puts (fun e : Enum => blank ++ .line e.line) p.enums
  have body := (((Steady.forwardDeclarations p).append enumsSteady).append classes).append
    resourcesSteady
  rw [Program.interface, script_append, script_put, natives, (body.enclose settings).script_after,
    script_enclose, script_append, resourcesSteady.script_after, script_append,
    classes.script_after, script_append, enumsSteady.script_after, enums,
    script_forwardDeclarations, script_declareResources, prologue]
  simp only [Program.interfaceFront, Program.interfaceBack, ← Script.mk_append_mk,
    Script.append_assoc]

theorem script_implementation (p : Program) (settings : Settings) (resources : List Resource) :
    cx.script (p.implementation settings resources) =
      ⟨Program.implementationFront settings, none⟩ ++ cx.script (p.classes.flatMap (·.define)) ++
        ⟨Program.implementationBack settings resources, none⟩ := by
  have definitions := script_puts cx (fun r : Resource =>
    blank ++ .resourceDefinition r.identifier r.bytes) (fun _ => rfl) resources
  have resourcesSteady := Steady.puts (fun r : Resource =>
    blank ++ .resourceDefinition r.identifier r.bytes) resources
  rw [Program.implementation, script_put, script_enclose, script_append,
    resourcesSteady.script_after, definitions]
  simp only [Program.implementationFront, Program.implementationBack, ← Script.mk_append_mk,
    Script.append_assoc]
  rfl

end Context

theorem generate_eq_ok {dialect : Dialect} {settings : Settings} {p : Program} {units : Units}
    (h : generate dialect settings p = .ok units) :
    ∃ order resources interface implementation,
      p.dependencyOrder = .ok order ∧ p.embeddable = .ok resources ∧
      Context.script ⟨dialect, p, {}⟩ (p.interface settings order resources) =
        ⟨interface, none⟩ ∧
      Context.script ⟨dialect, p, {}⟩ (p.implementation settings resources) =
        ⟨implementation, none⟩ ∧
      units = ⟨settings.page interface, settings.page implementation⟩ := by
  rw [generate_eq_answer, Generator.answer] at h
  obtain ⟨order, horder, h⟩ := bind_eq_ok.1 h
  obtain ⟨resources, hresources, h⟩ := bind_eq_ok.1 h
  obtain ⟨_, htext, h⟩ := bind_eq_ok.1 h
  obtain ⟨_, htext', h⟩ := bind_eq_ok.1 h
  obtain ⟨interface, hinterface, rfl⟩ := Script.text_eq_ok.1 htext
  obtain ⟨implementation, himplementation, rfl⟩ := Script.text_eq_ok.1 htext'
  cases h
  exact ⟨order, resources, interface, implementation, horder, hresources, hinterface,
    himplementation, rfl⟩

theorem Program.embeddable_nil {p : Program} (h : p.resources = []) : p.embeddable = .ok [] := by
  rw [embeddable, sortedResources, h, List.mergeSort_nil]
  rfl

theorem generate_settled {p : Program} {order : List Class} {resources : List Resource}
    (dialect : Dialect) (settings : Settings) (horder : p.dependencyOrder = .ok order)
    (hresources : p.embeddable = .ok resources) :
    generate dialect settings p = (do
      let cx : Context := ⟨dialect, p, {}⟩
      let interface ← (cx.script (p.interface settings order resources)).text settings.writer
      let implementation ← (cx.script (p.implementation settings resources)).text settings.writer
      return ⟨interface, implementation⟩) := by
  rw [generate_eq_answer, Generator.answer]
  dsimp only
  rw [horder, hresources]
  rfl

theorem generate_alone {p : Program} {c : Class} (dialect : Dialect) (settings : Settings)
    (alone : p.classes = [c]) (free : c.dependencies = []) (none : p.resources = []) :
    generate dialect settings p = (do
      let cx : Context := ⟨dialect, p, {}⟩
      let interface ← (cx.script (p.interface settings [c] [])).text settings.writer
      let implementation ← (cx.script (p.implementation settings [])).text settings.writer
      return ⟨interface, implementation⟩) :=
  generate_settled dialect settings (p.dependencyOrder_alone alone free)
    (Program.embeddable_nil none)

theorem generate_pages {dialect : Dialect} {settings : Settings} {p : Program} {units : Units}
    (h : generate dialect settings p = .ok units) :
    let cx : Context := ⟨dialect, p, {}⟩
    ∃ order resources, p.dependencyOrder = .ok order ∧ p.embeddable = .ok resources ∧
      (∀ c ∈ order, (cx.script c.declare).fault = none) ∧
      (∀ c ∈ p.classes, (cx.script c.define).fault = none) ∧
      units.interface = settings.page (p.interfaceFront settings ++
        order.flatMap (fun c => (cx.script c.declare).ops) ++
        Program.interfaceBack settings resources) ∧
      units.implementation = settings.page (Program.implementationFront settings ++
        p.classes.flatMap (fun c => (cx.script c.define).ops) ++
        Program.implementationBack settings resources) := by
  obtain ⟨order, resources, ops, ops', horder, hresources, hinterface, himplementation, rfl⟩ :=
    generate_eq_ok h
  rw [Context.script_interface] at hinterface
  rw [Context.script_implementation] at himplementation
  obtain ⟨_, _, declared, hback, rfl⟩ := Script.append_eq_complete.1 hinterface
  obtain ⟨_, _, hfront, hdeclare, rfl⟩ := Script.append_eq_complete.1 declared
  obtain ⟨_, _, defined, hback', rfl⟩ := Script.append_eq_complete.1 himplementation
  obtain ⟨_, _, hfront', hdefine, rfl⟩ := Script.append_eq_complete.1 defined
  obtain ⟨rfl, declares⟩ := Context.script_flatMap Steady.declare hdeclare
  obtain ⟨rfl, defines⟩ := Context.script_flatMap Steady.define hdefine
  cases hfront
  cases hback
  cases hfront'
  cases hback'
  exact ⟨order, resources, horder, hresources, declares, defines, rfl, rfl⟩

/-- The units show the classes of a program between a front and a back: the interface in
dependency order, the implementation in the order of the program. What the one declares of a class
agrees with what the other defines of it. -/
def Units.Agree (units : Units) (settings : Settings) (p : Program) : Prop :=
  ∃ (order : List Class) (resources : List Resource) (outline : Class → Outline),
    p.dependencyOrder = .ok order ∧ order.Perm p.classes ∧ p.embeddable = .ok resources ∧
    (∀ c ∈ p.classes, (outline c).Agrees c) ∧
    units.interface = settings.page (p.interfaceFront settings ++
      order.flatMap (fun c => (outline c).interface c) ++
      Program.interfaceBack settings resources) ∧
    units.implementation = settings.page (Program.implementationFront settings ++
      p.classes.flatMap (fun c => (outline c).implementation) ++
      Program.implementationBack settings resources)

theorem generate_functions_agree {dialect : Dialect} {settings : Settings} {p : Program}
    {units : Units} (hp : p.classNames.Nodup) (h : generate dialect settings p = .ok units) :
    units.Agree settings p := by
  obtain ⟨order, resources, horder, hresources, declares, defines, hinterface, himplementation⟩ :=
    generate_pages h
  have perm := p.dependencyOrder_perm hp horder
  choose! outline agrees interface implementation using fun c hc =>
    Class.exists_outline (declares c (perm.mem_iff.2 hc)) (defines c hc)
  refine ⟨order, resources, outline, horder, perm, hresources, agrees, ?_, ?_⟩
  · rw [hinterface, List.flatMap_congr fun c hc => interface c (perm.mem_iff.1 hc)]
  · rw [himplementation, List.flatMap_congr fun c hc => implementation c hc]

theorem generate_functions_agree_default :
    let p : Program := { classes := [{
      name := "A"
      constructor := some []
      methods := [{
        name := "f"
        params := [{
          name := "x"
          ty := .int .i32
          default := some (.literal ⟨.int .i32, {}⟩ (.int 1)) }]
        body := some (.block []) }] }] }
    ∃ units, p.classNames.Nodup ∧ generate .cpp {} p = .ok units ∧ units.Agree {} p := by
  intro p
  have distinct : p.classNames.Nodup := by decide
  obtain ⟨units, h⟩ : ∃ units, generate .cpp {} p = .ok units := by
    rw [generate_alone .cpp {} rfl rfl rfl]
    exact ⟨_, rfl⟩
  exact ⟨units, distinct, h, generate_functions_agree distinct h⟩

end CppEmission
