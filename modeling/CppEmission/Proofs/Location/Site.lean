import CppEmission.Proofs.Location.Stmt
import CppEmission.Proofs.Units.Label

namespace CppEmission

/-- A place of a program where text is written that can be refused: the declaration of a member, the
body of a constructor, or the definition of a method. -/
inductive Site
  | declaration (c : Class) (m : Member)
  | constructor (c : Class)
  | definition (c : Class) (m : Method)

namespace Site

def owner : Site → Class
  | declaration c _ | constructor c | definition c _ => c

def method? : Site → Option Method
  | declaration _ (.method _ m) | definition _ m => some m
  | _ => none

def IsOf (s : Site) (p : Program) : Prop :=
  s.owner ∈ p.classes ∧ ∀ m ∈ s.method?, m ∈ s.owner.methods

def actions : Site → List Action
  | declaration c m => m.declare c
  | constructor c => c.defineConstructor
  | definition c m => c.defineMethod m

def script (cx : Context) (s : Site) : Script :=
  (cx.entering (.enterClass (some s.owner))).script s.actions

def location (s : Site) (span : Span) : Location :=
  .code (some s.owner.name) (s.method?.map (·.name)) span

def text (s : Site) (span : Span) : String :=
  s.owner.name ++ (s.method?.map ("::" ++ ·.name)).getD "" ++ " at " ++ span.display

theorem text_location {s : Site} (h : s.owner.name ≠ "") (span : Span) :
    (s.location span).text = s.text span := by
  have outer : s.owner.name.isEmpty = false := by simpa using h
  have joined (a b : String) (h : a.isEmpty = false) : (a ++ b).isEmpty = false := by
    simp_all [String.append_eq_empty_iff]
  rw [location, Location.text, text]
  cases s.method? with
  | none => simp [Location.scopeText, outer]
  | some m => simp [Location.scopeText, outer, joined, String.append_assoc]

theorem text_ne_empty (s : Site) (span : Span) : s.text span ≠ "" := by
  simp [text, String.append_eq_empty_iff]

theorem declaration_faultsOnly (cx : Context) (c : Class) (m : Member) :
    ((declaration c m).script cx).FaultsOnly fun e =>
      ∃ why span, e = .refused why ((declaration c m).location span) := by
  cases m with
  | constructor | destructor => exact .of_complete rfl
  | constant i d =>
    exact (Script.FaultsOnly.after (Context.constantLine_here .member d) fun _ => .line _).append .nil
  | field i f =>
    exact (Script.FaultsOnly.after (Context.fieldLine_here f) fun _ => .line _).append .nil
  | method i m =>
    exact (Script.FaultsOnly.after (Context.methodLine_here m) fun _ => .line _).append .nil

theorem constructor_faultsOnly (cx : Context) (c : Class) :
    ((constructor c).script cx).FaultsOnly fun e =>
      ∃ why span, e = .refused why ((constructor c).location span) := by
  rw [script, actions, owner, Class.defineConstructor]
  split
  · exact .nil
  next body _ =>
    refine Script.FaultsOnly.append ?_ .nil
    dsimp only
    split
    · exact .fail ⟨_, _, rfl⟩
    · exact (Script.FaultsOnly.of_complete rfl).append (.block _ (Context.emitAll_here body))

theorem definition_faultsOnly (cx : Context) (c : Class) (m : Method) :
    ((definition c m).script cx).FaultsOnly fun e =>
      ∃ why span, e = .refused why ((definition c m).location span) := by
  rw [script, actions, owner, Class.defineMethod]
  split
  · exact .nil
  refine Script.FaultsOnly.append ?_ .nil
  dsimp only
  split
  · exact .fail ⟨_, _, rfl⟩
  next body _ =>
    exact .after (Context.methodHeader_here c.name m) fun h =>
      (Script.FaultsOnly.of_complete rfl).append (.block h (Context.emit_here true body))

theorem script_faultsOnly (cx : Context) : ∀ s : Site,
    (s.script cx).FaultsOnly fun e => ∃ why span, e = .refused why (s.location span)
  | declaration c m => declaration_faultsOnly cx c m
  | constructor c => constructor_faultsOnly cx c
  | definition c m => definition_faultsOnly cx c m

end Site

def Class.declarationSites (c : Class) : List Site :=
  c.groups.flatMap fun g => g.members.flatMap fun m => [.declaration c m]

def Class.definitionSites (c : Class) : List Site :=
  [.constructor c] ++ c.methods.flatMap fun m => [.definition c m]

/-- The sites of a program in the order in which they are written: the declarations of the classes
in dependency order, and their definitions in the order of the program. -/
def Program.sites (p : Program) (order : List Class) : List Site :=
  order.flatMap (·.declarationSites) ++ p.classes.flatMap (·.definitionSites)

theorem Class.declarationSites_isOf {p : Program} {c : Class} (hc : c ∈ p.classes) :
    ∀ s ∈ c.declarationSites, s.IsOf p := by
  simp only [declarationSites, List.mem_flatMap, List.mem_singleton]
  rintro _ ⟨g, hg, m, hm, rfl⟩
  refine ⟨hc, fun d hd => ?_⟩
  cases m with
  | method i m =>
    have mem := (c.groups_areGroups.method i m).1 (List.mem_flatMap.2 ⟨g, hg, hm⟩)
    cases hd
    exact List.mem_of_getElem? mem
  | _ => cases hd

theorem Class.definitionSites_isOf {p : Program} {c : Class} (hc : c ∈ p.classes) :
    ∀ s ∈ c.definitionSites, s.IsOf p := by
  simp only [definitionSites, List.mem_append, List.mem_flatMap, List.mem_singleton]
  rintro _ (rfl | ⟨m, hm, rfl⟩)
  · exact ⟨hc, nofun⟩
  · exact ⟨hc, fun d hd => Option.mem_some.1 hd ▸ hm⟩

theorem Program.sites_isOf {p : Program} {order : List Class} (h : order ⊆ p.classes) :
    ∀ s ∈ p.sites order, s.IsOf p := by
  intro s hs
  obtain hs | hs := List.mem_append.1 hs
  · obtain ⟨c, hc, hs⟩ := List.mem_flatMap.1 hs
    exact c.declarationSites_isOf (h hc) s hs
  · obtain ⟨c, hc, hs⟩ := List.mem_flatMap.1 hs
    exact c.definitionSites_isOf hc s hs

theorem Script.fault_append_eq_or (s t : Script) : (s ++ t).fault = s.fault.or t.fault := by
  cases h : s.fault with
  | none => rw [fault_append h, Option.none_or]
  | some e => rw [append_of_fault h, h, Option.some_or]

namespace Context

variable {cx : Context}

theorem fault_flatMap {α β : Type} (cx : Context) (f : α → List Action) {parts : α → List β}
    {fault : β → Option EmitError}
    (stays : ∀ x (xs : List α), (cx.after (f x)).script (xs.flatMap f) = cx.script (xs.flatMap f))
    (piece : ∀ x, (cx.script (f x)).fault = (parts x).findSome? fault) (xs : List α) :
    (cx.script (xs.flatMap f)).fault = (xs.flatMap parts).findSome? fault := by
  induction xs with
  | nil => rfl
  | cons x xs ih =>
    rw [List.flatMap_cons, List.flatMap_cons, script_append, stays, Script.fault_append_eq_or,
      piece, ih, List.findSome?_append]

theorem fault_site (s : Site) : [s].findSome? (fun s => (s.script cx).fault) =
    ((cx.entering (.enterClass (some s.owner))).script s.actions).fault := by
  cases h : (s.script cx).fault <;> rw [Site.script] at h <;> simp [Site.script, h]

theorem fault_declareGroups (c : Class) (access : Option String) (gs : List VisibilityGroup) :
    ((cx.entering (.enterClass (some c))).script (c.declareGroups access gs)).fault =
      (gs.flatMap fun g => g.members.flatMap fun m => [Site.declaration c m]).findSome?
        fun s => (s.script cx).fault := by
  induction gs generalizing access with
  | nil => rfl
  | cons g gs ih =>
    have label : ((cx.entering (.enterClass (some c))).script
        (if access = some g.visibility.access then []
          else [.put (accessLabel g.visibility.access)])).fault = none := by
      split <;> rfl
    have members := fault_flatMap (cx.entering (.enterClass (some c))) (·.declare c)
      (fun m ms => by rw [after_declare rfl]) (fun m => (fault_site (.declaration c m)).symm)
      g.members
    rw [Class.declareGroups, script_append, after_append, after_label, after_members rfl,
      script_append, after_label, Script.fault_append_eq_or, Script.fault_append label, members,
      ih, List.flatMap_cons, List.findSome?_append]

theorem fault_declare (cx : Context) (c : Class) : (cx.script c.declare).fault =
    c.declarationSites.findSome? fun s => (s.script cx).fault := by
  rw [Class.declarationSites, ← fault_declareGroups c none, Class.declare, List.cons_append,
    List.cons_append, List.cons_append, script_put, Script.fault_append rfl, script, script_put,
    Script.fault_append rfl, script_append, Script.fault_append_eq_or]
  exact Option.or_none

theorem script_defineMethods_entering (cx : Context) (c : Class) (m? : Option Method)
    (ms : List Method) :
    (cx.entering (cx.scope.enterMethod m?)).script (ms.flatMap c.defineMethod) =
      cx.script (ms.flatMap c.defineMethod) := by
  induction ms with
  | nil => rfl
  | cons m ms ih =>
    rw [List.flatMap_cons, Class.defineMethod]
    split
    · exact ih
    · rfl

theorem script_after_defineMethod (cx : Context) (c : Class) (m : Method) (ms : List Method) :
    (cx.after (c.defineMethod m)).script (ms.flatMap c.defineMethod) =
      cx.script (ms.flatMap c.defineMethod) := by
  rw [Class.defineMethod]
  split
  · rfl
  · exact script_defineMethods_entering cx c (some m) ms

theorem fault_define (cx : Context) (c : Class) : (cx.script c.define).fault =
    c.definitionSites.findSome? fun s => (s.script cx).fault := by
  have stay : (cx.entering (.enterClass (some c))).after c.defineConstructor =
      cx.entering (.enterClass (some c)) := by
    rw [Class.defineConstructor]
    split <;> rfl
  have methods := fault_flatMap (cx.entering (.enterClass (some c))) c.defineMethod
    (fun m ms => script_after_defineMethod _ c m ms)
    (fun m => (fault_site (.definition c m)).symm) c.methods
  rw [Class.define, List.cons_append, List.cons_append, script, script_append, script_append, stay,
    Script.fault_append_eq_or, Script.fault_append_eq_or, methods, Class.definitionSites,
    List.findSome?_append, fault_site]
  exact Option.or_none

theorem fault_program (cx : Context) (p : Program) (settings : Settings) (order : List Class)
    (resources : List Resource) :
    ((cx.script (p.interface settings order resources)).fault.or
      (cx.script (p.implementation settings resources)).fault) =
        (p.sites order).findSome? fun s => (s.script cx).fault := by
  have declared := fault_flatMap cx (·.declare)
    (fun c cs => (Steady.flatMap Steady.declare cs).script_after _ _) (fault_declare cx) order
  have defined := fault_flatMap cx (·.define)
    (fun c cs => (Steady.flatMap Steady.define cs).script_after _ _) (fault_define cx) p.classes
  rw [Program.sites, List.findSome?_append, ← declared, ← defined, script_interface,
    script_implementation, Script.fault_append_eq_or, Script.fault_append_eq_or,
    Script.fault_append_eq_or, Script.fault_append_eq_or]
  simp

end Context

def Diagnostic.location? : Diagnostic → Option String
  | unsupported _ location | unrepresentableLiteral _ location => some location
  | circularDependency _ => none

theorem EmitError.location?_refused (why : Refusal) (l : Location) :
    (EmitError.refused why l).diagnostic.location? = some l.text := by
  cases why <;> rfl

theorem generate_eq_error {dialect : Dialect} {settings : Settings} {p : Program} {e : EmitError}
    {order : List Class} {resources : List Resource} (horder : p.dependencyOrder = .ok order)
    (hresources : p.embeddable = .ok resources) (h : generate dialect settings p = .error e) :
    ((p.sites order).findSome? fun s => (s.script ⟨dialect, p, {}⟩).fault) = some e := by
  rw [← Context.fault_program ⟨dialect, p, {}⟩ p settings order resources, Option.or_eq_some_iff]
  rw [generate_settled dialect settings horder hresources] at h
  obtain first | ⟨_, complete, h⟩ := bind_eq_error.1 h
  · exact .inl (Script.text_eq_error.1 first)
  · obtain ⟨_, complete, -⟩ := Script.text_eq_ok.1 complete
    obtain second | ⟨_, -, h⟩ := bind_eq_error.1 h
    · exact .inr ⟨congrArg Script.fault complete, Script.text_eq_error.1 second⟩
    · cases h

/-- Behind the dependency order and the resources, a generation ends at the first site that is
refused, and the error says which class that is in and, in a method, which method. -/
theorem generate_error_located {dialect : Dialect} {settings : Settings} {p : Program}
    {e : EmitError} {order : List Class} {resources : List Resource}
    (named : ∀ c ∈ p.classes, c.name ≠ "") (horder : p.dependencyOrder = .ok order)
    (hresources : p.embeddable = .ok resources) (h : generate dialect settings p = .error e) :
    ∃ before site after, p.sites order = before ++ site :: after ∧
      (∀ s ∈ before, (s.script ⟨dialect, p, {}⟩).fault = none) ∧
      (site.script ⟨dialect, p, {}⟩).fault = some e ∧ site.IsOf p ∧
      ∃ why span, e = .refused why (site.location span) ∧
        e.diagnostic.location? = some (site.text span) ∧ site.text span ≠ "" := by
  obtain ⟨before, site, after, split, fault, complete⟩ :=
    List.findSome?_eq_some_iff.1 (generate_eq_error horder hresources h)
  have isOf : site.IsOf p := Program.sites_isOf (Program.dependencyOrder_subset horder) site
    (split ▸ List.mem_append_right _ List.mem_cons_self)
  obtain ⟨why, span, rfl⟩ := site.script_faultsOnly _ e fault
  refine ⟨before, site, after, split, complete, fault, isOf, why, span, rfl, ?_,
    site.text_ne_empty span⟩
  rw [EmitError.location?_refused, Site.text_location (named _ isOf.1)]

theorem generate_error_located_bodiless :
    let p : Program := { classes := [{ name := "A", methods := [{ name := "f" }] }] }
    ∃ e order resources, (∀ c ∈ p.classes, c.name ≠ "") ∧ p.dependencyOrder = .ok order ∧
      p.embeddable = .ok resources ∧ generate .cpp {} p = .error e ∧
      ∃ before site after, p.sites order = before ++ site :: after ∧
        (∀ s ∈ before, (s.script ⟨.cpp, p, {}⟩).fault = none) ∧
        (site.script ⟨.cpp, p, {}⟩).fault = some e ∧ site.IsOf p ∧
        ∃ why span, e = .refused why (site.location span) ∧
          e.diagnostic.location? = some (site.text span) ∧ site.text span ≠ "" := by
  intro p
  have named : ∀ c ∈ p.classes, c.name ≠ "" := by decide
  have order : p.dependencyOrder = .ok p.classes := Program.dependencyOrder_alone rfl rfl
  have resources : p.embeddable = .ok [] := Program.embeddable_nil rfl
  have h : generate .cpp {} p =
      .error (.refused .bodilessMethod (.code (some "A") (some "f") {})) := by
    rw [generate_alone .cpp {} rfl rfl rfl]
    rfl
  exact ⟨_, _, _, named, order, resources, h, generate_error_located named order resources h⟩

end CppEmission
