import CppEmission.Proofs.Acceptance.Stmt
import CppEmission.Proofs.Units.Page

namespace CppEmission

theorem Script.text_succeeds {s : Script} (h : s.fault = none) (writer : Writer) :
    Succeeds (s.text writer) := by
  rw [text, h]
  exact .ok _

theorem checkResources_eq_ok {claimed : List (String × String)} {rs : List Resource}
    (nonempty : ∀ r ∈ rs, r.bytes ≠ []) (distinct : (rs.map (·.identifier)).Nodup)
    (free : ∀ r ∈ rs, ∀ c ∈ claimed, r.identifier ≠ c.1) : checkResources claimed rs = .ok () := by
  induction rs generalizing claimed with
  | nil => rfl
  | cons r rs ih =>
    obtain ⟨hbytes, nonempty⟩ := List.forall_mem_cons.1 nonempty
    obtain ⟨hfree, free⟩ := List.forall_mem_cons.1 free
    obtain ⟨apart, distinct⟩ := List.nodup_cons.1 distinct
    have unclaimed : claimed.lookup r.identifier = none :=
      List.lookup_eq_none_iff.2 fun c hc => by simpa using hfree c hc
    rw [checkResources, if_neg (by simpa using hbytes), unclaimed]
    refine ih nonempty distinct fun s hs => List.forall_mem_cons.2 ⟨?_, free s hs⟩
    intro heq
    exact apart (List.mem_map.2 ⟨s, hs, heq⟩)

theorem Program.WellFormed.embeddable {p : Program} (h : p.WellFormed) :
    p.embeddable = .ok p.sortedResources := by
  have perm : p.sortedResources.Perm p.resources := List.mergeSort_perm _ _
  have check : checkResources [] p.sortedResources = .ok () := by
    apply checkResources_eq_ok
    · exact fun r hr => h.nonempty r (perm.mem_iff.1 hr)
    · exact (perm.map _).nodup_iff.2 h.identifiers
    · exact fun _ _ _ => nofun
  rw [Program.embeddable, check]
  rfl

def CompletesIff (p : Program) (condition : Prop) (as : List Action) : Prop :=
  ∀ scope, (Context.script ⟨.cpp, p, scope⟩ as).fault = none ↔ condition

namespace CompletesIff

variable {p : Program} {P Q : Prop} {as bs : List Action}

theorem nil : CompletesIff p True [] := fun _ => iff_true_intro rfl

theorem enterClass (c : Option Class) (h : CompletesIff p P as) :
    CompletesIff p P (.enterClass c :: as) :=
  fun _ => h _

theorem put {script : Script} (complete : script.fault = none) (h : CompletesIff p P as) :
    CompletesIff p P (.put script :: as) := by
  intro scope
  rw [Context.script_put, Script.complete_append_iff, h scope]
  exact and_iff_right complete

theorem enterMethod (m : Option Method) (h : CompletesIff p P as) :
    CompletesIff p P (.enterMethod m :: as) :=
  fun _ => h _

theorem congr (h : CompletesIff p P as) (hPQ : P ↔ Q) : CompletesIff p Q as :=
  fun scope => (h scope).trans hPQ

theorem write {text : Context → Except EmitError String}
    (succeeds : ∀ scope, Succeeds (text ⟨.cpp, p, scope⟩)) (h : CompletesIff p P as) :
    CompletesIff p P (.write (fun cx => .after (text cx) .line) :: as) := by
  intro scope
  rw [Context.script, Script.complete_append_iff, h scope]
  exact and_iff_right (Script.complete_after (succeeds scope) fun _ => rfl)

theorem script_after (h : CompletesIff p P bs) (scope : Scope) (as : List Action) :
    ((Context.after ⟨.cpp, p, scope⟩ as).script bs).fault = none ↔ P := by
  rw [Context.after_eq_entering]
  exact h _

theorem append (h : CompletesIff p P as) (h' : CompletesIff p Q bs) :
    CompletesIff p (P ∧ Q) (as ++ bs) := by
  intro scope
  rw [Context.script_append, Script.complete_append_iff, h scope, h'.script_after]

theorem flatMap {R : α → Prop} {f : α → List Action} {xs : List α}
    (h : ∀ x ∈ xs, CompletesIff p (R x) (f x)) :
    CompletesIff p (∀ x ∈ xs, R x) (xs.flatMap f) := by
  induction xs with
  | nil => exact fun _ => iff_of_true rfl nofun
  | cons x xs ih =>
    obtain ⟨hx, hxs⟩ := List.forall_mem_cons.1 h
    rw [List.forall_mem_cons]
    exact hx.append (ih hxs)

end CompletesIff

namespace Context

variable {cx : Context} (hcx : cx.dialect = .cpp)

include hcx

theorem fieldLine_succeeds {f : Field} (h : f.WellFormed cx.program) :
    Succeeds (cx.fieldLine f) :=
  (declared_succeeds hcx f.name h.ty (by simpa using h.fits)
    (operand?_succeeds hcx f.value h.value)).bind fun _ => .ok _

theorem paramTextWithDefault_succeeds {x : Param} (h : x.WellFormed cx.program) :
    Succeeds (cx.paramTextWithDefault x) := by
  obtain ⟨ty, default, fits⟩ := h
  refine .bind ((typeName_succeeds ty).bind fun _ => .ok _) fun _ => ?_
  cases hd : x.default with
  | none => exact .ok _
  | some e =>
    rw [hd] at default
    exact (coerce_succeeds hcx default (fits e hd) _).bind fun _ => .ok _

omit hcx

theorem returnName_succeeds {m : Method} (h : ∀ t ∈ m.returnTy, t.IsNullFree) :
    Succeeds (cx.returnName m) := by
  rw [returnName]
  split
  next t ht => exact typeName_succeeds (h t ht)
  · exact .ok _

theorem methodHeader_succeeds (className : String) {m : Method} (h : m.WellFormed cx.program) :
    Succeeds (cx.methodHeader className m) := by
  have params : Succeeds (m.params.mapM cx.paramText) :=
    .mapM fun x hx => (typeName_succeeds (h.params x hx).ty).bind fun _ => .ok _
  exact (returnName_succeeds h.returns).bind fun _ => params.bind fun _ => .ok _

include hcx

theorem methodLine_succeeds {m : Method} (h : m.WellFormed cx.program) :
    Succeeds (cx.methodLine m) := by
  have params : Succeeds (m.params.mapM cx.paramTextWithDefault) :=
    .mapM fun x hx => paramTextWithDefault_succeeds hcx (h.params x hx)
  exact (returnName_succeeds h.returns).bind fun _ => params.bind fun _ => .ok _

end Context

namespace Class

variable {p : Program} {c : Class}

theorem declareMember_completes (h : c.WellFormed p) {m : Member} (hm : m ∈ c.members) :
    CompletesIff p True (m.declare c) := by
  cases m with
  | constructor | destructor => exact .put rfl .nil
  | constant i d =>
    have hd : d ∈ c.constants := List.fst_mem_of_mem_zipIdx (by simpa [members] using hm)
    exact .write (fun _ => Context.constantLine_succeeds rfl .member (h.constants d hd)) .nil
  | field i f =>
    have hf : f ∈ c.fields := List.fst_mem_of_mem_zipIdx (by simpa [members] using hm)
    exact .write (fun _ => Context.fieldLine_succeeds rfl (h.fields f hf)) .nil
  | method i m =>
    have hm : m ∈ c.methods := List.fst_mem_of_mem_zipIdx (by simpa [members] using hm)
    exact .enterMethod _ (.write (fun _ => Context.methodLine_succeeds rfl (h.methods m hm))
      (.enterMethod _ .nil))

theorem declareGroups_completes {gs : List VisibilityGroup}
    (h : ∀ m ∈ gs.flatMap (·.members), CompletesIff p True (m.declare c)) (access : Option String) :
    CompletesIff p True (c.declareGroups access gs) := by
  induction gs generalizing access with
  | nil => exact .nil
  | cons g gs ih =>
    rw [List.flatMap_cons, List.forall_mem_append] at h
    have label : CompletesIff p True
        (if access = some g.visibility.access then [] else
          [.put (accessLabel g.visibility.access)]) := by
      split
      · exact .nil
      · exact .put rfl .nil
    rw [declareGroups]
    exact ((label.append (.flatMap h.1)).append (ih h.2 _)).congr (by simp)

theorem declare_completes (h : c.WellFormed p) : CompletesIff p True c.declare := by
  have groups := declareGroups_completes (fun m hm =>
    declareMember_completes h (c.groups_perm.mem_iff.1 hm)) none
  exact .put rfl (.enterClass _ (.put rfl ((groups.append (.put rfl (.enterClass _ .nil))).congr
    (by simp))))

theorem defineConstructor_complete_iff {cx : Context} (hcx : cx.dialect = .cpp)
    (h : ∀ body ∈ c.constructor, Stmt.allWellFormed cx.program none body)
    (hreturns : cx.scope.returnTy? = none) :
    (cx.script c.defineConstructor).fault = none ↔ (c.isStatic → c.constructor = none) := by
  rw [defineConstructor]
  cases hc : c.constructor with
  | none => exact iff_of_true rfl fun _ => rfl
  | some body =>
    have complete : (cx.emitAll body).fault = none := by
      apply Context.emitAll_complete hcx
      rw [hreturns]
      exact h body hc
    simp only [Context.script, Script.append_nil]
    split
    next static => simp [Script.fail, static]
    next dynamic =>
      refine iff_of_true ?_ fun static => absurd static dynamic
      exact Script.complete_append rfl (Script.complete_block _ complete)

theorem defineMethod_completes {m : Method} (h : m.WellFormed p) :
    CompletesIff p (m.isAbstract = false → m.body.isSome) (c.defineMethod m) := by
  intro scope
  rw [defineMethod]
  split
  next abstract => exact iff_of_true rfl fun concrete => by simp [abstract] at concrete
  next concrete =>
    simp only [Context.script, Script.append_nil]
    cases hb : m.body with
    | none => simp [Script.fail, concrete]
    | some body =>
      refine iff_of_true ?_ fun _ => rfl
      exact Script.complete_after (Context.methodHeader_succeeds _ h) fun _ =>
        Script.complete_append rfl (Script.complete_block _
          (Context.emit_complete rfl true body (h.body body hb)))

theorem define_completes (h : c.WellFormed p) : CompletesIff p c.HasBodies c.define := by
  intro scope
  have methods : CompletesIff p (∀ m ∈ c.methods, m.isAbstract = false → m.body.isSome)
      (c.methods.flatMap c.defineMethod ++ [.enterClass none]) :=
    ((CompletesIff.flatMap fun m hm => defineMethod_completes (h.methods m hm)).append
      (.enterClass _ .nil)).congr (by simp)
  -- to enter the class leaves the method before, so that the constructor returns nothing
  change (Context.script ⟨.cpp, p, .enterClass (some c)⟩
    (c.defineConstructor ++ c.methods.flatMap c.defineMethod ++ _)).fault = none ↔ _
  rw [List.append_assoc, Context.script_append, Script.complete_append_iff, methods.script_after,
    defineConstructor_complete_iff rfl h.constructor rfl, and_comm]
  exact ⟨fun ⟨methods, constructor⟩ => ⟨methods, constructor⟩, fun h => ⟨h.1, h.2⟩⟩

end Class

namespace Program

variable {p : Program}

theorem dependencyOrder_succeeds (acyclic : ∀ c, ¬ p.Circular c) : Succeeds p.dependencyOrder := by
  cases h : p.dependencyOrder with
  | ok order => exact .ok order
  | error e =>
    obtain ⟨c, -, -, circular⟩ := dependencyOrder_error h
    exact absurd circular (acyclic c)

theorem WellFormed.interface_completes (h : p.WellFormed) (settings : Settings)
    {order : List Class} (perm : order.Perm p.classes) (resources : List Resource) :
    CompletesIff p True (p.interface settings order resources) := by
  intro scope
  have classes : CompletesIff p True (order.flatMap (·.declare)) :=
    (CompletesIff.flatMap fun c hc =>
      Class.declare_completes (h.classes c (perm.mem_iff.1 hc))).congr (by simp)
  rw [Context.script_interface, Script.complete_append_iff, Script.complete_append_iff,
    classes scope]
  simp

theorem WellFormed.implementation_completes (h : p.WellFormed) (settings : Settings)
    (resources : List Resource) :
    CompletesIff p (∀ c ∈ p.classes, c.HasBodies) (p.implementation settings resources) := by
  intro scope
  have classes : CompletesIff p (∀ c ∈ p.classes, c.HasBodies) (p.classes.flatMap (·.define)) :=
    .flatMap fun c hc => Class.define_completes (h.classes c hc)
  rw [Context.script_implementation, Script.complete_append_iff, Script.complete_append_iff,
    classes scope]
  simp

theorem WellFormed.hasBodies (h : p.WellFormed) {settings : Settings} {units : Units}
    (hunits : generate .cpp settings p = .ok units) : ∀ c ∈ p.classes, c.HasBodies := by
  obtain ⟨_, resources, _, _, -, -, -, himplementation, -⟩ := generate_eq_ok hunits
  rw [← h.implementation_completes settings resources {}, himplementation]

theorem acyclic_of_independent (h : ∀ c ∈ p.classes, c.dependencies = []) (c : Class) :
    ¬ p.Circular c := by
  have independent {c d : Class} (hneeds : p.Needs c d) : False := by
    obtain ⟨hc, -, hd⟩ := needs_iff.1 hneeds
    rw [h c hc] at hd
    exact List.not_mem_nil hd
  intro circular
  cases circular with
  | single hneeds | tail _ hneeds => exact independent hneeds

end Program

theorem generate_succeeds {dialect : Dialect} {settings : Settings} {p : Program}
    {order : List Class} {resources : List Resource} (horder : p.dependencyOrder = .ok order)
    (hresources : p.embeddable = .ok resources)
    (hinterface : (Context.script ⟨dialect, p, {}⟩
      (p.interface settings order resources)).fault = none)
    (himplementation : (Context.script ⟨dialect, p, {}⟩
      (p.implementation settings resources)).fault = none) :
    Succeeds (generate dialect settings p) := by
  rw [generate_eq_answer, Generator.answer]
  refine .bind_of_ok horder (.bind_of_ok hresources ?_)
  exact (Script.text_succeeds hinterface _).bind fun _ =>
    (Script.text_succeeds himplementation _).bind fun _ => .ok _

/-- Where every part of a program has a form in the target, there are units of it exactly if all
methods but abstract ones have bodies and no static class has a constructor. -/
theorem generate_succeeds_iff_hasBodies (settings : Settings) {p : Program}
    (hp : p.classNames.Nodup) (h : p.WellFormed) :
    (∃ units, generate .cpp settings p = .ok units) ↔ ∀ c ∈ p.classes, c.HasBodies := by
  constructor
  · rintro ⟨units, hunits⟩
    exact h.hasBodies hunits
  · intro bodies
    obtain ⟨order, horder⟩ := Program.dependencyOrder_succeeds h.acyclic
    have perm := p.dependencyOrder_perm hp horder
    exact generate_succeeds horder h.embeddable
      ((h.interface_completes settings perm p.sortedResources {}).2 trivial)
      ((h.implementation_completes settings p.sortedResources {}).2 bodies)

theorem generate_succeeds_iff_hasBodies_sum :
    let one : Expr := .literal ⟨.int .i32, {}⟩ (.int 1)
    let p : Program := {
      classes := [{
        name := "A"
        constructor := some []
        fields := [{ name := "n", ty := .int .i32, value := some one }]
        methods := [{
          name := "f"
          returnTy := some (.int .i32)
          params := [{ name := "x", ty := .int .i32 }]
          body := some (.ret (some (.binary ⟨.int .i32, {}⟩ .add
            (.symbol ⟨.int .i32, {}⟩ none ⟨"x", .parameter⟩) one))) }] }]
      resources := [⟨"logo", [0]⟩] }
    p.classNames.Nodup ∧ p.WellFormed ∧ ∃ units, generate .cpp {} p = .ok units := by
  intro one p
  have distinct : p.classNames.Nodup := by decide
  have acyclic := p.acyclic_of_independent (by simp [p, Class.dependencies, Ty.embedded?])
  have field : ∀ f ∈ p.classes.flatMap (·.fields), f.WellFormed p :=
    List.forall_mem_singleton.2 ⟨trivial, trivial, by simpa using ⟨_, convert_self one⟩⟩
  have method : ∀ m ∈ p.classes.flatMap (·.methods), m.WellFormed p :=
    List.forall_mem_singleton.2 ⟨by simp [Ty.IsNullFree],
      List.forall_mem_singleton.2 ⟨trivial, trivial, by simp⟩, by
        rintro _ ⟨⟩
        exact ⟨⟨trivial, trivial, by simp⟩, by simpa using ⟨_, convert_self _⟩⟩⟩
  have wellFormed : p.WellFormed := by
    refine ⟨acyclic, by simp [p], by simp [p], List.forall_mem_singleton.2 ?_⟩
    exact ⟨by simp, field, method, by simp [Stmt.allWellFormed]⟩
  refine ⟨distinct, wellFormed, (generate_succeeds_iff_hasBodies {} distinct wellFormed).2 ?_⟩
  exact List.forall_mem_singleton.2 ⟨by simp, by simp [Class.isStatic]⟩

/-- A method that is to be defined is refused without a body, and so is the constructor of a class
without instances. -/
theorem generate_fails_without_bodies :
    let p : Program := { classes := [{ name := "A", methods := [{ name := "f" }] }] }
    let q : Program := { classes := [{ name := "A", kind := .static, constructor := some [] }] }
    (p.classNames.Nodup ∧ p.WellFormed ∧ ∀ settings units, generate .cpp settings p ≠ .ok units) ∧
      q.classNames.Nodup ∧ q.WellFormed ∧
        ∀ settings units, generate .cpp settings q ≠ .ok units := by
  intro p q
  have independent (c : Class) (h : c.dependencies = []) :=
    (Program.mk [c] [] [] []).acyclic_of_independent (List.forall_mem_singleton.2 h)
  have bodiless : p.WellFormed := ⟨independent _ rfl, nofun, .nil,
    List.forall_mem_singleton.2 ⟨nofun, nofun, List.forall_mem_singleton.2 ⟨nofun, nofun, nofun⟩,
      nofun⟩⟩
  have static : q.WellFormed := ⟨independent _ rfl, nofun, .nil,
    List.forall_mem_singleton.2 ⟨nofun, nofun, nofun, by simp [Stmt.allWellFormed]⟩⟩
  refine ⟨⟨by decide, bodiless, fun settings units h => ?_⟩, by decide, static,
    fun settings units h => ?_⟩
  · have method := (List.forall_mem_singleton.1 (bodiless.hasBodies h)).methods
    exact absurd (method _ List.mem_cons_self rfl) nofun
  · have constructor := (List.forall_mem_singleton.1 (static.hasBodies h)).constructor
    exact absurd (constructor rfl) nofun

end CppEmission
