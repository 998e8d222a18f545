import CppEmission.Proofs.Units.Page
import CppEmission.Proofs.Units.Reference
import Mathlib.Data.String.Basic

namespace CppEmission

def Action.IsBlind : Action → Prop
  | .enterClass _ | .enterMethod _ => True
  | .write text => ∀ (cx : Context) (p : Program), cx.SharesNames p →
    text (cx.inProgram p) = text cx

def Blind (as : List Action) : Prop := ∀ a ∈ as, a.IsBlind

namespace Blind

theorem nil : Blind [] := nofun

theorem enterClass {as : List Action} (c : Option Class) (h : Blind as) :
    Blind (.enterClass c :: as) :=
  List.forall_mem_cons.2 ⟨trivial, h⟩

theorem enterMethod {as : List Action} (m : Option Method) (h : Blind as) :
    Blind (.enterMethod m :: as) :=
  List.forall_mem_cons.2 ⟨trivial, h⟩

theorem write {as : List Action} {text : Context → Script}
    (blind : ∀ (cx : Context) (p : Program), cx.SharesNames p →
      text (cx.inProgram p) = text cx) (h : Blind as) : Blind (.write text :: as) :=
  List.forall_mem_cons.2 ⟨blind, h⟩

theorem put {as : List Action} (script : Script) (h : Blind as) : Blind (.put script :: as) :=
  write (fun _ _ _ => rfl) h

theorem line {as : List Action} {text : Context → Except EmitError String}
    (blind : ∀ (cx : Context) (p : Program), cx.SharesNames p →
      text (cx.inProgram p) = text cx) (h : Blind as) :
    Blind (.write (fun cx => .after (text cx) .line) :: as) :=
  write (fun cx p shares => congrArg (Script.after · Script.line) (blind cx p shares)) h

theorem append {as bs : List Action} (h : Blind as) (h' : Blind bs) : Blind (as ++ bs) :=
  List.forall_mem_append.2 ⟨h, h'⟩

theorem flatMap {f : α → List Action} (h : ∀ x, Blind (f x)) (xs : List α) :
    Blind (xs.flatMap f) := by
  intro a ha
  obtain ⟨x, -, ha⟩ := List.mem_flatMap.1 ha
  exact h x a ha

theorem puts (f : α → Script) (xs : List α) : Blind (xs.map fun x => .put (f x)) := by
  intro a ha
  obtain ⟨x, -, rfl⟩ := List.mem_map.1 ha
  exact fun _ _ _ => rfl

theorem enclose {body : List Action} (settings : Settings) (h : Blind body) :
    Blind (settings.enclose body) := by
  rw [Settings.enclose]
  split
  · exact h
  · exact (put _ h).append (put _ nil)

theorem script_inProgram {as : List Action} (h : Blind as) {cx : Context} {p : Program}
    (shares : cx.SharesNames p) : (cx.inProgram p).script as = cx.script as := by
  induction as generalizing cx with
  | nil => rfl
  | cons a as ih =>
    obtain ⟨ha, has⟩ := List.forall_mem_cons.1 h
    cases a with
    | enterClass c =>
      have shares : (cx.entering (.enterClass c)).SharesNames p := shares
      exact ih has shares
    | enterMethod m =>
      have shares : (cx.entering (cx.scope.enterMethod m)).SharesNames p := shares
      exact ih has shares
    | write text => rw [Context.script, Context.script, ha cx p shares, ih has shares]

theorem declareMember (c : Class) (m : Member) : Blind (m.declare c) := by
  cases m with
  | constructor | destructor => exact put _ nil
  | constant _ d => exact line (fun _ _ h => Context.constantLine_inProgram h .member d) nil
  | field _ f => exact line (fun _ _ h => Context.fieldLine_inProgram h f) nil
  | method _ m =>
    exact enterMethod _ (line (fun _ _ h => Context.methodLine_inProgram h m) (enterMethod _ nil))

theorem declareGroups (c : Class) (access : Option String) (gs : List VisibilityGroup) :
    Blind (c.declareGroups access gs) := by
  induction gs generalizing access with
  | nil => exact nil
  | cons g gs ih =>
    have label : Blind (if access = some g.visibility.access then [] else
        [.put (accessLabel g.visibility.access)]) := by
      split
      · exact nil
      · exact put _ nil
    exact (label.append (flatMap (declareMember c) g.members)).append (ih _)

theorem declare (c : Class) : Blind c.declare :=
  put _ (enterClass _ (put _ ((declareGroups c none c.groups).append (put _ (enterClass _ nil)))))

theorem defineConstructor (c : Class) : Blind c.defineConstructor := by
  rw [Class.defineConstructor]
  split
  · exact nil
  next body _ =>
    refine write (fun cx p h => ?_) nil
    simp only [Context.emitAll_inProgram h]
    rfl

theorem defineMethod (c : Class) (m : Method) : Blind (c.defineMethod m) := by
  rw [Class.defineMethod]
  split
  · exact nil
  · refine enterMethod _ (write (fun cx p h => ?_) nil)
    simp only [Context.emit_inProgram h]
    rfl

theorem define (c : Class) : Blind c.define :=
  enterClass _ (((defineConstructor c).append (flatMap (defineMethod c) c.methods)).append
    (enterClass _ nil))

theorem interface (p : Program) (settings : Settings) (order : List Class)
    (resources : List Resource) : Blind (p.interface settings order resources) := by
  have forward : Blind p.forwardDeclarations := by
    rw [Program.forwardDeclarations]
    split
    · exact nil
    · exact put _ nil
  have listed : Blind (Program.declareResources resources) := by
    rw [Program.declareResources]
    split
    · exact nil
    · exact put _ nil
  exact put _ ((puts _ p.natives).append (enclose settings
    (((forward.append (puts _ p.enums)).append (flatMap declare order)).append listed)))

theorem implementation (p : Program) (settings : Settings) (resources : List Resource) :
    Blind (p.implementation settings resources) :=
  put _ (enclose settings ((flatMap define p.classes).append (puts _ resources)))

end Blind

namespace Program

variable {p : Program} {rs : List Resource}

theorem hasResource_perm (h : rs.Perm p.resources) (name : String) :
    Program.hasResource { p with resources := rs } name = p.hasResource name :=
  h.any_eq

theorem facilities_perm (h : rs.Perm p.resources) :
    Program.facilities { p with resources := rs } = p.facilities := by
  simp only [facilities, h.isEmpty_eq]

theorem place_resources (rs : List Resource) (path : List String) (done : List Class)
    (names : List String) :
    Program.place { p with resources := rs } path done names = p.place path done names := by
  fun_induction p.place path done names with
  | case1 path done => exact place_nil
  | case2 path done name rest hc ih =>
    exact (place_unknown (p := { p with resources := rs }) hc).trans ih
  | case3 path done name rest c hc hdone ih =>
    exact (place_done (p := { p with resources := rs }) hc hdone).trans ih
  | case4 path done name rest c hc hdone hpath => exact place_circle hc hdone hpath
  | case5 path done name rest c hc hdone hpath e he ih =>
    rw [place_enter (p := { p with resources := rs }) hc hdone hpath, ih, he]
    rfl
  | case6 path done name rest c hc hdone hpath placed hplaced ih ih' =>
    rw [place_enter (p := { p with resources := rs }) hc hdone hpath, ih, hplaced]
    exact ih'

theorem dependencyOrder_resources (rs : List Resource) :
    Program.dependencyOrder { p with resources := rs } = p.dependencyOrder :=
  place_resources rs [] [] p.classNames

theorem sortedResources_perm (p : Program) : p.sortedResources.Perm p.resources :=
  List.mergeSort_perm _ _

theorem sortedResources_sorted (distinct : (p.resources.map (·.name)).Nodup) :
    p.sortedResources.Pairwise (·.name < ·.name) := by
  have ordered : p.sortedResources.Pairwise fun r s => (r.name ≤ s.name : Bool) :=
    List.pairwise_mergeSort
      (fun r s t h h' => by simpa using le_trans (of_decide_eq_true h) (of_decide_eq_true h'))
      (fun r s => by simpa using le_total r.name s.name) _
  have apart : p.sortedResources.Pairwise (·.name ≠ ·.name) :=
    List.pairwise_map.1 ((p.sortedResources_perm.map _).nodup_iff.2 distinct)
  exact ordered.imp₂ (fun _ _ h ne => lt_of_le_of_ne (by simpa using h) ne) apart

theorem eq_sortedResources (sorted : rs.Pairwise (·.name < ·.name)) (perm : rs.Perm p.resources)
    (distinct : (p.resources.map (·.name)).Nodup) : rs = p.sortedResources :=
  (perm.trans p.sortedResources_perm.symm).eq_of_pairwise
    (fun _ _ _ _ h h' => absurd h' (lt_asymm h)) sorted (sortedResources_sorted distinct)

theorem sortedResources_eq_of_perm (perm : rs.Perm p.resources)
    (distinct : (p.resources.map (·.name)).Nodup) :
    Program.sortedResources { p with resources := rs } = p.sortedResources :=
  have distinct' : (rs.map (·.name)).Nodup := (perm.map _).nodup_iff.2 distinct
  eq_sortedResources (sortedResources_sorted (p := { p with resources := rs }) distinct')
    ((sortedResources_perm _).trans perm) distinct

end Program

structure Embeddable (rs : List Resource) : Prop where
  nonempty : ∀ r ∈ rs, r.bytes ≠ []
  distinct : (rs.map (·.identifier)).Nodup

/-- `r` is the first resource of the list that cannot be embedded behind those before it: it is
empty, or it shares its identifier with one of them. -/
inductive Rejects : List Resource → Resource → Refusal → Prop
  | empty : Embeddable before → r.bytes = [] →
      Rejects (before ++ r :: after) r (.emptyResource r.name)
  | shared : Embeddable before → r.bytes ≠ [] → q ∈ before → q.identifier = r.identifier →
      Rejects (before ++ r :: after) r (.sharedIdentifier q.name r.name r.identifier)

namespace Embeddable

theorem nil : Embeddable [] := ⟨nofun, .nil⟩

theorem perm {rs ss : List Resource} (h : Embeddable rs) (perm : rs.Perm ss) : Embeddable ss :=
  ⟨fun r hr => h.nonempty r (perm.mem_iff.2 hr), (perm.map _).nodup_iff.1 h.distinct⟩

theorem snoc {rs : List Resource} {r : Resource} (h : Embeddable rs) (nonempty : r.bytes ≠ [])
    (free : ∀ q ∈ rs, q.identifier ≠ r.identifier) : Embeddable (rs ++ [r]) := by
  constructor
  · exact List.forall_mem_append.2 ⟨h.nonempty, List.forall_mem_singleton.2 nonempty⟩
  · rw [List.map_append, List.nodup_append]
    refine ⟨h.distinct, List.nodup_singleton _, ?_⟩
    simpa using free

end Embeddable

theorem Rejects.not_embeddable {rs : List Resource} {r : Resource} {why : Refusal}
    (h : Rejects rs r why) : ¬ Embeddable rs := by
  intro all
  cases h with
  | empty _ empty => exact all.nonempty r (by simp) empty
  | shared _ _ hq same =>
    have apart := (List.nodup_append.1 (List.map_append ▸ all.distinct)).2.2
    exact apart _ (List.mem_map_of_mem hq) _ (by simp) same

def claims (rs : List Resource) : List (String × String) :=
  (rs.map fun r => (r.identifier, r.name)).reverse

theorem claims_snoc (rs : List Resource) (r : Resource) :
    claims (rs ++ [r]) = (r.identifier, r.name) :: claims rs := by
  simp [claims]

theorem mem_claims_of_lookup {rs : List Resource} {identifier name : String}
    (h : (claims rs).lookup identifier = some name) :
    ∃ q ∈ rs, q.identifier = identifier ∧ q.name = name := by
  obtain ⟨front, back, split, -⟩ := List.lookup_eq_some_iff.1 h
  have mem : (identifier, name) ∈ claims rs := by simp [split]
  simpa [claims] using mem

theorem free_of_lookup {rs : List Resource} {identifier : String}
    (h : (claims rs).lookup identifier = none) : ∀ q ∈ rs, q.identifier ≠ identifier := by
  intro q hq same
  have free := List.lookup_eq_none_iff.1 h (q.identifier, q.name)
    (List.mem_reverse.2 (List.mem_map_of_mem hq))
  simp [same] at free

-- along the list, with what has been passed embeddable and its identifiers claimed
theorem checkResources_settles {before rest : List Resource} (h : Embeddable before) :
    (checkResources (claims before) rest = .ok () ∧ Embeddable (before ++ rest)) ∨
      ∃ r why, checkResources (claims before) rest = .error (.refused why (.resource r.name)) ∧
        Rejects (before ++ rest) r why := by
  induction rest generalizing before with
  | nil => exact .inl ⟨rfl, by rwa [List.append_nil]⟩
  | cons r rest ih =>
    by_cases empty : r.bytes = []
    · refine .inr ⟨r, _, ?_, .empty h empty⟩
      rw [checkResources, if_pos (by simpa using empty)]
    rw [checkResources, if_neg (by simpa using empty)]
    cases taken : (claims before).lookup r.identifier with
    | some previous =>
      obtain ⟨q, hq, same, rfl⟩ := mem_claims_of_lookup taken
      exact .inr ⟨r, _, rfl, .shared h empty hq same⟩
    | none =>
      have longer := ih (h.snoc empty (free_of_lookup taken))
      rwa [claims_snoc, List.append_assoc] at longer

namespace Program

theorem embeddable_settles (p : Program) :
    (p.embeddable = .ok p.sortedResources ∧ Embeddable p.sortedResources) ∨
      ∃ r why, p.embeddable = .error (.refused why (.resource r.name)) ∧
        Rejects p.sortedResources r why := by
  have settles : (checkResources [] p.sortedResources = .ok () ∧ _) ∨ _ :=
    checkResources_settles Embeddable.nil
  rw [Program.embeddable]
  rcases settles with ⟨check, all⟩ | ⟨r, why, check, rejects⟩
  · exact .inl ⟨congrArg (· >>= fun _ => _) check, all⟩
  · exact .inr ⟨r, why, congrArg (· >>= fun _ => _) check, rejects⟩

theorem perm_of_embeddable {p : Program} {rs : List Resource} (h : p.embeddable = .ok rs) :
    rs.Perm p.resources := by
  obtain ⟨_, -, sorted⟩ := bind_eq_ok.1 h
  cases sorted
  exact p.sortedResources_perm

theorem embeddable_subset {p : Program} {rs : List Resource} (h : p.embeddable = .ok rs) :
    rs ⊆ p.resources :=
  (perm_of_embeddable h).subset

theorem resources_embeddable {p : Program} {rs : List Resource} (h : p.embeddable = .ok rs) :
    Embeddable p.resources := by
  rcases p.embeddable_settles with ⟨-, all⟩ | ⟨r, why, settled, -⟩
  · exact all.perm p.sortedResources_perm
  · cases settled.symm.trans h

theorem embeddable_eq_ok_iff {p : Program} {rs : List Resource}
    (distinct : (p.resources.map (·.name)).Nodup) : p.embeddable = .ok rs ↔
      Embeddable p.resources ∧ rs.Perm p.resources ∧ rs.Pairwise (·.name < ·.name) := by
  have perm := p.sortedResources_perm
  rcases p.embeddable_settles with ⟨settled, all⟩ | ⟨r, why, settled, rejects⟩
  · rw [settled]
    constructor
    · rintro ⟨⟩
      exact ⟨all.perm perm, perm, sortedResources_sorted distinct⟩
    · rintro ⟨-, hperm, sorted⟩
      rw [eq_sortedResources sorted hperm distinct]
  · rw [settled]
    exact iff_of_false nofun fun ⟨all, _⟩ => rejects.not_embeddable (all.perm perm.symm)

theorem embeddable_perm {p : Program} {rs : List Resource} (perm : rs.Perm p.resources)
    (distinct : (p.resources.map (·.name)).Nodup) :
    Program.embeddable { p with resources := rs } = p.embeddable := by
  rw [embeddable, embeddable, sortedResources_eq_of_perm perm distinct]

theorem interface_perm {p : Program} {rs : List Resource} (perm : rs.Perm p.resources)
    (settings : Settings) (order : List Class) (resources : List Resource) :
    Program.interface { p with resources := rs } settings order resources =
      p.interface settings order resources := by
  rw [interface, interface, facilities_perm perm]
  rfl

end Program

theorem generate_perm (dialect : Dialect) (settings : Settings) {p : Program} {rs : List Resource}
    (distinct : (p.resources.map (·.name)).Nodup) (perm : rs.Perm p.resources) :
    generate dialect settings { p with resources := rs } = generate dialect settings p := by
  have shares : Context.SharesNames ⟨dialect, p, {}⟩ { p with resources := rs } :=
    Program.hasResource_perm perm
  have interface (order : List Class) (resources : List Resource) :=
    (Blind.interface p settings order resources).script_inProgram shares
  have implementation (resources : List Resource) :=
    (Blind.implementation p settings resources).script_inProgram shares
  simp only [generate_eq_answer, Generator.answer, Program.dependencyOrder_resources,
    Program.embeddable_perm perm distinct, Program.interface_perm perm, ← interface,
    ← implementation]
  rfl

namespace Resource

def declaration (r : Resource) : Writer.Op :=
  .line ("extern const uint8_t " ++ r.identifier ++ "[" ++ Nat.repr r.bytes.length ++ "];")

def definition (r : Resource) : List Writer.Op :=
  .blankLine ::
    .openBlock ("const uint8_t " ++ r.identifier ++ "[" ++ Nat.repr r.bytes.length ++ "] =") ::
    (byteLines r.bytes).map .line ++ [.closeBlockWith "\x7d;"]

theorem concat_declarations (rs : List Resource) :
    (Script.concat (rs.map fun r => .resourceDeclaration r.identifier r.bytes.length)) =
      ⟨rs.map (·.declaration), none⟩ := by
  induction rs with
  | nil => rfl
  | cons r rs ih =>
    rw [List.map_cons, Script.concat, ih]
    rfl

end Resource

/-- Both units of a program end with these resources: a declaration of each in the one, and its
definition under the same identifier and with the same length in the other. -/
structure Units.Embed (units : Units) (dialect : Dialect) (settings : Settings) (p : Program)
    (rs : List Resource) : Prop where
  interface : ∃ order classes, p.dependencyOrder = .ok order ∧
    Context.script ⟨dialect, p, {}⟩ (order.flatMap (·.declare)) = ⟨classes, none⟩ ∧
    units.interface = settings.page (p.interfaceFront settings ++ classes ++
      ((if rs.isEmpty then [] else .blankLine :: rs.map (·.declaration)) ++ settings.closing))
  implementation : ∃ functions,
    Context.script ⟨dialect, p, {}⟩ (p.classes.flatMap (·.define)) = ⟨functions, none⟩ ∧
    units.implementation = settings.page (Program.implementationFront settings ++ functions ++
      (rs.flatMap (·.definition) ++ settings.closing))

theorem Units.embed_of_generate {dialect : Dialect} {settings : Settings} {p : Program}
    {units : Units} (h : generate dialect settings p = .ok units) :
    ∃ rs, p.embeddable = .ok rs ∧ units.Embed dialect settings p rs := by
  obtain ⟨order, rs, _, _, horder, hrs, hinterface, himplementation, rfl⟩ := generate_eq_ok h
  rw [Context.script_interface] at hinterface
  rw [Context.script_implementation] at himplementation
  obtain ⟨_, _, declared, hback, rfl⟩ := Script.append_eq_complete.1 hinterface
  obtain ⟨_, classes, hfront, hclasses, rfl⟩ := Script.append_eq_complete.1 declared
  obtain ⟨_, _, defined, hback', rfl⟩ := Script.append_eq_complete.1 himplementation
  obtain ⟨_, functions, hfront', hfunctions, rfl⟩ := Script.append_eq_complete.1 defined
  cases hfront
  cases hback
  cases hfront'
  cases hback'
  refine ⟨rs, hrs, ⟨order, classes, horder, hclasses, ?_⟩, functions, hfunctions, rfl⟩
  rw [Program.interfaceBack, Resource.concat_declarations]
  rfl

theorem generate_of_embeddable {p : Program} (classes : p.classes = [])
    (h : Embeddable p.resources) (dialect : Dialect) (settings : Settings) :
    ∃ units, generate dialect settings p = .ok units := by
  have order : p.dependencyOrder = .ok [] := by
    rw [Program.dependencyOrder, Program.classNames, classes]
    exact Program.place_nil
  rcases p.embeddable_settles with ⟨settled, -⟩ | ⟨r, why, -, rejects⟩
  · rw [generate_settled dialect settings order settled]
    dsimp only
    rw [Context.script_interface, Context.script_implementation, classes]
    exact ⟨_, rfl⟩
  · exact absurd (h.perm p.sortedResources_perm.symm) rejects.not_embeddable

/-- The order in which resources were added makes no difference to the units or to the error. Both
units list them by name. What cannot be embedded is refused at the first name that is to blame. -/
theorem generate_resources_any_order (dialect : Dialect) (settings : Settings) {p : Program}
    (distinct : (p.resources.map (·.name)).Nodup) :
    (∀ rs, rs.Perm p.resources →
      generate dialect settings { p with resources := rs } = generate dialect settings p) ∧
    (∀ units, generate dialect settings p = .ok units → ∃ rs, rs.Perm p.resources ∧
      rs.Pairwise (·.name < ·.name) ∧ units.Embed dialect settings p rs) ∧
    (∀ rs, p.embeddable = .ok rs ↔
      Embeddable p.resources ∧ rs.Perm p.resources ∧ rs.Pairwise (·.name < ·.name)) ∧
    ∀ order, p.dependencyOrder = .ok order → ¬ Embeddable p.resources →
      ∃ rs r why, rs.Perm p.resources ∧ rs.Pairwise (·.name < ·.name) ∧ Rejects rs r why ∧
        generate dialect settings p = .error (.refused why (.resource r.name)) := by
  have accepted {rs : List Resource} : p.embeddable = .ok rs ↔ _ :=
    Program.embeddable_eq_ok_iff distinct
  refine ⟨fun rs perm => generate_perm dialect settings distinct perm, ?_, fun rs => accepted, ?_⟩
  · intro units h
    obtain ⟨rs, hrs, embed⟩ := Units.embed_of_generate h
    obtain ⟨-, perm, sorted⟩ := accepted.1 hrs
    exact ⟨rs, perm, sorted, embed⟩
  · intro order horder unfit
    rcases p.embeddable_settles with ⟨settled, -⟩ | ⟨r, why, settled, rejects⟩
    · exact absurd (accepted.1 settled).1 unfit
    · refine ⟨p.sortedResources, r, why, p.sortedResources_perm,
        Program.sortedResources_sorted distinct, rejects, ?_⟩
      rw [generate_eq_answer, Generator.answer]
      dsimp only
      rw [horder, settled]
      rfl

theorem generate_resources_any_order_shared :
    let p : Program := { resources := [⟨"a.b", [1]⟩, ⟨"icon", [2]⟩, ⟨"a-b", [3]⟩] }
    let q : Program := { resources := [⟨"icon", [2]⟩, ⟨"a.b", [1]⟩] }
    ((p.resources.map (·.name)).Nodup ∧ p.dependencyOrder = .ok [] ∧
      ¬ Embeddable p.resources ∧
      generate .cpp {} { p with resources := p.resources.reverse } = generate .cpp {} p ∧
      ∃ rs r why, rs.Perm p.resources ∧ rs.Pairwise (·.name < ·.name) ∧ Rejects rs r why ∧
        generate .cpp {} p = .error (.refused why (.resource r.name))) ∧
    (q.resources.map (·.name)).Nodup ∧ Embeddable q.resources ∧
      generate .cpp {} { q with resources := q.resources.reverse } = generate .cpp {} q ∧
      ∃ units, generate .cpp {} q = .ok units ∧
        units.Embed .cpp {} q [⟨"a.b", [1]⟩, ⟨"icon", [2]⟩] := by
  intro p q
  have distinct : (p.resources.map (·.name)).Nodup := by decide
  have order : p.dependencyOrder = .ok [] := Program.place_nil
  have unfit : ¬ Embeddable p.resources := fun h => absurd h.distinct (by decide)
  obtain ⟨perm, -, -, refused⟩ := generate_resources_any_order .cpp {} distinct
  have apart : (q.resources.map (·.name)).Nodup := by decide
  have fit : Embeddable q.resources := ⟨by decide, by decide⟩
  obtain ⟨perm', accepted, -, -⟩ := generate_resources_any_order .cpp {} apart
  obtain ⟨units, h⟩ := generate_of_embeddable rfl fit .cpp {}
  obtain ⟨rs, hrs, sorted, embed⟩ := accepted units h
  have listed : rs = [⟨"a.b", [1]⟩, ⟨"icon", [2]⟩] := by
    rw [Program.eq_sortedResources sorted hrs apart]
    exact (Program.eq_sortedResources (by decide) (List.Perm.swap _ _ _) apart).symm
  exact ⟨⟨distinct, order, unfit, perm _ (List.reverse_perm _), refused [] order unfit⟩, apart, fit,
    perm' _ (List.reverse_perm _), units, h, listed ▸ embed⟩

end CppEmission
