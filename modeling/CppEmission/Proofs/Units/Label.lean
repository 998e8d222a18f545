import CppEmission.Proofs.Units.Page
import Mathlib.Data.List.Chain

namespace CppEmission

namespace Member

def rank : Member → Nat
  | constructor => 0
  | destructor => 1
  | constant .. => 2
  | field .. => 3
  | method .. => 4

def place : Member → Nat
  | constructor | destructor => 0
  | constant i _ | field i _ | method i _ => i

def Before (m m' : Member) : Prop := m.rank < m'.rank ∨ m.rank = m'.rank ∧ m.place < m'.place

end Member

namespace Class

def visibilityOf (c : Class) : Member → Visibility
  | .constructor => c.kind.constructorVisibility
  | .destructor => .published
  | .constant _ d => d.visibility
  | .field _ f => f.visibility
  | .method _ m => m.visibility

/-- The groups have the members of the class, each once and under its own visibility, in the order of
their kinds and then of their declarations. -/
structure AreGroups (c : Class) (gs : List VisibilityGroup) : Prop where
  order : (gs.map (·.visibility)).Sublist [.published, .inherited, .internal, .hidden]
  nonempty : ∀ g ∈ gs, g.members ≠ []
  once : (gs.flatMap (·.members)).Nodup
  constructor : .constructor ∈ gs.flatMap (·.members)
  destructor : .destructor ∈ gs.flatMap (·.members) ↔
    c.base = none ∧ ∃ m ∈ c.methods, m.kind = .virtual ∨ m.kind = .abstract
  constant : ∀ i d, .constant i d ∈ gs.flatMap (·.members) ↔ c.constants[i]? = some d
  field : ∀ i f, .field i f ∈ gs.flatMap (·.members) ↔ c.fields[i]? = some f
  method : ∀ i m, .method i m ∈ gs.flatMap (·.members) ↔ c.methods[i]? = some m
  own : ∀ g ∈ gs, ∀ m ∈ g.members, c.visibilityOf m = g.visibility
  sorted : ∀ g ∈ gs, g.members.Pairwise Member.Before

theorem membersOf_eq_filter (c : Class) (v : Visibility) :
    c.membersOf v = c.members.filter (c.visibilityOf · = v) := by
  have constructor : c.constructorOf v = [Member.constructor].filter (c.visibilityOf · = v) := by
    by_cases h : c.kind.constructorVisibility = v <;> simp [constructorOf, visibilityOf, h]
  have destructor : c.destructorOf v =
      (if c.hasDestructor then [.destructor] else []).filter (c.visibilityOf · = v) := by
    cases v <;> cases h : c.hasDestructor <;> simp [destructorOf, visibilityOf, h]
  rw [membersOf, members, List.filter_append, List.filter_append, List.filter_append,
    List.filter_append, constructor, destructor, List.filter_map, List.filter_map, List.filter_map]
  rfl

end Class

def Member.SortedUpTo (r : Nat) (ms : List Member) : Prop :=
  ms.Pairwise Member.Before ∧ ∀ m ∈ ms, m.rank ≤ r

namespace Member.SortedUpTo

theorem append {r : Nat} {ms ms' : List Member} (h : SortedUpTo r ms)
    (sorted : ms'.Pairwise Before) (rank : ∀ m ∈ ms', m.rank = r + 1) :
    SortedUpTo (r + 1) (ms ++ ms') := by
  refine ⟨List.pairwise_append.2 ⟨h.1, sorted, fun m hm m' hm' => .inl ?_⟩, fun m hm => ?_⟩
  · rw [rank m' hm']
    exact Nat.lt_succ_of_le (h.2 m hm)
  · obtain hm | hm := List.mem_append.1 hm
    · exact Nat.le_succ_of_le (h.2 m hm)
    · exact (rank m hm).le

theorem append_zipIdx {r : Nat} {ms : List Member} (h : SortedUpTo r ms) {f : α × Nat → Member}
    (rank : ∀ x, (f x).rank = r + 1) (place : ∀ x, (f x).place = x.2) (xs : List α) :
    SortedUpTo (r + 1) (ms ++ xs.zipIdx.map f) := by
  have places : (xs.zipIdx.map Prod.snd).Pairwise (· < ·) := by
    rw [List.zipIdx_map_snd]
    exact List.pairwise_lt_range'
  refine h.append ((List.pairwise_map.1 places).map f fun x y lt => .inr ?_) ?_
  · rw [rank, rank, place, place]
    exact ⟨rfl, lt⟩
  · intro m hm
    obtain ⟨x, -, rfl⟩ := List.mem_map.1 hm
    exact rank x

end Member.SortedUpTo

namespace Class

theorem members_sorted (c : Class) : Member.SortedUpTo 4 c.members := by
  have constructor : Member.SortedUpTo 0 [.constructor] :=
    ⟨List.pairwise_singleton .., by simp [Member.rank]⟩
  have destructor : Member.SortedUpTo 1
      ([.constructor] ++ if c.hasDestructor then [.destructor] else []) := by
    apply constructor.append <;> split <;> simp [Member.rank]
  exact ((destructor.append_zipIdx (fun _ => rfl) (fun _ => rfl) _).append_zipIdx (fun _ => rfl)
    (fun _ => rfl) _).append_zipIdx (fun _ => rfl) (fun _ => rfl) _

theorem members_nodup (c : Class) : c.members.Nodup := by
  refine c.members_sorted.1.imp ?_
  rintro m _ before rfl
  exact before.elim (Nat.lt_irrefl _) fun same => Nat.lt_irrefl _ same.2

theorem hasDestructor_iff (c : Class) : c.hasDestructor ↔
    c.base = none ∧ ∃ m ∈ c.methods, m.kind = .virtual ∨ m.kind = .abstract := by
  have opens (kind : MethodKind) : kind.isVirtual ↔ kind = .virtual ∨ kind = .abstract := by
    cases kind <;> decide
  simp [hasDestructor, declaresVirtualMethods, opens]

theorem groups_areGroups (c : Class) : c.AreGroups c.groups := by
  have mem (m : Member) : m ∈ c.groups.flatMap (·.members) ↔ m ∈ c.members :=
    c.groups_perm.mem_iff
  have group {g : VisibilityGroup} (hg : g ∈ c.groups) : g.members ≠ [] ∧
      g.members = c.members.filter (c.visibilityOf · = g.visibility) := by
    obtain ⟨hg, nonempty⟩ := List.mem_filter.1 hg
    obtain ⟨v, -, rfl⟩ := List.mem_map.1 hg
    exact ⟨by simpa using nonempty, c.membersOf_eq_filter v⟩
  constructor
  case order =>
    have all := (List.filter_sublist (p := (!·.members.isEmpty))
      (l := Visibility.all.map fun v => ⟨v, c.membersOf v⟩)).map VisibilityGroup.visibility
    rwa [List.map_map] at all
  case nonempty => exact fun g hg => (group hg).1
  case once => exact c.groups_perm.nodup_iff.2 c.members_nodup
  case constructor => simp [mem, members]
  case destructor =>
    rw [mem, ← hasDestructor_iff]
    cases h : c.hasDestructor <;> simp [members, h]
  case constant =>
    intro i d
    cases h : c.hasDestructor <;> simp [mem, members, h, List.mem_zipIdx_iff_getElem?]
  case field =>
    intro i f
    cases h : c.hasDestructor <;> simp [mem, members, h, List.mem_zipIdx_iff_getElem?]
  case method =>
    intro i m
    cases h : c.hasDestructor <;> simp [mem, members, h, List.mem_zipIdx_iff_getElem?]
  case own =>
    intro g hg m hm
    rw [(group hg).2] at hm
    simpa using (List.mem_filter.1 hm).2
  case sorted =>
    intro g hg
    rw [(group hg).2]
    exact c.members_sorted.1.filter _

end Class

def Entry.label? : Entry → Option String
  | label access => some access
  | member .. => none

/-- After the label `access`, the entries declare the members, each under the access of its own
visibility, and no label says what the one before it says. -/
inductive Class.Labels (cx : Context) (c : Class) : Option String → List Member → List Entry → Prop
  | nil : Labels cx c access [] []
  | label : access ≠ some next → Labels cx c (some next) ms es →
      Labels cx c access ms (.label next :: es)
  | member : access = some (c.visibilityOf m).access →
      cx.script (m.declare c) = ⟨[.line line], none⟩ → Labels cx c access ms es →
      Labels cx c access (m :: ms) (.member m line :: es)

namespace Class.Labels

variable {cx : Context} {c : Class} {access : Option String} {ms : List Member} {es : List Entry}

theorem members (h : Labels cx c access ms es) :
    (es.filterMap Entry.declared?).map (·.1) = ms := by
  induction h with
  | nil => rfl
  | label _ _ ih => exact ih
  | member _ _ _ ih => exact congrArg (_ :: ·) ih

theorem written (h : Labels cx c access ms es) : ∀ d ∈ es.filterMap Entry.declared?,
    cx.script (d.1.declare c) = ⟨[.line d.2], none⟩ := by
  induction h with
  | nil => exact nofun
  | label _ _ ih => exact ih
  | member _ line _ ih => exact List.forall_mem_cons.2 ⟨line, ih⟩

theorem distinct (h : Labels cx c access ms es) :
    (access.toList ++ es.filterMap Entry.label?).IsChain (· ≠ ·) := by
  induction h with
  | nil => cases ‹Option String› <;> simp
  | @label access next ms es new _ ih =>
    cases access with
    | none => exact ih
    | some current => exact List.isChain_cons_cons.2 ⟨fun same => new (congrArg some same), ih⟩
  | member _ _ _ ih => exact ih

theorem nearest (h : Labels cx c access ms es) {before after : List Entry} {m : Member}
    {line : String} (split : es = before ++ .member m line :: after) :
    (access.toList ++ before.filterMap Entry.label?).getLast? =
      some (c.visibilityOf m).access := by
  induction h generalizing before with
  | nil => cases before <;> cases split
  | @label access next _ _ _ _ ih =>
    cases before with
    | nil => cases split
    | cons entry before =>
      obtain ⟨rfl, tail⟩ := List.cons.inj split
      have last := ih tail
      show (access.toList ++ next :: before.filterMap Entry.label?).getLast? = _
      rw [List.getLast?_append]
      exact congrArg (Option.or · _) last
  | member under _ _ ih =>
    cases before with
    | nil =>
      obtain ⟨⟨⟩, -⟩ := List.cons.inj split
      rw [under]
      rfl
    | cons entry before =>
      obtain ⟨rfl, tail⟩ := List.cons.inj split
      have last := ih tail
      exact last

end Class.Labels

namespace Context

theorem after_label (cx : Context) (access : Option String) (next : String) :
    cx.after (if access = some next then [] else [.put (accessLabel next)]) = cx := by
  split <;> rfl

variable {cx : Context} (outside : cx.scope.method? = none) (c : Class)

include outside

theorem after_declare (m : Member) : cx.after (m.declare c) = cx := by
  cases m with
  | method i m =>
    rcases cx with ⟨dialect, program, ⟨class?, method?⟩⟩
    cases outside
    rfl
  | constructor | destructor | constant | field => rfl

theorem after_members (ms : List Member) : cx.after (ms.flatMap (·.declare c)) = cx := by
  induction ms with
  | nil => rfl
  | cons m ms ih => rw [List.flatMap_cons, after_append, after_declare outside, ih]

end Context

namespace Class

variable {cx : Context} {c : Class} (outside : cx.scope.method? = none)

include outside

theorem labels_members {v : Visibility} {ms rest : List Member} {es : List Entry}
    {ops : List Writer.Op} (own : ∀ m ∈ ms, c.visibilityOf m = v)
    (h : cx.script (ms.flatMap (·.declare c)) = ⟨ops, none⟩)
    (behind : Labels cx c (some v.access) rest es) :
    ∃ es', ops ++ es.map Entry.op = es'.map Entry.op ∧
      Labels cx c (some v.access) (ms ++ rest) es' := by
  induction ms generalizing ops with
  | nil =>
    cases h
    exact ⟨es, rfl, behind⟩
  | cons m ms ih =>
    rw [List.flatMap_cons, Context.script_append, Context.after_declare outside] at h
    obtain ⟨_, _, hm, hms, rfl⟩ := Script.append_eq_complete.1 h
    obtain ⟨line, rfl, -⟩ := Member.script_declare hm
    obtain ⟨hown, own⟩ := List.forall_mem_cons.1 own
    obtain ⟨es', hops, labels⟩ := ih own hms
    refine ⟨.member m line :: es', ?_, .member (by rw [hown]) hm labels⟩
    rw [List.append_assoc, hops]
    rfl

theorem labels_groups {gs : List VisibilityGroup} {access : Option String}
    {ops : List Writer.Op} (own : ∀ g ∈ gs, ∀ m ∈ g.members, c.visibilityOf m = g.visibility)
    (h : cx.script (c.declareGroups access gs) = ⟨ops, none⟩) :
    ∃ es, ops = es.map Entry.op ∧ Labels cx c access (gs.flatMap (·.members)) es := by
  induction gs generalizing access ops with
  | nil =>
    cases h
    exact ⟨[], rfl, .nil⟩
  | cons g gs ih =>
    obtain ⟨hown, own⟩ := List.forall_mem_cons.1 own
    rw [declareGroups, Context.script_append, Context.after_append, Context.after_label,
      Context.after_members outside, Context.script_append, Context.after_label] at h
    obtain ⟨_, _, front, hrest, rfl⟩ := Script.append_eq_complete.1 h
    obtain ⟨_, _, hlabel, hmembers, rfl⟩ := Script.append_eq_complete.1 front
    obtain ⟨_, rfl, behind⟩ := ih own hrest
    obtain ⟨es, hops, labels⟩ := labels_members outside hown hmembers behind
    rw [List.append_assoc, hops]
    split at hlabel
    next same =>
      cases hlabel
      exact ⟨es, rfl, same ▸ labels⟩
    next new =>
      cases hlabel
      exact ⟨.label g.visibility.access :: es, rfl, .label new labels⟩

end Class

/-- The entries of a definition declare the members of the class's groups. What is written last of
the labels before a member is the access of its visibility, and no two labels in a row are equal. -/
structure Class.IsLabelled (cx : Context) (c : Class) (es : List Entry) : Prop where
  members : (es.filterMap Entry.declared?).map (·.1) = c.groups.flatMap (·.members)
  written : ∀ d ∈ es.filterMap Entry.declared?, cx.script (d.1.declare c) = ⟨[.line d.2], none⟩
  nearest : ∀ before m line after, es = before ++ .member m line :: after →
    (before.filterMap Entry.label?).getLast? = some (c.visibilityOf m).access
  distinct : (es.filterMap Entry.label?).IsChain (· ≠ ·)

theorem Class.exists_isLabelled {cx : Context} {c : Class}
    (h : (cx.script c.declare).fault = none) :
    ∃ es, c.IsLabelled (cx.entering (.enterClass (some c))) es ∧ (cx.script c.declare).ops =
      .blankLine :: .openBlock c.header :: es.map Entry.op ++ [.closeBlockWith "\x7d;"] := by
  obtain ⟨_, hgroups, hops⟩ := declare_eq_complete (Script.eq_mk_of_complete h)
  obtain ⟨es, rfl, labels⟩ := labels_groups rfl c.groups_areGroups.own hgroups
  exact ⟨es, ⟨labels.members, labels.written, fun _ _ _ _ => labels.nearest, labels.distinct⟩, hops⟩

/-- The interface shows the definitions of the classes, each with its members under labels. -/
def Units.ShowLabels (units : Units) (dialect : Dialect) (settings : Settings) (p : Program) :
    Prop :=
  ∃ (order : List Class) (resources : List Resource) (entries : Class → List Entry),
    p.dependencyOrder = .ok order ∧ (p.classNames.Nodup → order.Perm p.classes) ∧
    p.embeddable = .ok resources ∧
    (∀ c ∈ order, c.IsLabelled ⟨dialect, p, .enterClass (some c)⟩ (entries c)) ∧
    units.interface = settings.page (p.interfaceFront settings ++
      order.flatMap (fun c => .blankLine :: .openBlock c.header :: (entries c).map Entry.op ++
        [.closeBlockWith "\x7d;"]) ++
      Program.interfaceBack settings resources)

end CppEmission
