import CppEmission.Proofs.Declaration.Head
import CppEmission.Proofs.Units.Script

namespace CppEmission

inductive Entry
  | label (access : String)
  | member (m : Member) (line : String)

namespace Entry

def op : Entry → Writer.Op
  | label access => .outdentedLine (access ++ ":")
  | member _ line => .line line

def declared? : Entry → Option (Member × String)
  | label _ => none
  | member m line => some (m, line)

end Entry

structure Definition where
  member : Member
  header : String
  body : List Writer.Op

def Definition.ops (d : Definition) : List Writer.Op :=
  .blankLine :: .openBlock d.header :: d.body ++ [.closeBlock]

namespace Class

inductive Declares (c : Class) : Member → String → Prop
  | constructor : c.Declares .constructor c.constructorLine
  | destructor : c.Declares .destructor c.destructorLine
  | constant : c.Declares (.constant i d) line
  | field : c.Declares (.field i f) line
  | method : MethodHead.Describes head m → c.Declares (.method i m) (head.declaration m.kind)

inductive Defines (c : Class) : Member → String → Prop
  | constructor : c.Defines .constructor c.constructorHeader
  | method {text : String} :
      (∀ head : MethodHead, head.Describes m → text = head.definition c.name) →
      c.Defines (.method i m) text

inductive Lists (c : Class) : List Member → List Entry → Prop
  | nil : c.Lists [] []
  | label : c.Lists ms es → c.Lists ms (.label access :: es)
  | member : c.Declares m line → c.Lists ms es → c.Lists (m :: ms) (.member m line :: es)

theorem Lists.append {c : Class} (h : c.Lists ms es) (h' : c.Lists ms' es') :
    c.Lists (ms ++ ms') (es ++ es') := by
  induction h with
  | nil => exact h'
  | label _ ih => exact .label ih
  | member hm _ ih => exact .member hm ih

theorem Lists.members {c : Class} (h : c.Lists ms es) :
    (es.filterMap Entry.declared?).map (·.1) = ms := by
  induction h with
  | nil => rfl
  | label _ ih => exact ih
  | member _ _ ih => exact congrArg (_ :: ·) ih

theorem Lists.declares {c : Class} (h : c.Lists ms es) :
    ∀ d ∈ es.filterMap Entry.declared?, c.Declares d.1 d.2 := by
  induction h with
  | nil => exact nofun
  | label _ ih => exact ih
  | member hm _ ih => exact List.forall_mem_cons.2 ⟨hm, ih⟩

end Class

theorem Script.line_eq_complete {text : String} {ops : List Writer.Op}
    (h : Script.line text = ⟨ops, none⟩) : ops = [.line text] := by
  cases h
  rfl

theorem Member.script_declare {cx : Context} {c : Class} {m : Member} {ops : List Writer.Op}
    (h : cx.script (m.declare c) = ⟨ops, none⟩) :
    ∃ line, ops = [.line line] ∧ c.Declares m line := by
  cases m with
  | constructor =>
    simp only [declare, Action.put, Context.script, Script.append_nil] at h
    exact ⟨_, Script.line_eq_complete h, .constructor⟩
  | destructor =>
    simp only [declare, Action.put, Context.script, Script.append_nil] at h
    exact ⟨_, Script.line_eq_complete h, .destructor⟩
  | constant i d =>
    simp only [declare, Context.script, Script.append_nil] at h
    obtain ⟨line, -, h⟩ := Script.after_eq_complete.1 h
    exact ⟨line, Script.line_eq_complete h, .constant⟩
  | field i f =>
    simp only [declare, Context.script, Script.append_nil] at h
    obtain ⟨line, -, h⟩ := Script.after_eq_complete.1 h
    exact ⟨line, Script.line_eq_complete h, .field⟩
  | method i m =>
    simp only [declare, Context.script, Script.append_nil] at h
    obtain ⟨line, hline, h⟩ := Script.after_eq_complete.1 h
    obtain ⟨head, describes, rfl⟩ := Context.methodLine_describes hline
    exact ⟨_, Script.line_eq_complete h, .method describes⟩

namespace Class

theorem script_members {cx : Context} {c : Class} {ms : List Member} {ops : List Writer.Op}
    (h : cx.script (ms.flatMap (·.declare c)) = ⟨ops, none⟩) :
    ∃ es, ops = es.map Entry.op ∧ c.Lists ms es := by
  induction ms generalizing cx ops with
  | nil =>
    cases h
    exact ⟨[], rfl, .nil⟩
  | cons m ms ih =>
    rw [List.flatMap_cons, Context.script_append] at h
    obtain ⟨a, b, ha, hb, rfl⟩ := Script.append_eq_complete.1 h
    obtain ⟨line, rfl, declares⟩ := Member.script_declare ha
    obtain ⟨es, rfl, lists⟩ := ih hb
    exact ⟨.member m line :: es, rfl, .member declares lists⟩

theorem script_label {cx : Context} {c : Class} {access : Option String} {next : String}
    {ops : List Writer.Op}
    (h : cx.script (if access = some next then [] else [.put (accessLabel next)]) = ⟨ops, none⟩) :
    ∃ es, ops = es.map Entry.op ∧ c.Lists [] es := by
  split at h
  · cases h
    exact ⟨[], rfl, .nil⟩
  · cases h
    exact ⟨[.label next], rfl, .label .nil⟩

theorem script_groups {cx : Context} {c : Class} {access : Option String}
    {gs : List VisibilityGroup} {ops : List Writer.Op}
    (h : cx.script (c.declareGroups access gs) = ⟨ops, none⟩) :
    ∃ es, ops = es.map Entry.op ∧ c.Lists (gs.flatMap (·.members)) es := by
  induction gs generalizing cx access ops with
  | nil =>
    cases h
    exact ⟨[], rfl, .nil⟩
  | cons g gs ih =>
    rw [declareGroups, Context.script_append, Context.script_append] at h
    obtain ⟨_, _, front, hrest, rfl⟩ := Script.append_eq_complete.1 h
    obtain ⟨_, _, hlabel, hmembers, rfl⟩ := Script.append_eq_complete.1 front
    obtain ⟨label, rfl, nothing⟩ := script_label (c := c) hlabel
    obtain ⟨es, rfl, lists⟩ := script_members hmembers
    obtain ⟨rest, rfl, lists'⟩ := ih hrest
    refine ⟨label ++ es ++ rest, ?_, (nothing.append lists).append lists'⟩
    rw [List.map_append, List.map_append]

theorem declare_eq_complete {cx : Context} {c : Class} {ops : List Writer.Op}
    (h : cx.script c.declare = ⟨ops, none⟩) : ∃ inner,
      (cx.entering (.enterClass (some c))).script (c.declareGroups none c.groups) = ⟨inner, none⟩ ∧
        ops = .blankLine :: .openBlock c.header :: inner ++ [.closeBlockWith "\x7d;"] := by
  simp only [declare, Action.put, List.cons_append, Context.script, Context.script_append] at h
  obtain ⟨_, _, hblank, opened, rfl⟩ := Script.append_eq_complete.1 h
  obtain ⟨_, _, hopen, inner, rfl⟩ := Script.append_eq_complete.1 opened
  obtain ⟨_, _, hgroups, hclose, rfl⟩ := Script.append_eq_complete.1 inner
  cases hblank
  cases hopen
  cases hclose
  exact ⟨_, hgroups, rfl⟩

theorem script_declare {cx : Context} {c : Class} {ops : List Writer.Op}
    (h : cx.script c.declare = ⟨ops, none⟩) :
    ∃ es, ops = .blankLine :: .openBlock c.header :: es.map Entry.op ++ [.closeBlockWith "\x7d;"] ∧
      c.Lists (c.groups.flatMap (·.members)) es := by
  obtain ⟨_, hgroups, rfl⟩ := declare_eq_complete h
  obtain ⟨es, rfl, lists⟩ := script_groups hgroups
  exact ⟨es, rfl, lists⟩

theorem block_eq_complete {header : String} {body : Script} {ops : List Writer.Op}
    (h : blank ++ Script.block header body = ⟨ops, none⟩) :
    ∃ inner, ops = .blankLine :: .openBlock header :: inner ++ [.closeBlock] := by
  obtain ⟨_, _, hblank, block, rfl⟩ := Script.append_eq_complete.1 h
  obtain ⟨_, _, opened, hclose, rfl⟩ := Script.append_eq_complete.1 block
  obtain ⟨_, inner, hopen, hbody, rfl⟩ := Script.append_eq_complete.1 opened
  cases hblank
  cases hopen
  cases hclose
  exact ⟨inner, rfl⟩

def DefinesAll (c : Class) : List Member → List Definition → Prop :=
  List.Forall₂ fun m d => d.member = m ∧ c.Defines m d.header

theorem DefinesAll.members {c : Class} (h : c.DefinesAll ms ds) :
    ds.map (·.member) = ms := by
  induction h with
  | nil => rfl
  | cons hd _ ih => rw [List.map_cons, hd.1, ih]

theorem DefinesAll.defines {c : Class} (h : c.DefinesAll ms ds) :
    ∀ d ∈ ds, c.Defines d.member d.header := by
  induction h with
  | nil => exact nofun
  | cons hd _ ih => exact List.forall_mem_cons.2 ⟨hd.1 ▸ hd.2, ih⟩

theorem DefinesAll.append {c : Class} (h : c.DefinesAll ms ds) (h' : c.DefinesAll ms' ds') :
    c.DefinesAll (ms ++ ms') (ds ++ ds') :=
  List.rel_append h h'

theorem script_defineConstructor {cx : Context} {c : Class} {ops : List Writer.Op}
    (h : cx.script c.defineConstructor = ⟨ops, none⟩) : (c.constructor.isSome → !c.isStatic) ∧
      ∃ ds, ops = ds.flatMap Definition.ops ∧
        c.DefinesAll (if c.constructor.isSome then [.constructor] else []) ds := by
  rw [defineConstructor] at h
  split at h
  next hnone =>
    cases h
    rw [hnone]
    exact ⟨by simp, [], rfl, .nil⟩
  next body hsome =>
    simp only [Context.script, Script.append_nil] at h
    split at h
    · cases h
    next notStatic =>
      obtain ⟨inner, rfl⟩ := block_eq_complete h
      rw [hsome]
      refine ⟨fun _ => by simpa using notStatic, [⟨.constructor, c.constructorHeader, inner⟩],
        ?_, ?_⟩
      · simp [Definition.ops]
      · exact .cons ⟨rfl, .constructor⟩ .nil

theorem script_defineMethod {cx : Context} {c : Class} {m : Method} (i : Nat)
    {ops : List Writer.Op} (h : cx.script (c.defineMethod m) = ⟨ops, none⟩) :
    ∃ ds, ops = ds.flatMap Definition.ops ∧
      c.DefinesAll (if m.isAbstract then [] else [.method i m]) ds := by
  rw [defineMethod] at h
  split at h
  next abstract =>
    cases h
    rw [if_pos abstract]
    exact ⟨[], rfl, .nil⟩
  next concrete =>
    simp only [Context.script, Script.append_nil] at h
    split at h
    · cases h
    next body hbody =>
      obtain ⟨header, hheader, h⟩ := Script.after_eq_complete.1 h
      obtain ⟨inner, rfl⟩ := block_eq_complete h
      rw [if_neg concrete]
      refine ⟨[⟨.method i m, header, inner⟩], by simp [Definition.ops], .cons ⟨rfl, ?_⟩ .nil⟩
      exact .method fun head describes => Context.methodHeader_of_describes describes hheader

theorem script_defineMethods {cx : Context} {c : Class} {ms : List Method} (k : Nat)
    {ops : List Writer.Op} (h : cx.script (ms.flatMap c.defineMethod) = ⟨ops, none⟩) :
    ∃ ds, ops = ds.flatMap Definition.ops ∧ c.DefinesAll
      (((ms.zipIdx k).filter (!·.1.isAbstract)).map fun (m, i) => .method i m) ds := by
  induction ms generalizing cx k ops with
  | nil =>
    cases h
    exact ⟨[], rfl, .nil⟩
  | cons m ms ih =>
    rw [List.flatMap_cons, Context.script_append] at h
    obtain ⟨_, _, hm, hms, rfl⟩ := Script.append_eq_complete.1 h
    obtain ⟨ds, rfl, defines⟩ := script_defineMethod k hm
    obtain ⟨ds', rfl, defines'⟩ := ih (k + 1) hms
    refine ⟨ds ++ ds', by rw [List.flatMap_append], ?_⟩
    have both := defines.append defines'
    cases abstract : m.isAbstract <;> simpa [abstract] using both

def definedMembers (c : Class) : List Member :=
  (if c.constructor.isSome then [.constructor] else []) ++
    (c.methods.zipIdx.filter (!·.1.isAbstract)).map fun (m, i) => .method i m

theorem script_define {cx : Context} {c : Class} {ops : List Writer.Op}
    (h : cx.script c.define = ⟨ops, none⟩) : (c.constructor.isSome → !c.isStatic) ∧
      ∃ ds, ops = ds.flatMap Definition.ops ∧ c.DefinesAll c.definedMembers ds := by
  simp only [define, List.cons_append, List.append_assoc, Context.script,
    Context.script_append] at h
  obtain ⟨_, _, hconstructor, methods, rfl⟩ := Script.append_eq_complete.1 h
  obtain ⟨_, _, hmethods, hleave, rfl⟩ := Script.append_eq_complete.1 methods
  obtain ⟨notStatic, ds, rfl, defines⟩ := script_defineConstructor hconstructor
  obtain ⟨ds', rfl, defines'⟩ := script_defineMethods 0 hmethods
  cases hleave
  refine ⟨notStatic, ds ++ ds', ?_, defines.append defines'⟩
  rw [List.append_nil, List.flatMap_append]

end Class

end CppEmission
