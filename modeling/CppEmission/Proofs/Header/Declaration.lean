import CppEmission.Proofs.Header.Drawn
import CppEmission.Proofs.Units.Resource

namespace CppEmission

open Surface

variable {cx : Context} {ts : List (Term Name)}

theorem flatMap_subset {α β : Type} {f : α → List β} {as : List α} {bs : List β} :
    as.flatMap f ⊆ bs ↔ ∀ a ∈ as, f a ⊆ bs := by
  simp only [List.subset_def, List.mem_flatMap, forall_exists_index, and_imp]
  exact ⟨fun h a ha _ hb => h a ha hb, fun h _ a ha hb => h a ha hb⟩

theorem Method.qualifier_own (m : Method) : IsOwnText m.qualifier := by
  rw [Method.qualifier]
  split <;> decide

namespace Context

variable (hcx : cx.dialect.convert = convert)

theorem returnName_composed {m : Method} (sub : m.returnTy.toList.map typeTerm ⊆ ts) :
    Yields (Composed ts) (cx.returnName m) := by
  rw [returnName]
  cases returns : m.returnTy with
  | none => exact .ok (.own (by decide))
  | some t =>
    rw [returns] at sub
    exact typeName_composed (sub List.mem_cons_self)

theorem paramText_composed {p : Param} (sub : p.terms cx ⊆ ts) :
    Yields (Composed ts) (cx.paramText p) := by
  rw [Param.terms, List.cons_subset, List.cons_subset] at sub
  exact (typeName_composed sub.1).bind fun _ type =>
    .ok (type.between (by decide) (name_composed sub.2.1))

theorem methodHeader_composed {m : Method} {className : String} (hc : nameTerm className ∈ ts)
    (sub : m.headTerms cx ⊆ ts) : Yields (Composed ts) (cx.methodHeader className m) := by
  rw [Method.headTerms, List.append_subset, List.cons_subset] at sub
  obtain ⟨returns, name, params⟩ := sub
  refine (returnName_composed returns).bind fun _ type => ?_
  refine (Yields.mapM (q := Composed ts) fun p hp => paramText_composed
    (flatMap_subset.1 params p hp)).bind fun _ texts => .ok ?_
  exact (((((type.between (by decide) (name_composed hc)).between (by decide)
    (name_composed name)).between (by decide) (.joined texts)).append (.own (by decide))).append
    (.own m.qualifier_own))

include hcx

theorem paramTextWithDefault_composed {p : Param} (sub : p.terms cx ⊆ ts) :
    Yields (Composed ts) (cx.paramTextWithDefault p) := by
  refine (paramText_composed sub).bind fun _ text => ?_
  rw [Param.terms, List.cons_subset, List.cons_subset] at sub
  cases default : p.default with
  | none => exact .ok text
  | some e =>
    rw [default] at sub
    exact (coerce_composed hcx (sub.2.2 List.mem_cons_self) _).bind fun _ value =>
      .ok (text.between (by decide) value)

theorem fieldLine_composed {f : Field} (sub : f.terms cx ⊆ ts) :
    Yields (Composed ts) (cx.fieldLine f) := by
  have declared := declared_writes hcx f.name f.ty (operand?_denotes hcx f.value)
  refine declared.bind fun _ text => .ok ?_
  have text := Composed.term (sub List.mem_cons_self) text.spells
  refine (Composed.append (.own ?_) text).append (.own (by decide))
  split <;> decide

theorem methodLine_composed {m : Method} (sub : m.headTerms cx ⊆ ts) :
    Yields (Composed ts) (cx.methodLine m) := by
  have prefixed : IsOwnText m.kind.declaredPrefix := by cases m.kind <;> decide
  have suffixed : IsOwnText m.kind.declaredSuffix := by cases m.kind <;> decide
  rw [Method.headTerms, List.append_subset, List.cons_subset] at sub
  obtain ⟨returns, name, params⟩ := sub
  refine (returnName_composed returns).bind fun _ type => ?_
  refine (Yields.mapM (q := Composed ts) fun p hp => paramTextWithDefault_composed hcx
    (flatMap_subset.1 params p hp)).bind fun _ texts => .ok ?_
  exact ((((((((Composed.own prefixed).append type).between (by decide)
    (name_composed name)).between (by decide) (.joined texts)).append (.own (by decide))).append
    (.own m.qualifier_own)).append (.own suffixed)).append (.own (by decide)))

end Context

namespace Class

variable {c : Class}

theorem header_composed (name : nameTerm c.name ∈ ts) (base : c.base.toList.map nameTerm ⊆ ts) :
    Composed ts c.header := by
  have front : Composed ts "class " := .own (by decide)
  refine ((front.append (Context.name_composed name)).append (.own ?_)).append ?_
  · split <;> decide
  · cases parent : c.base with
    | none => exact .own (by decide)
    | some b =>
      rw [parent] at base
      exact .append (.own (by decide)) (Context.name_composed (base List.mem_cons_self))

theorem forwardLine_composed (name : nameTerm c.name ∈ ts) : Composed ts c.forwardLine :=
  Context.headed (by decide) (by decide) (Context.name_composed name)

theorem constructorLine_composed (name : nameTerm c.name ∈ ts) : Composed ts c.constructorLine := by
  refine (((Context.name_composed name).append (.own (by decide))).append (.own ?_)).append
    (.own (by decide))
  split
  · decide
  split <;> decide

theorem destructorLine_composed (name : nameTerm c.name ∈ ts) : Composed ts c.destructorLine :=
  Context.headed (by decide) (by decide) (Context.name_composed name)

theorem constructorHeader_composed (name : nameTerm c.name ∈ ts) :
    Composed ts c.constructorHeader :=
  have name := Context.name_composed name
  (name.between (by decide) name).append (.own (by decide))

end Class

theorem EnumConstant.text_composed {c : EnumConstant} (sub : c.terms ⊆ ts) :
    Composed ts c.text := by
  rw [terms, List.cons_subset] at sub
  refine (Context.name_composed sub.1).append ?_
  cases value : c.value with
  | none => exact .own (by decide)
  | some v =>
    rw [value] at sub
    exact .append (.own (by decide))
      (.term (sub.2 List.mem_cons_self) (Writes.literal _).spells)

theorem Enum.line_composed {e : Enum} (sub : e.terms ⊆ ts) : Composed ts e.line := by
  rw [terms, List.cons_subset] at sub
  have front : Composed ts "enum class " := .own (by decide)
  refine (front.append (Context.name_composed sub.1)).append ?_
  split
  · exact .own (by decide)
  · refine Context.headed (by decide) (by decide) (.joined fun text mem => ?_)
    obtain ⟨c, hc, rfl⟩ := List.mem_map.1 mem
    exact EnumConstant.text_composed (flatMap_subset.1 sub.2 c hc)

theorem mem_of_byteRows {bytes row : List UInt8} {b : UInt8} (hrow : row ∈ byteRows bytes)
    (hb : b ∈ row) : b ∈ bytes := by
  induction bytes using byteRows.induct with
  | case1 =>
    rw [byteRows] at hrow
    cases hrow
  | case2 first rest ih =>
    rw [byteRows] at hrow
    rcases List.mem_cons.1 hrow with rfl | hrow
    · exact List.mem_of_mem_take hb
    · exact List.mem_of_mem_drop (ih hrow)

theorem Composed.withCommas {texts : List String} (h : ∀ text ∈ texts, Composed ts text) :
    ∀ text ∈ withCommas texts, Composed ts text := by
  induction texts using CppEmission.withCommas.induct with
  | case1 => exact h
  | case2 line => exact h
  | case3 line next rest ih =>
    obtain ⟨first, others⟩ := List.forall_mem_cons.1 h
    exact List.forall_mem_cons.2 ⟨first.append (.own (by decide)), ih others⟩

theorem byteLines_composed {bytes : List UInt8}
    (sub : (bytes.map fun b => Term.literal (byteText b)) ⊆ ts) :
    ∀ text ∈ byteLines bytes, Composed ts text := by
  refine .withCommas fun text mem => ?_
  obtain ⟨row, hrow, rfl⟩ := List.mem_map.1 mem
  refine .joined fun text mem => ?_
  obtain ⟨b, hb, rfl⟩ := List.mem_map.1 mem
  exact .term (sub (List.mem_map_of_mem (mem_of_byteRows hrow hb))) (Writes.literal _).spells

theorem resourceHead_composed {r : Resource} {front close : String} (words : String)
    (spelled : front = words ++ ("uint8_t" ++ " ")) (own : IsOwnText words)
    (own' : IsOwnText close) (sub : r.terms ⊆ ts) :
    Composed ts (front ++ r.identifier ++ "[" ++ Nat.repr r.bytes.length ++ close) := by
  rw [Resource.terms, List.cons_subset, List.cons_subset, List.cons_subset] at sub
  obtain ⟨byte, name, length, -⟩ := sub
  have type : Composed ts ("uint8_t" ++ " ") :=
    .append (.name (x := .type (.int .u8)) byte) (.own (by decide))
  rw [spelled]
  exact ((((Composed.own own).append type).append (Context.name_composed name)).between (by decide)
    (.term length (Writes.literal _).spells)).append (.own own')

theorem Resource.declaration_draws {r : Resource} (sub : r.terms ⊆ ts) : r.declaration.Draws ts :=
  .line (resourceHead_composed "extern const " (by decide) (by decide) (by decide) sub)

theorem Resource.definition_draws {r : Resource} (sub : r.terms ⊆ ts) :
    ∀ op ∈ r.definition, op.Draws ts := by
  have head : Composed ts
      ("const uint8_t " ++ r.identifier ++ "[" ++ Nat.repr r.bytes.length ++ "] =") :=
    resourceHead_composed "const " (by decide) (by decide) (by decide) sub
  rw [terms, List.cons_subset, List.cons_subset, List.cons_subset] at sub
  intro op mem
  rcases List.mem_append.1 mem with mem | mem
  · rcases List.mem_cons.1 mem with rfl | mem
    · exact .blankLine
    rcases List.mem_cons.1 mem with rfl | mem
    · exact .openBlock head
    obtain ⟨text, htext, rfl⟩ := List.mem_map.1 mem
    exact .line (byteLines_composed sub.2.2.2 text htext)
  · obtain rfl := List.mem_singleton.1 mem
    exact .closeBlockWith (.own (by decide))

def Runs (places : Context → Prop) (ts : List (Term Name)) (as : List Action) : Prop :=
  ∀ cx, places cx → (cx.script as).Draws ts ∧ places (cx.after as)

namespace Runs

variable {places : Context → Prop} {as bs : List Action}

theorem nil : Runs places ts [] := fun _ here => ⟨.nil, here⟩

theorem append (h : Runs places ts as) (h' : Runs places ts bs) : Runs places ts (as ++ bs) := by
  intro cx here
  obtain ⟨draws, there⟩ := h cx here
  obtain ⟨draws', there'⟩ := h' _ there
  rw [Context.script_append, Context.after_append]
  exact ⟨draws.append draws', there'⟩

theorem flatMap {α : Type} {f : α → List Action} {xs : List α}
    (h : ∀ x ∈ xs, Runs places ts (f x)) : Runs places ts (xs.flatMap f) := by
  induction xs with
  | nil => exact nil
  | cons x xs ih =>
    obtain ⟨hx, hxs⟩ := List.forall_mem_cons.1 h
    exact hx.append (ih hxs)

theorem write {text : Context → Script} (h : ∀ cx, places cx → (text cx).Draws ts) :
    Runs places ts [.write text] := by
  intro cx here
  rw [Context.script, Context.script, Script.append_nil]
  exact ⟨h cx here, here⟩

theorem put {s : Script} (h : s.Draws ts) : Runs places ts [.put s] := write fun _ _ => h

end Runs

def Member.IsOf (c : Class) : Member → Prop
  | constructor | destructor => True
  | constant _ d => d ∈ c.constants
  | field _ f => f ∈ c.fields
  | method _ m => m ∈ c.methods

namespace Class

variable {c : Class}

theorem isOf_of_mem_members {m : Member} (h : m ∈ c.members) : m.IsOf c := by
  cases m with
  | constructor | destructor => trivial
  | constant | field | method => exact List.fst_mem_of_mem_zipIdx (by simpa [members] using h)

structure IsListed (c : Class) (cx : Context) (ts : List (Term Name)) : Prop where
  name : nameTerm c.name ∈ ts
  base : c.base.toList.map nameTerm ⊆ ts
  constants : ∀ d ∈ c.constants, d.terms (cx.inClass c) ⊆ ts
  fields : ∀ f ∈ c.fields, f.terms (cx.inClass c) ⊆ ts
  constructor : ∀ body ∈ c.constructor, Stmt.allTerms (cx.inClass c) body ⊆ ts
  methods : ∀ m ∈ c.methods, m.terms (cx.inClass c) ⊆ ts

theorem isListed (sub : c.terms cx ⊆ ts) : c.IsListed cx ts := by
  simp only [terms, List.append_subset, List.cons_subset, flatMap_subset] at sub
  obtain ⟨⟨⟨⟨⟨name, base⟩, constants⟩, fields⟩, constructor⟩, methods⟩ := sub
  refine ⟨name, base, constants, fields, ?_, methods⟩
  intro body hbody
  rwa [Option.mem_def.1 hbody] at constructor

section Members

variable (hcx : cx.dialect.convert = convert) (h : c.IsListed cx ts)

include hcx h

theorem declareMember_runs {m : Member} (hm : m.IsOf c) :
    Runs (· = cx.inClass c) ts (m.declare c) := by
  have entered : (cx.inClass c).dialect.convert = convert := hcx
  cases m with
  | constructor => exact .put (.line (constructorLine_composed h.name))
  | destructor => exact .put (.line (destructorLine_composed h.name))
  | constant i d =>
    refine .write ?_
    rintro _ rfl
    exact .after (Context.constantLine_composed entered (h.constants d hm)) fun _ => .line
  | field i f =>
    refine .write ?_
    rintro _ rfl
    exact .after (Context.fieldLine_composed entered (h.fields f hm)) fun _ => .line
  | method i m =>
    have head : m.headTerms ((cx.inClass c).inMethod m) ⊆ ts :=
      (List.append_subset.1 (h.methods m hm)).1
    have entered : ((cx.inClass c).inMethod m).dialect.convert = convert := hcx
    rintro _ rfl
    refine ⟨?_, rfl⟩
    show (Script.after (((cx.inClass c).inMethod m).methodLine m) .line ++ {}).Draws ts
    rw [Script.append_nil]
    exact .after (Context.methodLine_composed entered head) fun _ => .line

theorem declareGroups_runs {gs : List VisibilityGroup} (hgs : ∀ m ∈ gs.flatMap (·.members), m.IsOf c)
    (access : Option String) : Runs (· = cx.inClass c) ts (c.declareGroups access gs) := by
  induction gs generalizing access with
  | nil => exact .nil
  | cons g gs ih =>
    rw [List.flatMap_cons, List.forall_mem_append] at hgs
    have label : Runs (· = cx.inClass c) ts
        (if access = some g.visibility.access then [] else
          [.put (accessLabel g.visibility.access)]) := by
      split
      · exact .nil
      · exact .put (.op (.outdentedLine (.own (by cases g.visibility <;> decide))))
    rw [declareGroups]
    exact (label.append (.flatMap fun m hm => declareMember_runs hcx h (hgs.1 m hm))).append
      (ih hgs.2 _)

theorem declare_draws : (cx.script c.declare).Draws ts := by
  have own : ∀ m ∈ c.groups.flatMap (·.members), m.IsOf c :=
    fun m hm => isOf_of_mem_members (c.groups_perm.mem_iff.1 hm)
  have members := (declareGroups_runs hcx h own none (cx.inClass c) rfl).1
  have opened := Script.Draws.openBlock (header_composed h.name h.base)
  have close : closeClass.Draws ts := .op (.closeBlockWith (.own (by decide)))
  rw [declare, List.cons_append, List.cons_append, List.cons_append, Context.script_put,
    Context.script, Context.script_put, Context.script_append]
  exact (Script.Draws.op .blankLine).append (opened.append (members.append (close.append .nil)))

theorem defineConstructor_runs : Runs (· = cx.inClass c) ts c.defineConstructor := by
  have entered : (cx.inClass c).dialect.convert = convert := hcx
  rw [defineConstructor]
  cases hc : c.constructor with
  | none => exact .nil
  | some body =>
    refine .write ?_
    rintro _ rfl
    split
    · exact .fail _
    · exact (Script.Draws.op .blankLine).append (.block (constructorHeader_composed h.name)
        (Context.emitAll_draws entered body (h.constructor body hc)))

theorem defineMethod_runs {m : Method} (hm : m ∈ c.methods) :
    Runs (fun place => ∃ o, place = (cx.inClass c).entering ((cx.inClass c).scope.enterMethod o)) ts
      (c.defineMethod m) := by
  rw [defineMethod]
  split
  · exact .nil
  have entered : ((cx.inClass c).inMethod m).dialect.convert = convert := hcx
  obtain ⟨head, inner⟩ := List.append_subset.1 (h.methods m hm)
  rintro _ ⟨o, rfl⟩
  refine ⟨?_, some m, rfl⟩
  simp only [Context.script, Script.append_nil]
  cases hb : m.body with
  | none => exact .fail _
  | some body =>
    rw [hb] at inner
    exact .after (Context.methodHeader_composed h.name head) fun _ header =>
      (Script.Draws.op .blankLine).append
        (.block header (Context.emit_draws entered true body inner))

theorem define_draws : (cx.script c.define).Draws ts := by
  have leave : Runs (fun place =>
      ∃ o, place = (cx.inClass c).entering ((cx.inClass c).scope.enterMethod o)) ts [] := .nil
  have methods := Runs.flatMap fun m hm => defineMethod_runs hcx h hm
  show ((cx.inClass c).script
    (c.defineConstructor ++ c.methods.flatMap c.defineMethod ++ [.enterClass none])).Draws ts
  obtain ⟨constructor, here⟩ := defineConstructor_runs hcx h _ rfl
  rw [List.append_assoc, Context.script_append, here, Context.script_append]
  exact constructor.append ((methods _ ⟨none, rfl⟩).1.append .nil)

end Members

end Class

end CppEmission
