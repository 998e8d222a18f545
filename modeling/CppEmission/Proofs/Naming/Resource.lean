import CppEmission.Proofs.Declaration.Bytes
import CppEmission.Proofs.Grammar.Token

namespace CppEmission

open Grammar

def identifierChar (c : Char) : Char := if c.isAlphanum then c else '_'

theorem identifierChar_plain (c : Char) :
    (identifierChar c).isAlphanum ∨ identifierChar c = '_' := by
  rw [identifierChar]
  split
  case isTrue plain => exact .inl plain
  case isFalse => exact .inr rfl

theorem isWordChar_identifierChar (c : Char) : isWordChar (identifierChar c) := by
  rcases identifierChar_plain c with plain | same
  · rcases Bool.or_eq_true_iff.1 plain with letter | digit
    · simp [isWordChar, isWordStart, letter]
    · simp [isWordChar, digit]
  · rw [same]
    rfl

theorem isWordStart_identifierChar (c : Char) :
    isWordStart (identifierChar c) = !c.isDigit := by
  rw [identifierChar]
  split
  case isTrue plain =>
    rcases Bool.or_eq_true_iff.1 plain with letter | digit
    · have other : c.isDigit = false :=
        Bool.eq_false_iff.2 fun digit => by simp [isAlpha_of_isDigit digit] at letter
      simp [isWordStart, letter, other]
    · rw [isWordStart_of_isDigit digit, digit]
      rfl
  case isFalse other =>
    have other : c.isDigit = false :=
      Bool.eq_false_iff.2 fun digit => other (by simp [Char.isAlphanum, digit])
    rw [other]
    rfl

theorem toList_resourceIdentifier (name : String) :
    (resourceIdentifier name).toList = name.toList.map identifierChar :=
  String.toList_ofList

theorem isIdentifier_resourceIdentifier_iff {name : String} :
    isIdentifier (resourceIdentifier name) ↔
      name.toList.head?.any (!·.isDigit) ∧
        Keyword.isReserved (resourceIdentifier name) = false := by
  rw [isIdentifier, toList_resourceIdentifier]
  cases name.toList with
  | nil => simp
  | cons c cs =>
    have rest : (cs.map identifierChar).all isWordChar :=
      List.all_eq_true.2 (List.forall_mem_map.2 fun c _ => isWordChar_identifierChar c)
    simp [isWordStart_identifierChar, rest]

/-- The units and the expressions of a program know a resource by its identifier. -/
structure Units.Know (units : Units) (dialect : Dialect) (settings : Settings) (p : Program)
    (r : Resource) : Prop where
  declared : ("extern const uint8_t " ++ r.identifier ++ "[" ++ Nat.repr r.bytes.length ++
    "];\n").toList <:+: units.interface.toList
  defined : ∃ level, (String.join
    (resourceLines r.identifier r.bytes settings.indentWidth level)).toList <:+:
      units.implementation.toList
  referenced : ∀ scope note parent,
    Context.render ⟨dialect, p, scope⟩ (.resource note r.name) parent = .ok r.identifier

variable {dialect : Dialect} {settings : Settings} {p : Program} {units : Units} {r : Resource}

theorem Context.render_resource (hr : r ∈ p.resources) (scope : Scope) (note : Note)
    (parent : Priority) :
    Context.render ⟨dialect, p, scope⟩ (.resource note r.name) parent = .ok r.identifier := by
  have known : p.hasResource r.name := List.any_eq_true.2 ⟨r, hr, beq_self_eq_true _⟩
  exact if_pos known

theorem Units.know_of_generate (h : generate dialect settings p = .ok units)
    (hr : r ∈ p.resources) : units.Know dialect settings p r := by
  obtain ⟨rs, hrs, embed⟩ := Units.embed_of_generate h
  have listed := (Program.perm_of_embeddable hrs).mem_iff.2 hr
  exact ⟨embed.declaration_isInfix listed, embed.definition_isInfix listed,
    Context.render_resource hr⟩

/-- A resource is declared, defined and referred to under one identifier, which no other resource
has. It consists of ASCII letters, digits and underscores. It is an identifier unless the name of
the resource is empty or begins with a digit, or the underscores make a reserved word of it. -/
theorem generate_names_resources (h : generate dialect settings p = .ok units) :
    (p.resources.map (·.identifier)).Nodup ∧
    ∀ r ∈ p.resources, units.Know dialect settings p r ∧
      (∀ c ∈ r.identifier.toList, c.isAlphanum ∨ c = '_') ∧
      (isIdentifier r.identifier ↔
        r.name.toList.head?.any (!·.isDigit) ∧ Keyword.isReserved r.identifier = false) := by
  obtain ⟨rs, hrs, -⟩ := Units.embed_of_generate h
  refine ⟨(Program.resources_embeddable hrs).distinct, fun r hr =>
    ⟨Units.know_of_generate h hr, ?_, isIdentifier_resourceIdentifier_iff⟩⟩
  rw [Resource.identifier, toList_resourceIdentifier]
  exact List.forall_mem_map.2 fun c _ => identifierChar_plain c

theorem generate_names_resources_icon :
    let r : Resource := ⟨"ui/icon.png", [1]⟩
    let p : Program := { resources := [r] }
    ∃ units, generate .cpp {} p = .ok units ∧ units.Know .cpp {} p r ∧
      r.identifier = "ui_icon_png" ∧ isIdentifier r.identifier := by
  intro r p
  have embeddable : Embeddable p.resources := ⟨List.forall_mem_singleton.2 nofun, by decide⟩
  obtain ⟨units, h⟩ := generate_of_embeddable rfl embeddable .cpp {}
  obtain ⟨known, -, valid⟩ := (generate_names_resources h).2 r (List.mem_singleton_self r)
  exact ⟨units, h, known, by decide, valid.2 (by decide)⟩

/-- A resource is accepted under a reserved word. -/
theorem generate_names_resources_reserved :
    let r : Resource := ⟨"int", [1]⟩
    let p : Program := { resources := [r] }
    ∃ units, generate .cpp {} p = .ok units ∧ units.Know .cpp {} p r ∧ r.identifier = "int" ∧
      Keyword.isReserved "int" = true ∧ ¬ isIdentifier r.identifier := by
  intro r p
  have embeddable : Embeddable p.resources := ⟨List.forall_mem_singleton.2 nofun, by decide⟩
  obtain ⟨units, h⟩ := generate_of_embeddable rfl embeddable .cpp {}
  have known := Units.know_of_generate h (List.mem_singleton_self r)
  exact ⟨units, h, known, by decide, by decide, by decide⟩

end CppEmission
