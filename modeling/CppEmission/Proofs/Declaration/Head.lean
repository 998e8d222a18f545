import CppEmission.Declaration.Class
import CppEmission.Proofs.Outcome

namespace CppEmission

structure ParamHead where
  ty : String
  name : String
  default : Option String

def ParamHead.text (p : ParamHead) : String := p.ty ++ " " ++ p.name

def ParamHead.declaration (p : ParamHead) : String :=
  p.text ++ (p.default.map (" = " ++ ·)).getD ""

structure MethodHead where
  returnTy : String
  name : String
  params : List ParamHead
  qualifier : String

namespace MethodHead

def declaration (h : MethodHead) (kind : MethodKind) : String :=
  kind.declaredPrefix ++ h.returnTy ++ " " ++ h.name ++
    "(" ++ joined (h.params.map (·.declaration)) ++ ")" ++ h.qualifier ++ kind.declaredSuffix ++ ";"

def definition (h : MethodHead) (className : String) : String :=
  h.returnTy ++ " " ++ className ++ "::" ++ h.name ++
    "(" ++ joined (h.params.map (·.text)) ++ ")" ++ h.qualifier

end MethodHead

structure ParamHead.Describes (h : ParamHead) (p : Param) : Prop where
  ty : p.ty.spelling = .ok h.ty
  name : h.name = Keyword.escape p.name
  default : h.default.isSome = p.default.isSome

structure MethodHead.Describes (h : MethodHead) (m : Method) : Prop where
  returnTy : (m.returnTy.map Ty.spelling).getD (.ok "void") = .ok h.returnTy
  name : h.name = Keyword.escape m.name
  params : List.Forall₂ (fun p q => ParamHead.Describes q p) m.params h.params
  qualifier : h.qualifier = m.qualifier

theorem Location.attach_eq_ok {l : Location} {x : Except Refusal α} {a : α} :
    l.attach x = .ok a ↔ x = .ok a := by
  cases x <;> simp

namespace Context

theorem typeName_eq_ok {cx : Context} {t : Ty} {text : String} :
    cx.typeName t = .ok text ↔ t.spelling = .ok text :=
  Location.attach_eq_ok

theorem returnName_eq_ok {cx : Context} {m : Method} {text : String} :
    cx.returnName m = .ok text ↔ (m.returnTy.map Ty.spelling).getD (.ok "void") = .ok text := by
  rw [returnName]
  cases m.returnTy with
  | none => simp
  | some t => exact typeName_eq_ok

theorem paramText_eq_ok {cx : Context} {p : Param} {text : String} :
    cx.paramText p = .ok text ↔
      ∃ ty, p.ty.spelling = .ok ty ∧ ty ++ " " ++ Keyword.escape p.name = text := by
  rw [paramText, bind_eq_ok]
  simp [typeName_eq_ok, pure, Except.pure]

theorem paramTextWithDefault_describes {cx : Context} {p : Param} {text : String}
    (h : cx.paramTextWithDefault p = .ok text) :
    ∃ head : ParamHead, head.Describes p ∧ head.declaration = text := by
  rw [paramTextWithDefault] at h
  obtain ⟨front, hfront, h⟩ := bind_eq_ok.1 h
  obtain ⟨ty, hty, rfl⟩ := paramText_eq_ok.1 hfront
  cases hdefault : p.default with
  | none =>
    rw [hdefault] at h
    cases h
    refine ⟨⟨ty, Keyword.escape p.name, none⟩, ⟨hty, rfl, ?_⟩, String.append_empty⟩
    rw [hdefault]
    rfl
  | some e =>
    rw [hdefault] at h
    obtain ⟨value, -, h⟩ := bind_eq_ok.1 h
    cases h
    refine ⟨⟨ty, Keyword.escape p.name, some value⟩, ⟨hty, rfl, ?_⟩, String.append_assoc.symm⟩
    rw [hdefault]
    rfl

theorem paramsWithDefault_describe {cx : Context} {ps : List Param} {texts : List String}
    (h : List.Forall₂ (fun p t => cx.paramTextWithDefault p = .ok t) ps texts) :
    ∃ heads : List ParamHead, List.Forall₂ (fun p q => ParamHead.Describes q p) ps heads ∧
      heads.map (·.declaration) = texts := by
  induction h with
  | nil => exact ⟨[], .nil, rfl⟩
  | cons hp _ ih =>
    obtain ⟨head, describes, rfl⟩ := paramTextWithDefault_describes hp
    obtain ⟨heads, describe, rfl⟩ := ih
    exact ⟨head :: heads, .cons describes describe, rfl⟩

theorem methodLine_describes {cx : Context} {m : Method} {line : String}
    (h : cx.methodLine m = .ok line) :
    ∃ head : MethodHead, head.Describes m ∧ line = head.declaration m.kind := by
  rw [methodLine] at h
  obtain ⟨returnTy, hreturn, h⟩ := bind_eq_ok.1 h
  obtain ⟨params, hparams, h⟩ := bind_eq_ok.1 h
  obtain ⟨heads, describe, rfl⟩ := paramsWithDefault_describe (mapM_eq_ok.1 hparams)
  cases h
  refine ⟨⟨returnTy, Keyword.escape m.name, heads, m.qualifier⟩, ?_, rfl⟩
  exact ⟨returnName_eq_ok.1 hreturn, rfl, describe, rfl⟩

theorem params_text {cx : Context} {ps : List Param} {heads : List ParamHead}
    {texts : List String} (h : List.Forall₂ (fun p q => ParamHead.Describes q p) ps heads)
    (htexts : List.Forall₂ (fun p t => cx.paramText p = .ok t) ps texts) :
    texts = heads.map (·.text) := by
  induction h generalizing texts with
  | nil =>
    cases htexts
    rfl
  | cons describes _ ih =>
    cases htexts with
    | cons htext htexts =>
      obtain ⟨ty, hty, rfl⟩ := paramText_eq_ok.1 htext
      rw [List.map_cons, ← ih htexts, ParamHead.text, describes.name]
      rw [describes.ty] at hty
      cases hty
      rfl

theorem methodHeader_of_describes {cx : Context} {className header : String} {m : Method}
    {head : MethodHead} (describes : head.Describes m)
    (h : cx.methodHeader className m = .ok header) : header = head.definition className := by
  rw [methodHeader] at h
  obtain ⟨returnTy, hreturn, h⟩ := bind_eq_ok.1 h
  obtain ⟨params, hparams, h⟩ := bind_eq_ok.1 h
  obtain rfl := params_text describes.params (mapM_eq_ok.1 hparams)
  rw [returnName_eq_ok, describes.returnTy] at hreturn
  cases hreturn
  cases h
  rw [MethodHead.definition, describes.name, describes.qualifier]

theorem exists_describes {cx : Context} {m : Method} {className header : String}
    (h : cx.methodHeader className m = .ok header) : ∃ head : MethodHead, head.Describes m := by
  rw [methodHeader] at h
  obtain ⟨returnTy, hreturn, h⟩ := bind_eq_ok.1 h
  obtain ⟨texts, htexts, -⟩ := bind_eq_ok.1 h
  have param {p : Param} {text : String} (h : cx.paramText p = .ok text) :
      ∃ head : ParamHead, head.Describes p := by
    obtain ⟨ty, hty, -⟩ := paramText_eq_ok.1 h
    exact ⟨⟨ty, Keyword.escape p.name, p.default.map fun _ => ""⟩, hty, rfl, by simp⟩
  have params {ps : List Param} {texts : List String}
      (h : List.Forall₂ (fun p t => cx.paramText p = .ok t) ps texts) :
      ∃ heads : List ParamHead, List.Forall₂ (fun p q => ParamHead.Describes q p) ps heads := by
    induction h with
    | nil => exact ⟨[], .nil⟩
    | cons text _ ih =>
      obtain ⟨head, describes⟩ := param text
      obtain ⟨heads, describe⟩ := ih
      exact ⟨head :: heads, .cons describes describe⟩
  obtain ⟨heads, describe⟩ := params (mapM_eq_ok.1 htexts)
  exact ⟨⟨returnTy, Keyword.escape m.name, heads, m.qualifier⟩, returnName_eq_ok.1 hreturn, rfl,
    describe, rfl⟩

end Context

def Method.paramNames (m : Method) : List String := m.params.map (·.name)

def MethodHead.paramNames (h : MethodHead) : List String := h.params.map (·.name)

theorem MethodHead.Describes.paramNames {head : MethodHead} {m : Method} (h : head.Describes m) :
    head.paramNames = m.paramNames.map Keyword.escape := by
  have names {ps : List Param} {heads : List ParamHead}
      (h : List.Forall₂ (fun p q => ParamHead.Describes q p) ps heads) :
      heads.map (·.name) = (ps.map (·.name)).map Keyword.escape := by
    induction h with
    | nil => rfl
    | cons describes _ ih =>
      rw [List.map_cons, ih, describes.name]
      rfl
  exact names h.params

def undefinedEndings : List String := ["= default;", "= delete;", "= 0;"]

def isPlain (line : String) : Bool :=
  !undefinedEndings.any fun ending => ending.toList.isSuffixOf line.toList

theorem isPlain_append {front tail : String}
    (h : ∀ ending ∈ undefinedEndings,
      ¬ ending.toList <:+ tail.toList ∧ ¬ tail.toList <:+ ending.toList) :
    isPlain (front ++ tail) = true := by
  simp only [isPlain, Bool.not_eq_true', List.any_eq_false, List.isSuffixOf_iff_suffix]
  intro ending hending suffix
  rw [String.toList_append] at suffix
  rcases List.suffix_or_suffix_of_suffix suffix (List.suffix_append front.toList tail.toList) with
    h' | h'
  · exact (h ending hending).1 h'
  · exact (h ending hending).2 h'

theorem isPlain_append_of_suffix {front tail : String} (ending : String)
    (hending : ending ∈ undefinedEndings) (h : ending.toList <:+ tail.toList) :
    isPlain (front ++ tail) = false := by
  simp only [isPlain, Bool.not_eq_false', List.any_eq_true, List.isSuffixOf_iff_suffix]
  refine ⟨ending, hending, ?_⟩
  rw [String.toList_append]
  exact h.trans (List.suffix_append _ _)

def MethodKind.ending (kind : MethodKind) (qualifier : String) : String :=
  ")" ++ qualifier ++ kind.declaredSuffix ++ ";"

theorem MethodKind.ending_abstract : ∀ q ∈ ["", " const"],
    "= 0;".toList <:+ (ending .abstract q).toList := by
  decide

theorem MethodKind.ending_of_ne_abstract {kind : MethodKind} (h : kind ≠ .abstract) :
    ∀ q ∈ ["", " const"], ∀ e ∈ undefinedEndings,
      ¬ e.toList <:+ (kind.ending q).toList ∧ ¬ (kind.ending q).toList <:+ e.toList := by
  cases kind with
  | abstract => exact absurd rfl h
  | static | normal | virtual | override | sealed => decide

theorem Method.qualifier_mem (m : Method) : m.qualifier ∈ ["", " const"] := by
  rw [qualifier]
  split <;> simp

namespace MethodHead

theorem declaration_eq_append_ending (h : MethodHead) (kind : MethodKind) : h.declaration kind =
    kind.declaredPrefix ++ h.returnTy ++ " " ++ h.name ++
      "(" ++ joined (h.params.map (·.declaration)) ++ kind.ending h.qualifier := by
  simp only [declaration, MethodKind.ending, String.append_assoc]

theorem isPlain_declaration {h : MethodHead} {m : Method} (describes : h.Describes m) :
    isPlain (h.declaration m.kind) = !m.isAbstract := by
  rw [declaration_eq_append_ending, describes.qualifier]
  by_cases abstract : m.kind = .abstract
  · rw [Method.isAbstract, abstract]
    apply isPlain_append_of_suffix "= 0;" (by decide)
    exact MethodKind.ending_abstract _ m.qualifier_mem
  · rw [isPlain_append (MethodKind.ending_of_ne_abstract abstract _ m.qualifier_mem)]
    simp [Method.isAbstract, abstract]

end MethodHead

namespace Class

theorem isPlain_constructorLine (c : Class) :
    isPlain c.constructorLine = (c.constructor.isSome && !c.isStatic) := by
  rw [constructorLine, String.append_assoc, String.append_assoc]
  cases c.isStatic with
  | true =>
    rw [if_pos rfl, Bool.not_true, Bool.and_false]
    apply isPlain_append_of_suffix "= delete;" (by decide)
    decide
  | false =>
    cases c.constructor with
    | none =>
      apply isPlain_append_of_suffix "= default;" (by decide)
      decide
    | some body =>
      apply isPlain_append
      rw [Option.isSome_some]
      decide

theorem isPlain_destructorLine (c : Class) : isPlain c.destructorLine = false := by
  apply isPlain_append_of_suffix "= default;" (by decide)
  decide

end Class

end CppEmission
