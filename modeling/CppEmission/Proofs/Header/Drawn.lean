import CppEmission.Proofs.Header.Listing

namespace CppEmission

open Surface

namespace Composed

variable {ts us : List (Term Name)} {text text' : String} {t : Term Name}

theorem written {p : Priority} (h : Written text p t) (mem : t ∈ ts) : Composed ts text :=
  .term mem h.spells

theorem name {x : Name} (mem : .name x ∈ ts) : Composed ts x.text :=
  .term mem (Writes.name x).spells

theorem between {separator : String} (h : Composed ts text) (own : IsOwnText separator)
    (h' : Composed ts text') : Composed ts (text ++ separator ++ text') :=
  (h.append (.own own)).append h'

theorem intercalate {separator : String} (own : IsOwnText separator) {texts : List String}
    (h : ∀ text ∈ texts, Composed ts text) : Composed ts (String.intercalate separator texts) := by
  cases texts with
  | nil => exact .own (by decide : IsOwnText "")
  | cons text texts =>
    induction texts generalizing text with
    | nil => exact h text List.mem_cons_self
    | cons next texts ih =>
      obtain ⟨first, rest⟩ := List.forall_mem_cons.1 h
      rw [String.intercalate_cons_cons]
      exact first.between own (ih next rest)

theorem joined {texts : List String} (h : ∀ text ∈ texts, Composed ts text) :
    Composed ts (joined texts) := .intercalate (by decide) h

end Composed

def Script.Draws (ts : List (Term Name)) (s : Script) : Prop := ∀ op ∈ s.ops, op.Draws ts

namespace Script.Draws

variable {ts : List (Term Name)} {s s' : Script} {text : String}

theorem nil : Draws ts {} := nofun

theorem fail (e : EmitError) : Draws ts (.fail e) := nofun

theorem op {o : Writer.Op} (h : o.Draws ts) : Draws ts (.op o) := by
  rintro _ (_ | ⟨_, ⟨⟩⟩)
  exact h

theorem line (h : Composed ts text) : Draws ts (.line text) := op (.line h)

theorem append (h : s.Draws ts) (h' : s'.Draws ts) : (s ++ s').Draws ts := by
  cases fault : s.fault with
  | some e => rwa [append_of_fault fault]
  | none =>
    rw [append_of_complete fault]
    exact List.forall_mem_append.2 ⟨h, h'⟩

theorem openBlock (h : Composed ts text) : Draws ts (.openBlock text) := op (.openBlock h)

theorem closeBlock : Draws ts .closeBlock := op (.closeBlockWith (.own (by decide)))

theorem block (h : Composed ts text) (hs : s.Draws ts) : Draws ts (.block text s) :=
  ((openBlock h).append hs).append closeBlock

theorem concat {ss : List Script} (h : ∀ s ∈ ss, s.Draws ts) : Draws ts (.concat ss) := by
  induction ss with
  | nil => exact nil
  | cons s ss ih =>
    obtain ⟨hs, hss⟩ := List.forall_mem_cons.1 h
    exact hs.append (ih hss)

theorem after {α : Type} {p : α → Prop} {x : Except EmitError α} {k : α → Script}
    (hx : Yields p x) (hk : ∀ a, p a → (k a).Draws ts) : Draws ts (.after x k) := by
  cases x with
  | ok a => exact hk a (hx a rfl)
  | error e => exact fail e

end Script.Draws

namespace Context

variable {cx : Context} {ts : List (Term Name)}

section Lines

variable (hcx : cx.dialect.convert = convert)

theorem typeName_composed {t : Ty} (mem : typeTerm t ∈ ts) :
    Yields (Composed ts) (cx.typeName t) :=
  typeName_text.imp fun _ same => same ▸ .name mem

theorem name_composed {x : String} (mem : nameTerm x ∈ ts) : Composed ts x := .name (x := .plain x) mem

include hcx

theorem render_composed {e : Expr} (mem : cx.tree e ∈ ts) (p : Priority) :
    Yields (Composed ts) (cx.render e p) :=
  ((operand_denotes hcx e).within p).imp fun _ written => .written written mem

theorem coerce_composed {t : Ty} {e : Expr} (mem : cx.convertedTree t e ∈ ts) (p : Priority) :
    Yields (Composed ts) (cx.coerce t e p) :=
  ((operand_denotes hcx e).coercedWithin hcx t p).imp fun _ written => .written written mem

theorem statementText_composed {e : Expr} (mem : cx.tree e ∈ ts) :
    Yields (Composed ts) (cx.statementText e) :=
  (render_composed hcx mem _).bind fun _ text => .ok (text.append (.own (by decide)))

theorem optionalText_composed {e : Option Expr} (sub : e.toList.map cx.tree ⊆ ts) :
    Yields (fun text => Composed ts (text.getD "") ∧
      Composed ts ((text.map (" " ++ ·)).getD "")) (cx.optionalText e) := by
  have nothing : Composed ts "" := .own (by decide)
  cases e with
  | none => exact .ok ⟨nothing, nothing⟩
  | some e =>
    exact (render_composed hcx (sub List.mem_cons_self) _).map fun text h =>
      ⟨h, .append (.own (by decide)) h⟩

theorem forHeader_composed {init test advance : Option Expr}
    (sub : (init.toList ++ test.toList ++ advance.toList).map cx.tree ⊆ ts) :
    Yields (Composed ts) (cx.forHeader init test advance) := by
  simp only [List.map_append, List.append_subset] at sub
  refine (optionalText_composed hcx sub.1.1).bind fun _ first =>
    (optionalText_composed hcx sub.1.2).bind fun _ second =>
      (optionalText_composed hcx sub.2).bind fun _ third => .ok ?_
  have front : Composed ts "for (" := .own (by decide)
  exact (((front.append first.1).between (by decide) second.2).between (by decide)
    third.2).append (.own (by decide))

theorem foreachHeader_composed {element : VarDecl} {value : Option VarDecl} {collection : Expr}
    {body : Stmt} (sub : (Stmt.foreach element value collection body).terms cx ⊆ ts) :
    Yields (Composed ts) (cx.foreachHeader element value collection) := by
  simp only [Stmt.terms, List.append_subset, List.cons_subset] at sub
  obtain ⟨⟨range, name, rest⟩, -⟩ := sub
  rw [foreachHeader]
  split
  · exact .error _
  refine (render_composed hcx range _).bind fun _ range => ?_
  have name := name_composed name
  cases value with
  | some v =>
    have second := name_composed (rest List.mem_cons_self)
    have front : Composed ts "for (const auto &[" := .own (by decide)
    exact .ok ((((front.append name).between (by decide) second).between (by decide)
      range).append (.own (by decide)))
  | none =>
    dsimp only at rest ⊢
    split at rest
    · next byValue =>
      rw [if_pos byValue]
      refine (typeName_composed (rest List.mem_cons_self)).bind fun _ type => .ok ?_
      have front : Composed ts "for (" := .own (by decide)
      exact (((front.append type).between (by decide) name).between (by decide) range).append
        (.own (by decide))
    · next byReference =>
      rw [if_neg byReference]
      have front : Composed ts "for (auto &" := .own (by decide)
      exact .ok (((front.append name).between (by decide) range).append (.own (by decide)))

theorem returnLine_composed {value : Option Expr} (sub : (Stmt.ret value).terms cx ⊆ ts) :
    Yields (Composed ts) (cx.returnLine value) := by
  have line {text : String} (h : Composed ts text) : Composed ts ("return " ++ text ++ ";") :=
    (Composed.append (.own (by decide)) h).append (.own (by decide))
  cases value with
  | none => exact .ok (.own (by decide))
  | some e =>
    rw [Stmt.terms] at sub
    rw [returnLine]
    cases returns : cx.scope.returnTy? with
    | none =>
      rw [returns] at sub
      exact (render_composed hcx (sub List.mem_cons_self) _).bind fun _ text => .ok (line text)
    | some t =>
      rw [returns] at sub
      exact (coerce_composed hcx (sub List.mem_cons_self) _).bind fun _ text => .ok (line text)

theorem raiseLine_composed {message : Expr} (sub : (Stmt.raise message).terms cx ⊆ ts) :
    Yields (Composed ts) (cx.raiseLine message) := by
  have denotes := operand_denotes hcx message
  refine (denotes.coercedWithin hcx (.string .storage) .statement).bind fun text written => .ok ?_
  have error := Writes.calling (.library .runtimeError) written
    (Part.converted_ne_nothing _ denotes.present)
  have whole : "throw std::runtime_error(" ++ text ++ ");" =
      "throw " ++ ((Name.library .runtimeError).text ++ "(" ++ text ++ ")") ++ ";" := by
    have front : "throw std::runtime_error(" =
        "throw " ++ ((Name.library .runtimeError).text ++ "(") := by decide
    have close : ");" = ")" ++ ";" := by decide
    simp only [front, close, String.append_assoc]
  rw [whole]
  exact (Composed.append (.own (by decide))
    (.term (sub List.mem_cons_self) error.spells)).append (.own (by decide))

theorem constantLine_composed {place : ConstantPlace} {c : Constant} (sub : c.terms cx ⊆ ts) :
    Yields (Composed ts) (cx.constantLine place c) := by
  have keyword : IsOwnText place.keyword := by cases place <;> decide
  rw [Constant.terms] at sub
  rw [constantLine]
  cases literal : c.ty.ofConstant? with
  | none => exact .error _
  | some t =>
    rw [literal] at sub
    simp only [List.cons_subset] at sub
    exact (typeName_composed sub.1).bind fun _ type =>
      (coerce_composed hcx sub.2.2.1 _).bind fun _ value => .ok
        (((((Composed.own keyword).between (by decide) type).between (by decide)
          (name_composed sub.2.1)).between (by decide) value).append (.own (by decide)))

theorem caseLabel_draws {value : Expr} (mem : cx.tree value ∈ ts) :
    (cx.caseLabel value).Draws ts :=
  .after (render_composed hcx mem _) fun _ text => .op (.outdentedLine
    ((Composed.append (.own (by decide)) text).append (.own (by decide))))

theorem branchTest_composed {value : Expr} {labels : List Expr}
    (sub : labels.map (fun l => cx.comparisonTree .eq (cx.part value) (cx.part l)) ⊆ ts) :
    Yields (Composed ts) (cx.branchTest value labels) := by
  refine (Yields.mapM (q := Composed ts) fun l hl => ?_).bind fun _ tests =>
    .ok (.intercalate (by decide) tests)
  have denotes : Yields (Renders · .condOr (cx.comparisonTree .eq (cx.part value) (cx.part l)))
      (cx.compared .eq (cx.operand value) (cx.operand l) .condOr) :=
    compared_writes rfl (operand_denotes hcx value) (operand_denotes hcx l)
  exact denotes.imp fun _ renders => .written renders.written (sub (List.mem_map_of_mem hl))

end Lines

end Context

theorem Stmt.exitLine_own (fallsThrough : Bool) (body : List Stmt) :
    ∀ text ∈ exitLine fallsThrough body, IsOwnText text := by
  rw [exitLine]
  split
  · rintro _ ⟨⟩
    decide
  split
  · rintro _ ⟨⟩
    decide
  · exact nofun

theorem Script.Draws.branch {ts : List (Term Name)} {body : Script} {exit : Option String}
    (h : body.Draws ts) (declares : Bool) (own : ∀ text ∈ exit, IsOwnText text) :
    (Script.branch declares body exit).Draws ts := by
  have enclosed {s : Script} (hs : s.Draws ts) :
      (if declares then Script.block "" s else s).Draws ts := by
    split
    · exact .block (.own (by decide)) hs
    · exact hs
  cases exit with
  | none => exact enclosed (h.append .nil)
  | some text => exact enclosed (h.append (.line (.own (own text rfl))))

namespace Context

variable {cx : Context} {ts : List (Term Name)}

theorem elseIf_draws {test : String} (h : Composed ts test) :
    (Script.line ("\x7d else if (" ++ test ++ ") \x7b")).Draws ts :=
  .line ((Composed.append (.own (by decide)) h).append (.own (by decide)))

theorem else_draws : (Script.line "\x7d else \x7b").Draws ts := .line (.own (by decide))

theorem headed {front close text : String} (own : IsOwnText front) (own' : IsOwnText close)
    (h : Composed ts text) : Composed ts (front ++ text ++ close) :=
  ((Composed.own own).append h).append (.own own')

mutual

-- along the recursion of `emit`
theorem emit_draws (hcx : cx.dialect.convert = convert) (bare : Bool) : ∀ (s : Stmt),
    s.terms cx ⊆ ts → (cx.emit bare s).Draws ts
  | .expr e, sub => by
    rw [emit]
    exact .after (statementText_composed hcx (sub List.mem_cons_self)) fun _ => .line
  | .block body, sub => by
    have inner := emitAll_draws hcx body sub
    rw [emit]
    split
    · exact inner
    · exact .block (.own (by decide)) inner
  | .ifElse test thenDo elseDo, sub => by
    rw [Stmt.terms, List.append_subset, List.cons_subset] at sub
    rw [emit]
    exact .after (render_composed hcx sub.1.1 _) fun _ text =>
      ((Script.Draws.openBlock (headed (by decide) (by decide) text)).append
        (emit_draws hcx true thenDo sub.1.2)).append (emitElse_draws hcx elseDo sub.2)
  | .whileLoop test body, sub => by
    rw [Stmt.terms, List.cons_subset] at sub
    rw [emit]
    exact .after (render_composed hcx sub.1 _) fun _ text =>
      .block (headed (by decide) (by decide) text) (emit_draws hcx true body sub.2)
  | .doWhile body test, sub => by
    rw [Stmt.terms, List.cons_subset] at sub
    rw [emit]
    exact ((Script.Draws.openBlock (.own (by decide))).append
      (emit_draws hcx true body sub.2)).append (.after (render_composed hcx sub.1 _)
        fun _ text => .op (.closeBlockWith (headed (by decide) (by decide) text)))
  | .forLoop init test advance body, sub => by
    rw [Stmt.terms, List.append_subset] at sub
    rw [emit]
    exact .after (forHeader_composed hcx sub.1) fun _ header =>
      .block header (emit_draws hcx true body sub.2)
  | .foreach element value collection body, sub => by
    have inner : body.terms cx ⊆ ts := by
      simp only [Stmt.terms, List.append_subset] at sub
      exact sub.2
    rw [emit]
    exact .after (foreachHeader_composed hcx sub) fun _ header =>
      .block header (emit_draws hcx true body inner)
  | .switch value cases default, sub => by
    rw [Stmt.terms, List.append_subset, List.cons_subset] at sub
    obtain ⟨⟨test, branches⟩, rest⟩ := sub
    rw [emit]
    split
    · next lowered =>
      exact (emitTests_draws hcx value lowered false cases branches).append
        (emitOtherwise_draws hcx value _ default rest)
    · next kept =>
      exact .after (render_composed hcx test _) fun _ text =>
        .block (headed (by decide) (by decide) text)
          ((emitCases_draws hcx value kept cases branches).append
            (emitDefault_draws hcx default rest))
  | .breakOut, _ | .continueLoop, _ => by
    rw [emit]
    exact .line (.own (by decide))
  | .ret value, sub => by
    rw [emit]
    exact .after (returnLine_composed hcx sub) fun _ => .line
  | .raise message, sub => by
    rw [emit]
    exact .after (raiseLine_composed hcx sub) fun _ => .line
  | .native text, _ => by
    rw [emit]
    exact .op .raw
  | .constant c, sub => by
    rw [emit]
    exact .after (constantLine_composed hcx sub) fun _ => .line

theorem emitAll_draws (hcx : cx.dialect.convert = convert) : ∀ (body : List Stmt),
    Stmt.allTerms cx body ⊆ ts → (cx.emitAll body).Draws ts
  | [], _ => by
    rw [emitAll]
    exact .nil
  | s :: rest, sub => by
    rw [Stmt.allTerms, List.append_subset] at sub
    rw [emitAll]
    exact (emit_draws hcx false s sub.1).append (emitAll_draws hcx rest sub.2)

theorem emitElse_draws (hcx : cx.dialect.convert = convert) : ∀ (s : Option Stmt),
    Stmt.optTerms cx s ⊆ ts → (cx.emitElse s).Draws ts
  | none, _ => by
    rw [emitElse]
    exact .closeBlock
  | some s, sub => by
    cases s with
    | ifElse test thenDo elseDo =>
      rw [Stmt.optTerms, Stmt.terms, List.append_subset, List.cons_subset] at sub
      rw [emitElse]
      exact (Script.Draws.op .dedent).append (.after (render_composed hcx sub.1.1 _) fun _ text =>
        (((elseIf_draws text).append (.op .indent)).append
          (emit_draws hcx true thenDo sub.1.2)).append (emitElse_draws hcx elseDo sub.2))
    | _ =>
      exact ((((Script.Draws.op .dedent).append else_draws).append (.op .indent)).append
        (emit_draws hcx true _ sub)).append .closeBlock

theorem emitCases_draws (hcx : cx.dialect.convert = convert) (value : Expr)
    (kept : ¬ (value.ty.isString && !cx.dialect.stringSwitch) = true) :
    ∀ (cases : List (Case Stmt)), Stmt.casesTerms cx value cases ⊆ ts →
      (cx.emitCases cases).Draws ts
  | [], _ => by
    rw [emitCases]
    exact .nil
  | ⟨values, body, fallsThrough⟩ :: rest, sub => by
    rw [Stmt.casesTerms, List.append_subset, List.append_subset] at sub
    obtain ⟨⟨labels, inner⟩, others⟩ := sub
    rw [emitCases]
    refine ((Script.Draws.concat fun s hs => ?_).append
      ((emitAll_draws hcx body inner).branch _ (Stmt.exitLine_own _ _))).append
      (emitCases_draws hcx value kept rest others)
    obtain ⟨label, mem, rfl⟩ := List.mem_map.1 hs
    have term := labels (List.mem_map_of_mem mem)
    rw [labelTerm, if_neg kept] at term
    exact caseLabel_draws hcx term

theorem emitDefault_draws (hcx : cx.dialect.convert = convert) : ∀ (body : Option (List Stmt)),
    Stmt.defaultTerms cx body ⊆ ts → (cx.emitDefault body).Draws ts
  | none, _ => by
    rw [emitDefault]
    exact .nil
  | some body, sub => by
    rw [emitDefault]
    exact (Script.Draws.op (.outdentedLine (.own (by decide)))).append
      ((emitAll_draws hcx body sub).branch _ (Stmt.exitLine_own _ _))

theorem emitStripped_draws (hcx : cx.dialect.convert = convert) : ∀ (body : List Stmt),
    Stmt.allTerms cx body ⊆ ts → (cx.emitStripped body).Draws ts
  | [], _ => by
    rw [emitStripped]
    exact .nil
  | [s], sub => by
    rw [Stmt.allTerms, Stmt.allTerms, List.append_nil] at sub
    cases s with
    | breakOut => exact .nil
    | block body => exact .block (.own (by decide)) (emitStripped_draws hcx body sub)
    | _ => exact emit_draws hcx false _ sub
  | s :: t :: rest, sub => by
    rw [Stmt.allTerms, List.append_subset] at sub
    rw [emitStripped]
    exact (emit_draws hcx false s sub.1).append (emitStripped_draws hcx (t :: rest) sub.2)

theorem emitTests_draws (hcx : cx.dialect.convert = convert) (value : Expr)
    (lowered : (value.ty.isString && !cx.dialect.stringSwitch) = true) (opened : Bool) :
    ∀ (cases : List (Case Stmt)), Stmt.casesTerms cx value cases ⊆ ts →
      (cx.emitTests value opened cases).Draws ts
  | [], _ => by
    rw [emitTests]
    exact .nil
  | ⟨values, body, fallsThrough⟩ :: rest, sub => by
    rw [Stmt.casesTerms, List.append_subset, List.append_subset] at sub
    obtain ⟨⟨labels, inner⟩, others⟩ := sub
    have tests : values.map (fun l => cx.comparisonTree .eq (cx.part value) (cx.part l)) ⊆ ts := by
      have same : cx.labelTerm value = fun l =>
          cx.comparisonTree .eq (cx.part value) (cx.part l) := by
        funext l
        rw [labelTerm, if_pos lowered]
      rwa [same] at labels
    rw [emitTests]
    split
    · exact .fail _
    split
    · exact .fail _
    refine ((Script.Draws.after (branchTest_composed hcx tests) fun _ text => ?_).append
      (emitStripped_draws hcx body inner)).append
      (emitTests_draws hcx value lowered true rest others)
    split
    · exact ((Script.Draws.op .dedent).append (elseIf_draws text)).append (.op .indent)
    · exact .openBlock (headed (by decide) (by decide) text)

theorem emitOtherwise_draws (hcx : cx.dialect.convert = convert) (value : Expr) (opened : Bool) :
    ∀ (body : Option (List Stmt)), Stmt.defaultTerms cx body ⊆ ts →
      (cx.emitOtherwise value opened body).Draws ts
  | none, _ => by
    rw [emitOtherwise]
    split
    · exact .closeBlock
    · exact .nil
  | some body, sub => by
    rw [emitOtherwise]
    split
    · exact .fail _
    refine (Script.Draws.append ?_ (emitStripped_draws hcx body sub)).append .closeBlock
    split
    · exact ((Script.Draws.op .dedent).append else_draws).append (.op .indent)
    · exact .openBlock (.own (by decide))

end

end Context

end CppEmission
