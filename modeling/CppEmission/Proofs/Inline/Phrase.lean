import CppEmission.Proofs.Inline.Text

namespace CppEmission

open Grammar

theorem Yields.attach {p : α → Prop} {x : Except Refusal α} (hx : Yields p x) (l : Location) :
    Yields p (l.attach x) := by
  cases x with
  | ok a => exact .ok (hx a rfl)
  | error why => exact .error _

def Conversion.IsInline : Conversion → Prop
  | keep => True
  | prepend token => Inline token
  | append suffix => Sealed suffix
  | call callee => Inline callee

theorem Conversion.cast_isInline {name : String} (h : Inline name) :
    (Conversion.cast name).IsInline :=
  (Inline.append (by decide) h.closed).append (by decide)

theorem Ownership.toHandle_isInline (held : Ownership) (h : Handle) :
    Yields Conversion.IsInline (held.toHandle h) := by
  have address : (Conversion.prepend "&").IsInline := by show Inline "&"; decide
  have get : (Conversion.append ".get()").IsInline := by show Sealed ".get()"; decide
  unfold toHandle
  split
  any_goals exact .error _
  all_goals first | exact .ok address | exact .ok get | exact .ok trivial

theorem ArrayShape.toHandle_isInline (shape : ArrayShape) (h : Handle) :
    Yields Conversion.IsInline (shape.toHandle h) := by
  have data : (Conversion.append ".data()").IsInline := by show Sealed ".data()"; decide
  have get : (Conversion.append ".get()").IsInline := by show Sealed ".get()"; decide
  unfold toHandle
  split
  case h_6 =>
    split
    · exact .ok trivial
    · exact .error _
  any_goals exact .error _
  all_goals first | exact .ok data | exact .ok get | exact .ok trivial

theorem convert_isInline {target : Ty} (h : target.NamesIdentifiers) (e : Expr) :
    Yields Conversion.IsInline (convert target e) := by
  have string : (Conversion.call "std::string").IsInline := by show Inline "std::string"; decide
  have value : (Conversion.prepend "*").IsInline := by show Inline "*"; decide
  unfold convert
  split
  · exact .ok trivial
  split
  case h_1 =>
    split
    · exact .ok trivial
    · exact .ok (Conversion.cast_isInline (IntKind.inline_spelling _))
  case h_2 | h_3 | h_4 => exact .ok (Conversion.cast_isInline (IntKind.inline_spelling _))
  case h_5 | h_6 | h_7 | h_8 => exact .ok (Conversion.cast_isInline (.name h))
  case h_9 =>
    split
    · exact .ok trivial
    · exact .ok (Conversion.cast_isInline (by decide))
  case h_10 =>
    split
    · exact .ok trivial
    · exact .ok string
  case h_11 => exact Ownership.toHandle_isInline _ _
  case h_12 => exact .ok value
  case h_13 => exact ArrayShape.toHandle_isInline _ _
  case h_14 => exact .ok trivial

theorem Phrase.within_inline {p : Phrase} (h : Inline p.text) (parent : Priority) :
    Inline (p.within parent) := by
  rw [Phrase.within]
  split
  · exact .group h.closed
  · exact h

theorem Yields.wrapped {text : String} {level : Priority} {grouped : List Priority}
    {parent : Priority} (h : Inline text) :
    Yields Inline (.ok (Phrase.within ⟨text, level, grouped⟩ parent) : Except EmitError String) :=
  .ok (Phrase.within_inline h parent)

theorem Conversion.around_inline {c : Conversion} {text : Priority → Except EmitError String}
    (hc : c.IsInline) (h : ∀ parent, Yields Inline (text parent)) (parent : Priority) :
    Yields Inline (c.around text parent) := by
  cases c with
  | keep => exact h parent
  | prepend token =>
    exact (h _).bind fun _ ht => .wrapped (Inline.append hc ht.closed)
  | append suffix => exact (h _).bind fun _ ht => .wrapped (ht.append hc)
  | call callee =>
    exact (h _).bind fun _ ht =>
      .wrapped (((Inline.append hc (by decide)).append ht.closed).append (by decide))

structure Operand.IsInline (o : Operand) : Prop where
  ty : o.expr.ty.NamesIdentifiers
  within : ∀ parent, Yields Inline (o.within parent)

namespace Operand.IsInline

variable {o l r : Operand} {parent : Priority}

theorem access (o : Operand) : Sealed o.access := by
  rw [Operand.access]
  split <;> decide

theorem member (h : o.IsInline) {name : String} (hn : Sealed name) :
    Yields Inline (o.member name) :=
  (h.within _).bind fun _ ht => .ok ((ht.append (access o)).append hn)

theorem prefixed (op : PrefixOp) (h : o.IsInline) :
    Yields Inline (Operand.prefixed op o parent) := by
  have spelling : Inline op.spelling := by cases op <;> decide
  refine (h.within _).bind fun inner ht => .wrapped ?_
  refine (spelling.append ?_).append ht.closed
  split <;> decide

theorem postfixed (op : PostfixOp) (h : o.IsInline) :
    Yields Inline (Operand.postfixed op o) := by
  have spelling : Sealed op.spelling := by cases op <;> decide
  exact (h.within _).bind fun inner ht => .ok (ht.append spelling)

theorem spelling (op : BinaryOp) : Sealed op.spelling := by cases op <;> decide

theorem between (op : BinaryOp) (hl : l.IsInline) (hr : r.IsInline) :
    Yields Inline (Operand.between op l r parent) :=
  (hl.within _).bind fun _ ht => (hr.within _).bind fun _ hu => .wrapped <|
    (((ht.append (by decide)).append (spelling op)).append (by decide)).append hu.closed

theorem indexed (hl : l.IsInline) (hr : r.IsInline) :
    Yields Inline (Operand.indexed l r) :=
  (hl.within _).bind fun _ ht => (hr.within _).bind fun _ hu => .ok <|
    ((ht.append (by decide)).append hu.closed).append (by decide)

theorem comparedAsView (op : BinaryOp) (hl : l.IsInline) (hr : r.IsInline) :
    Yields Inline (Operand.comparedAsView op l r parent) :=
  (hl.within _).bind fun _ ht => (hr.within _).bind fun _ hu => .wrapped <|
    (((((Inline.append (by decide) ht.closed).append (by decide)).append (spelling op)).append
      (by decide)).append hu.closed)

theorem appendedAsText (hl : l.IsInline) (hr : r.IsInline) :
    Yields Inline (Operand.appendedAsText l r parent) :=
  (hl.within _).bind fun _ ht => (hr.within _).bind fun _ hu => .wrapped <|
    ((ht.append (by decide)).append hu.closed).append (by decide)

theorem asOwned (h : o.IsInline) : Yields Inline o.asOwned :=
  (h.within _).bind fun _ ht => .ok <| (Inline.append (by decide) ht.closed).append (by decide)

theorem asNumberText (h : o.IsInline) : Yields Inline o.asNumberText :=
  (h.within _).bind fun _ ht => .ok <| (Inline.append (by decide) ht.closed).append (by decide)

theorem leadingSummand (h : o.IsInline) : Yields Inline o.leadingSummand := by
  unfold Operand.leadingSummand
  split
  · exact h.within _
  · exact h.asOwned
  · exact h.asNumberText

theorem trailingSummand (h : o.IsInline) : Yields Inline o.trailingSummand := by
  unfold Operand.trailingSummand
  split
  · exact h.within _
  · split
    · exact h.within _
    · exact h.asOwned
  · exact h.asNumberText

theorem stringSum (hl : l.IsInline) (hr : r.IsInline) :
    Yields Inline (Operand.stringSum l r parent) :=
  hl.leadingSummand.bind fun _ ht => hr.trailingSummand.bind fun _ hu => .wrapped <|
    (ht.append (by decide)).append hu.closed

theorem stringReceiver (h : o.IsInline) : Yields Inline o.stringReceiver := by
  unfold Operand.stringReceiver
  split
  · exact (h.within _).bind fun _ ht => .ok <|
      (Inline.append (by decide) ht.closed).append (by decide)
  · exact h.within _

theorem printable (h : o.IsInline) : Yields Inline o.printable := by
  unfold Operand.printable
  split
  · split
    · exact (h.within _).bind fun _ ht => .ok <|
        (Inline.append (by decide) ht.closed).append (by decide)
    · exact h.within _
  · exact h.within _

end Operand.IsInline

theorem Sealed.joined {texts : List String} (h : ∀ t ∈ texts, Inline t) :
    Sealed (joined texts) := by
  induction texts with
  | nil => decide
  | cons t texts ih =>
    obtain ⟨ht, hts⟩ := List.forall_mem_cons.1 h
    cases texts with
    | nil => simpa [CppEmission.joined] using ht.closed
    | cons u texts =>
      rw [CppEmission.joined, String.intercalate_cons_cons]
      exact (ht.closed.append (by decide)).append (ih hts)

theorem Operand.methodCall_inline {receiver method : String} {args : List String}
    (hr : Inline receiver) (hm : Sealed method) (ha : ∀ t ∈ args, Inline t) :
    Inline (Operand.methodCall receiver method args) :=
  ((((hr.append (by decide)).append hm).append (by decide)).append (.joined ha)).append (by decide)

namespace Context

variable {cx : Context} {o l r : Operand} {t : Ty} {parent : Priority}

theorem typeName_inline (ht : t.NamesIdentifiers) : Yields Inline (cx.typeName t) :=
  (Ty.spelling_inline ht).attach _

theorem coercedWithin_inline (hcx : cx.dialect = .cpp) (ht : t.NamesIdentifiers)
    (ho : o.IsInline) (parent : Priority) : Yields Inline (cx.coercedWithin t o parent) := by
  have conversion : Yields Conversion.IsInline (cx.dialect.convert t o.expr) := by
    rw [hcx]
    exact convert_isInline ht o.expr
  exact (conversion.attach _).bind fun c hc => Conversion.around_inline hc ho.within parent

theorem items_inline (hcx : cx.dialect = .cpp) {elem : Option Ty}
    (he : ∀ t ∈ elem, t.NamesIdentifiers) {os : List Operand} (hos : ∀ o ∈ os, o.IsInline) :
    Yields (fun texts => ∀ text ∈ texts, Inline text) (cx.items elem os) := by
  induction os with
  | nil => exact .ok nofun
  | cons o os ih =>
    obtain ⟨ho, hos⟩ := List.forall_mem_cons.1 hos
    have rest {text : String} (ht : Inline text) :
        Yields (fun texts => ∀ text ∈ texts, Inline text)
          (do return text :: (← cx.items elem os)) :=
      (ih hos).bind fun texts hts => .ok (List.forall_mem_cons.2 ⟨ht, hts⟩)
    cases elem with
    | none => exact (ho.within _).bind fun _ => rest
    | some t => exact (coercedWithin_inline hcx (he t rfl) ho _).bind fun _ => rest

theorem arguments_inline (hcx : cx.dialect = .cpp) {params : List Ty}
    (hp : ∀ t ∈ params, t.NamesIdentifiers) {os : List Operand} (hos : ∀ o ∈ os, o.IsInline) :
    Yields (fun texts => ∀ text ∈ texts, Inline text) (cx.arguments params os) := by
  induction os generalizing params with
  | nil => cases params <;> exact .ok nofun
  | cons o os ih =>
    obtain ⟨ho, hos⟩ := List.forall_mem_cons.1 hos
    cases params with
    | nil =>
      exact (ho.within _).bind fun _ ht => (ih hp hos).bind fun texts hts =>
        .ok (List.forall_mem_cons.2 ⟨ht, hts⟩)
    | cons t params =>
      obtain ⟨ht, hp⟩ := List.forall_mem_cons.1 hp
      exact (coercedWithin_inline hcx ht ho _).bind fun _ ht => (ih hp hos).bind fun texts hts =>
        .ok (List.forall_mem_cons.2 ⟨ht, hts⟩)

theorem declared_inline (hcx : cx.dialect = .cpp) {name : String} (hn : isIdentifier name)
    (ht : t.NamesIdentifiers) {value : Option Operand} (hv : ∀ o ∈ value, o.IsInline) :
    Yields Inline (cx.declared name t value) := by
  refine (typeName_inline ht).bind fun typeName hty => ?_
  have head := (hty.append (by decide : Sealed " ")).append (Inline.escape hn).closed
  cases value with
  | none =>
    refine .ok (head.append ?_)
    rw [Ty.initializer]
    split <;> decide
  | some o =>
    exact (coercedWithin_inline hcx ht (hv o rfl) _).bind fun _ hu => .ok <|
      (head.append (by decide)).append hu.closed

theorem compared_inline (op : BinaryOp) (hl : l.IsInline) (hr : r.IsInline) :
    Yields Inline (cx.compared op l r parent) := by
  unfold compared
  split
  · exact hl.comparedAsView op hr
  · exact hl.between op hr

theorem assignedAsIs_inline (hcx : cx.dialect = .cpp) (op : BinaryOp) (hl : l.IsInline)
    (hr : r.IsInline) : Yields Inline (cx.assignedAsIs op l r parent) := by
  have target {value : String} (hv : Inline value) : Yields Inline (do
      let target ← l.within op.leftPriority
      return Phrase.within ⟨target ++ " " ++ op.spelling ++ " " ++ value, .assign, []⟩ parent) :=
    (hl.within _).bind fun _ ht => .wrapped <| (((ht.append (by decide)).append
      (Operand.IsInline.spelling op)).append (by decide)).append hv.closed
  unfold assignedAsIs
  split
  · exact (coercedWithin_inline hcx hl.ty hr _).bind fun _ => target
  · exact (hr.within _).bind fun _ => target

theorem assigned_inline (hcx : cx.dialect = .cpp) (op : BinaryOp) (hl : l.IsInline)
    (hr : r.IsInline) : Yields Inline (cx.assigned op l r parent) := by
  unfold assigned
  split
  · exact hl.appendedAsText hr
  · exact assignedAsIs_inline hcx op hl hr

theorem concatenated_inline (hl : l.IsInline) (hr : r.IsInline) :
    Yields Inline (cx.concatenated l r parent) := by
  unfold concatenated
  split
  · exact hl.stringSum hr
  · exact hl.between .add hr

theorem binary_inline (hcx : cx.dialect = .cpp) (op : BinaryOp) (hl : l.IsInline)
    (hr : r.IsInline) : Yields Inline (cx.binary t op l r parent) := by
  unfold binary
  split
  · exact assigned_inline hcx op hl hr
  split
  · exact compared_inline op hl hr
  split
  · exact concatenated_inline hl hr
  split
  · exact hl.indexed hr
  · exact hl.between op hr

theorem conditional_inline (hcx : cx.dialect = .cpp) (ht : t.NamesIdentifiers)
    (ho : o.IsInline) (hl : l.IsInline) (hr : r.IsInline) :
    Yields Inline (cx.conditional t o l r parent) :=
  (ho.within _).bind fun _ ht' => (coercedWithin_inline hcx ht hl _).bind fun _ hu =>
    (coercedWithin_inline hcx ht hr _).bind fun _ hv => .wrapped <|
      (((ht'.append (by decide)).append hu.closed).append (by decide)).append hv.closed

theorem element_inline (hcx : cx.dialect = .cpp) (hr : r.IsInline) (ho : o.IsInline) :
    Yields Inline (cx.element r o) := by
  unfold element
  split
  · next elem h =>
    have := hr.ty
    rw [h] at this
    exact coercedWithin_inline (t := elem) hcx this ho _
  · exact ho.within _

theorem texts_inline {os : List Operand} (hos : ∀ o ∈ os, o.IsInline) (parent : Priority) :
    Yields (fun texts => ∀ text ∈ texts, Inline text) (os.mapM (·.within parent)) :=
  .mapM fun o ho => (hos o ho).within parent

theorem stringCall_inline {method : String} (hm : Sealed method) (hr : r.IsInline)
    {os : List Operand} (hos : ∀ o ∈ os, o.IsInline) :
    Yields Inline (stringCall method r os) :=
  hr.stringReceiver.bind fun _ ht => (texts_inline hos _).bind fun _ hts =>
    .ok (Operand.methodCall_inline ht hm hts)

theorem containerCall_inline {method : String} (hm : Sealed method) (hr : r.IsInline)
    {os : List Operand} (hos : ∀ o ∈ os, o.IsInline) :
    Yields Inline (containerCall method r os) :=
  (hr.within _).bind fun _ ht => (texts_inline hos _).bind fun _ hts =>
    .ok (Operand.methodCall_inline ht hm hts)

theorem countCall_inline {note : Note} (hn : note.ty.NamesIdentifiers) {method : String}
    (hm : Sealed method) (hr : r.IsInline) :
    Yields Inline (cx.countCall note method r) :=
  (typeName_inline hn).bind fun _ ht => hr.stringReceiver.bind fun _ hu => .ok <|
    (((((Inline.append (by decide) ht.closed).append (by decide)).append hu.closed).append
      (by decide)).append hm).append (by decide)

theorem extremum_inline (hcx : cx.dialect = .cpp) {note : Note}
    (hn : note.ty.NamesIdentifiers) {function : String} (hf : Inline function) (hl : l.IsInline)
    (hr : r.IsInline) : Yields Inline (cx.extremum note function l r) :=
  (typeName_inline hn).bind fun _ ht => (coercedWithin_inline hcx hn hl _).bind fun _ hu =>
    (coercedWithin_inline hcx hn hr _).bind fun _ hv => .ok <|
      ((((hf.append (by decide)).append ht.closed).append (by decide)).append
        (.joined (by simpa using ⟨hu, hv⟩))).append (by decide)

theorem libraryCall_inline (hcx : cx.dialect = .cpp) {note : Note}
    (hn : note.ty.NamesIdentifiers) (f : Intrinsic) {receiver : Option Operand}
    (hr : ∀ o ∈ receiver, o.IsInline) {args : List Operand} (ha : ∀ o ∈ args, o.IsInline) :
    Yields Inline (cx.libraryCall note f receiver args parent) := by
  unfold libraryCall
  split
  case h_2 | h_3 | h_4 | h_5 => exact stringCall_inline (by decide) (hr _ rfl) ha
  case h_6 | h_7 => exact countCall_inline hn (by decide) (hr _ rfl)
  case h_11 | h_12 | h_14 | h_15 => exact containerCall_inline (by decide) (hr _ rfl) ha
  case h_16 | h_17 =>
    exact extremum_inline hcx hn (by decide) (ha _ (by simp)) (ha _ (by simp))
  case h_21 => exact .error _
  case h_1 r a =>
    exact (hr r rfl).stringReceiver.bind fun _ ht => ((ha a (by simp)).within _).bind fun _ hu =>
      .wrapped <| ((ht.append (by decide)).append hu.closed).append (by decide)
  case h_8 r a =>
    exact ((hr r rfl).within _).bind fun _ ht =>
      (element_inline hcx (hr r rfl) (ha a (by simp))).bind fun _ hu =>
        .ok (Operand.methodCall_inline ht (by decide) (by simpa using hu))
  case h_9 r a b =>
    exact ((hr r rfl).within _).bind fun _ ht => ((ha a (by simp)).within _).bind fun _ hi =>
      (element_inline hcx (hr r rfl) (ha b (by simp))).bind fun _ hu =>
        .ok (Operand.methodCall_inline ht (by decide)
          (by simpa using ⟨(ht.append (by decide : Sealed ".begin() + ")).append hi.closed, hu⟩))
  case h_10 r a =>
    exact ((hr r rfl).within _).bind fun _ ht => ((ha a (by simp)).within _).bind fun _ hi =>
      .ok (Operand.methodCall_inline ht (by decide)
        (by simpa using (ht.append (by decide : Sealed ".begin() + ")).append hi.closed))
  case h_13 r a =>
    refine ((hr r rfl).within _).bind fun list ht =>
      (element_inline hcx (hr r rfl) (ha a (by simp))).bind fun value hu => .wrapped ?_
    have args : Sealed (joined [list ++ ".begin()", list ++ ".end()", value]) := by
      refine .joined ?_
      simpa using ⟨ht.append (by decide : Sealed ".begin()"),
        ht.append (by decide : Sealed ".end()"), hu⟩
    exact (((Inline.append (by decide) args).append (by decide)).append ht.closed).append
      (by decide)
  case h_18 a =>
    exact ((ha a (by simp)).within _).bind fun _ ht => .ok <|
      (Inline.append (by decide) ht.closed).append (by decide)
  case h_19 => exact .wrapped (by decide)
  case h_20 a =>
    exact (ha a (by simp)).printable.bind fun _ ht => .wrapped <|
      (Inline.append (by decide) ht.closed).append (by decide)

theorem construction_inline {note : Note} (hn : note.ty.NamesIdentifiers)
    {length : Option Operand} (hl : ∀ o ∈ length, o.IsInline) :
    Yields Inline (cx.construction note length) := by
  have whole {ending : String} (he : Sealed ending) : Yields Inline (do
      return (← cx.typeName note.ty) ++ ending) :=
    (typeName_inline hn).bind fun _ ht => .ok (ht.append he)
  unfold construction
  split
  case h_1 c _ h =>
    rw [h] at hn
    exact .ok ((Inline.append (by decide) (Inline.name hn).closed).append (by decide))
  case h_2 c _ h =>
    rw [h] at hn
    exact .ok ((Inline.name hn).append (by decide))
  case h_3 elem n h =>
    rw [h] at hn
    exact (typeName_inline (t := elem) hn).bind fun _ ht => ((hl n rfl).within _).bind fun _ hu =>
      .ok <| (((Inline.append (by decide) ht.closed).append (by decide)).append hu.closed).append
        (by decide)
  case h_4 => exact .error _
  case h_5 => exact whole (by decide)
  case h_6 | h_7 => exact whole (by decide)
  case h_8 => exact .error _

theorem qualified_inline {className name : String} (hc : isIdentifier className)
    (hn : Inline name) : Inline (cx.qualified className name) := by
  rw [qualified]
  split
  · exact hn
  · exact ((Inline.name hc).append (by decide)).append hn.closed

end Context

def SymbolKind.owner? : SymbolKind → Option String
  | .field c _ | .constant (some c) | .enumConstant c => some c
  | .localVar | .parameter | .constant none => none

namespace Context

variable {cx : Context}

theorem symbolText_inline {note : Note} {left : Option Operand} (hl : ∀ o ∈ left, o.IsInline)
    {s : Symbol} (hs : isIdentifier s.name) (ho : ∀ c ∈ s.kind.owner?, isIdentifier c) :
    Yields Inline (cx.symbolText note left s) := by
  have name := Inline.escape hs
  have ofClass {c : String} (hc : isIdentifier c) : Inline (c ++ "::" ++ Keyword.escape s.name) :=
    ((Inline.name hc).append (by decide)).append name.closed
  unfold symbolText
  simp only
  split
  case h_1 | h_2 | h_3 | h_4 => exact .ok name
  case h_5 c h | h_6 c h => exact .ok (qualified_inline (ho c (by rw [h]; rfl)) name)
  case h_7 c r h | h_8 c r h => exact .ok (ofClass (ho c (by rw [h]; rfl)))
  case h_9 r h =>
    split
    · exact .error _
    · exact (hl r rfl).member name.closed
  case h_10 c h => exact .ok (ofClass (ho c (by rw [h]; rfl)))

theorem calleeText_inline {f : Signature} (hc : isIdentifier f.className) (hf : isIdentifier f.name)
    {receiver : Option Operand} (hr : ∀ o ∈ receiver, o.IsInline) :
    Yields Inline (cx.calleeText f receiver) := by
  have name := Inline.escape hf
  unfold calleeText
  cases receiver with
  | none =>
    simp only
    split
    · exact .ok (qualified_inline hc name)
    · exact .ok name
  | some r =>
    simp only
    split
    · exact .ok (((Inline.name hc).append (by decide)).append name.closed)
    · exact (hr r rfl).member name.closed

theorem methodCall_inline (hcx : cx.dialect = .cpp) {f : Signature}
    (hc : isIdentifier f.className) (hf : isIdentifier f.name)
    (hp : ∀ t ∈ f.params, t.NamesIdentifiers) {receiver : Option Operand}
    (hr : ∀ o ∈ receiver, o.IsInline) {args : List Operand} (ha : ∀ o ∈ args, o.IsInline) :
    Yields Inline (cx.methodCall f receiver args) :=
  (arguments_inline hcx hp ha).bind fun _ hts => (calleeText_inline hc hf hr).bind fun _ ht =>
    .ok <| ((ht.append (by decide)).append (.joined hts)).append (by decide)

theorem resourceText_inline {note : Note} {name : String} (h : name ≠ "") :
    Yields Inline (cx.resourceText note name) := by
  unfold resourceText
  split
  · exact .ok (.resource h)
  · exact .error _

theorem literal_inline (note : Note) (l : Literal) : Yields Inline (cx.literal note l parent) :=
  ((l.text_inline note.ty).attach _).bind fun _ ht => .wrapped ht

end Context

namespace Expr

mutual

/-- Whatever the expression names has an identifier for its name, and its resources have names. -/
def NamesIdentifiers : Expr → Prop
  | literal note _ | self note | base note => note.ty.NamesIdentifiers
  | symbol note left s =>
    note.ty.NamesIdentifiers ∧ optNamesIdentifiers left ∧ isIdentifier s.name ∧
      ∀ c ∈ s.kind.owner?, isIdentifier c
  | prefixed note _ e | postfixed note _ e => note.ty.NamesIdentifiers ∧ e.NamesIdentifiers
  | binary note _ l r => note.ty.NamesIdentifiers ∧ l.NamesIdentifiers ∧ r.NamesIdentifiers
  | conditional note c t f =>
    note.ty.NamesIdentifiers ∧ c.NamesIdentifiers ∧ t.NamesIdentifiers ∧ f.NamesIdentifiers
  | collection note items => note.ty.NamesIdentifiers ∧ allNamesIdentifiers items
  | varDecl note name ty value =>
    note.ty.NamesIdentifiers ∧ isIdentifier name ∧ ty.NamesIdentifiers ∧ optNamesIdentifiers value
  | call note f receiver args =>
    note.ty.NamesIdentifiers ∧ (isIdentifier f.className ∧ isIdentifier f.name ∧
      ∀ t ∈ f.params, t.NamesIdentifiers) ∧ optNamesIdentifiers receiver ∧ allNamesIdentifiers args
  | intrinsic note _ receiver args =>
    note.ty.NamesIdentifiers ∧ optNamesIdentifiers receiver ∧ allNamesIdentifiers args
  | new note length => note.ty.NamesIdentifiers ∧ optNamesIdentifiers length
  | resource note name => note.ty.NamesIdentifiers ∧ name ≠ ""

def optNamesIdentifiers : Option Expr → Prop
  | none => True
  | some e => e.NamesIdentifiers

def allNamesIdentifiers : List Expr → Prop
  | [] => True
  | e :: rest => e.NamesIdentifiers ∧ allNamesIdentifiers rest

end

theorem NamesIdentifiers.ty {e : Expr} (h : e.NamesIdentifiers) : e.ty.NamesIdentifiers := by
  cases e with
  | literal | self | base => exact h
  | _ => exact h.1

end Expr

namespace Context

variable {cx : Context}

mutual

-- along the recursion of `render`
theorem renders_inline (hcx : cx.dialect = .cpp) : ∀ (e : Expr), e.NamesIdentifiers →
    ∀ parent, Yields Inline (cx.render e parent)
  | .literal note l, _, _ => literal_inline note l
  | .symbol note left s, h, _ =>
    symbolText_inline (operand?_isInline hcx left h.2.1) h.2.2.1 h.2.2.2
  | .self _, _, _ => .ok (by decide)
  | .base note, _, _ => .error _
  | .prefixed _ op e, h, _ => (operand_isInline hcx e h.2).prefixed op
  | .postfixed _ op e, h, _ => (operand_isInline hcx e h.2).postfixed op
  | .binary note op l r, h, _ =>
    binary_inline hcx op (operand_isInline hcx l h.2.1) (operand_isInline hcx r h.2.2)
  | .conditional note c t f, h, _ =>
    conditional_inline hcx h.1 (operand_isInline hcx c h.2.1) (operand_isInline hcx t h.2.2.1)
      (operand_isInline hcx f h.2.2.2)
  | .collection note es, h, _ => by
    have elem : ∀ t ∈ note.ty.elem?, t.NamesIdentifiers := by
      intro t ht
      have := h.1
      revert this
      cases hty : note.ty <;> simp_all [Ty.elem?, Ty.NamesIdentifiers]
    exact (items_inline hcx elem (operands_isInline hcx es h.2)).bind fun _ hts =>
      .ok ((Inline.append (by decide) (.joined hts)).append (by decide))
  | .varDecl _ name ty value, h, _ =>
    declared_inline hcx h.2.1 h.2.2.1 (operand?_isInline hcx value h.2.2.2)
  | .call _ f receiver args, h, _ =>
    methodCall_inline hcx h.2.1.1 h.2.1.2.1 h.2.1.2.2 (operand?_isInline hcx receiver h.2.2.1)
      (operands_isInline hcx args h.2.2.2)
  | .intrinsic note f receiver args, h, _ =>
    libraryCall_inline hcx h.1 f (operand?_isInline hcx receiver h.2.1)
      (operands_isInline hcx args h.2.2)
  | .new note length, h, _ => construction_inline h.1 (operand?_isInline hcx length h.2)
  | .resource note name, h, _ => resourceText_inline h.2

theorem operand_isInline (hcx : cx.dialect = .cpp) (e : Expr) (h : e.NamesIdentifiers) :
    Operand.IsInline ⟨e, cx.render e⟩ :=
  ⟨h.ty, renders_inline hcx e h⟩

theorem operand?_isInline (hcx : cx.dialect = .cpp) : ∀ (e : Option Expr),
    Expr.optNamesIdentifiers e → ∀ o ∈ cx.operand? e, o.IsInline
  | none, _, _, h => nomatch h
  | some e, h, _, rfl => operand_isInline hcx e h

theorem operands_isInline (hcx : cx.dialect = .cpp) : ∀ (es : List Expr),
    Expr.allNamesIdentifiers es → ∀ o ∈ cx.operands es, o.IsInline
  | [], _, _, h => nomatch h
  | e :: rest, h, o, ho => by
    rcases List.mem_cons.1 ho with rfl | ho
    · exact operand_isInline hcx e h.1
    · exact operands_isInline hcx rest h.2 o ho

end

theorem render_inline (hcx : cx.dialect = .cpp) {e : Expr} (h : e.NamesIdentifiers)
    (parent : Priority) : Yields Inline (cx.render e parent) :=
  renders_inline hcx e h parent

theorem coerce_inline (hcx : cx.dialect = .cpp) {t : Ty} (ht : t.NamesIdentifiers) {e : Expr}
    (h : e.NamesIdentifiers) (parent : Priority) : Yields Inline (cx.coerce t e parent) :=
  coercedWithin_inline hcx ht (operand_isInline hcx e h) parent

end Context

end CppEmission
