import CppEmission.Proofs.Inline.Phrase
import CppEmission.Proofs.Surface.Number
import CppEmission.Proofs.Surface.Operand

namespace CppEmission

open Surface

variable {o l r : Operand} {x y : Part} {cx : Context}

namespace Context

def Listed (texts : List String) (ts : List (Term Name)) : Prop :=
  List.Forall₂ (fun text t => Written text .assign t ∧ t ≠ .nothing) texts ts

theorem Listed.cons {text : String} {t : Term Name} {texts : List String} {ts : List (Term Name)}
    (h : Written text .assign t) (present : t ≠ .nothing) (hs : Listed texts ts) :
    Listed (text :: texts) (t :: ts) := List.Forall₂.cons ⟨h, present⟩ hs

theorem items_listed (hcx : cx.dialect.convert = convert) (elem : Option Ty) {os : List Operand}
    {xs : List Part} (h : List.Forall₂ Operand.Denotes os xs) :
    Yields (Listed · (Part.items elem xs)) (cx.items elem os) := by
  induction h with
  | nil => exact .ok .nil
  | cons ho _ ih =>
    cases elem with
    | none => exact ho.whole.bind fun _ h => ih.bind fun _ hs => .ok (.cons h ho.present hs)
    | some t =>
      exact (ho.coercedWhole hcx t).bind fun _ h => ih.bind fun _ hs =>
        .ok (.cons h (Part.converted_ne_nothing t ho.present) hs)

theorem arguments_listed (hcx : cx.dialect.convert = convert) {os : List Operand} {xs : List Part}
    (h : List.Forall₂ Operand.Denotes os xs) (params : List Ty) :
    Yields (Listed · (Part.arguments params xs)) (cx.arguments params os) := by
  induction h generalizing params with
  | nil => cases params <;> exact .ok .nil
  | cons ho _ ih =>
    cases params with
    | nil =>
      exact ho.whole.bind fun _ h => (ih []).bind fun _ hs => .ok (Listed.cons h ho.present hs)
    | cons t params =>
      exact (ho.coercedWhole hcx t).bind fun _ h => (ih params).bind fun _ hs =>
        .ok (Listed.cons h (Part.converted_ne_nothing t ho.present) hs)

theorem mapM_listed {os : List Operand} {xs : List Part} (h : List.Forall₂ Operand.Denotes os xs) :
    Yields (Listed · (xs.map (·.tree))) (os.mapM (·.within .statement)) := by
  induction h with
  | nil => exact .ok .nil
  | cons ho _ ih =>
    rw [List.mapM_cons]
    exact ho.whole.bind fun _ h => ih.bind fun _ hs => .ok (Listed.cons h ho.present hs)

theorem items_ne_nothing {t : Term Name} (h : t ≠ .nothing) (ts : List (Term Name)) :
    Term.items (t :: ts) ≠ .nothing := by
  show ts.foldl (.between ",") t ≠ .nothing
  induction ts generalizing t with
  | nil => exact h
  | cons u ts ih => exact ih nofun

theorem Listed.written {text : String} {t : Term Name} {texts : List String}
    {ts : List (Term Name)} (hs : Listed (text :: texts) (t :: ts)) :
    Written (joined (text :: texts)) .statement (.items (t :: ts)) := by
  obtain ⟨⟨h, -⟩, hs⟩ := List.forall₂_cons.1 hs
  exact (h.of_le (statement_le _) (by decide)).joined (hs.imp fun _ _ h => h.1)

theorem Listed.call {callee : String} {f : Term Name} {texts : List String} {ts : List (Term Name)}
    (hs : Listed texts ts) (hf : Written callee .primary f) (value : f.isReference = false) :
    Writes ⟨callee ++ "(" ++ joined texts ++ ")", .primary, []⟩ (.call f (.items ts)) := by
  cases hs with
  | nil =>
    have parens : callee ++ "()" = callee ++ "(" ++ joined [] ++ ")" := by
      simp [joined, String.append_assoc]
    rw [← parens]
    exact Writes.callEmpty hf value
  | cons h hs =>
    exact Writes.call hf value (Listed.written (.cons h.1 h.2 hs)) (items_ne_nothing h.2 _)

theorem Listed.list {texts : List String} {ts : List (Term Name)} (hs : Listed texts ts) :
    Writes ⟨"\x7b" ++ joined texts ++ "\x7d", .primary, []⟩ (.list (.items ts)) := by
  cases hs with
  | nil => exact Writes.listEmpty
  | cons h hs => exact Writes.list (Listed.written (.cons h.1 h.2 hs))

theorem typeName_text {t : Ty} : Yields (· = t.text) (cx.typeName t) := by
  intro s hs
  rw [typeName] at hs
  cases spelled : t.spelling with
  | error why =>
    rw [spelled] at hs
    cases hs
  | ok u =>
    rw [spelled] at hs
    cases hs
    exact Ty.text_of_spelling spelled

theorem declared_writes (hcx : cx.dialect.convert = convert) (name : String) (ty : Ty)
    {value : Option Operand} {part : Option Part} (h : Option.Rel Operand.Denotes value part) :
    Yields (fun text => Writes ⟨text, .primary, []⟩
      (.declaration (.type ty) (.plain (Keyword.escape name)) (Part.initial ty part)))
      (cx.declared name ty value) := by
  refine typeName_text.bind fun _ typeName => ?_
  subst typeName
  cases h with
  | none =>
    show Yields _ (.ok (ty.text ++ " " ++ Keyword.escape name ++ ty.initializer))
    rw [Ty.initializer, Part.initial]
    refine .ok ?_
    split
    · exact Writes.declarationEmpty (.type ty) (.plain _)
    · rw [String.append_empty]
      exact Writes.declarationBare (.type ty) (.plain _)
  | some ho =>
    exact (ho.coercedWithin hcx ty _).bind fun _ written =>
      .ok (Writes.declaration (.type ty) (.plain _) written)

theorem qualified_text (className x : String) :
    cx.qualified className x = (cx.ownName className x).text := by
  rw [qualified, ownName]
  split <;> rfl

theorem symbolText_writes {note : Note} {left : Option Operand} {part : Option Part}
    (h : Option.Rel Operand.Denotes left part) (s : Symbol) :
    Yields (fun text => Writes ⟨text, .primary, []⟩ (cx.symbolTree part s))
      (cx.symbolText note left s) := by
  have own (c x : String) :
      Yields (fun text => Writes ⟨text, .primary, []⟩ (.name (cx.ownName c x)))
      (.ok (cx.qualified c x) : Except EmitError String) := by
    rw [qualified_text]
    exact .ok (Writes.name _)
  rcases s with ⟨x, kind⟩
  cases h with
  | none =>
    rcases kind with _ | _ | ⟨c, _ | _⟩ | ⟨_ | c⟩ | e
    case field.true | constant.some => exact own c _
    case enumConstant => exact .ok (Writes.name (.qualified e _))
    all_goals exact .ok (Writes.name (.plain _))
  | @some receiver part ho =>
    rcases kind with _ | _ | ⟨c, _ | _⟩ | ⟨_ | c⟩ | e
    case field.true | constant.some => exact .ok (Writes.name (.qualified c _))
    case enumConstant => exact .ok (Writes.name (.qualified e _))
    case field.false =>
      show Yields _ (if receiver.expr.isBase then _ else _)
      split
      · exact .error _
      · exact ho.member (.plain _)
    all_goals exact .ok (Writes.name (.plain _))

theorem calleeText_written (f : Signature) {receiver : Option Operand} {part : Option Part}
    (h : Option.Rel Operand.Denotes receiver part) :
    Yields (fun text => Written text .primary (cx.calleeTree f part))
      (cx.calleeText f receiver) ∧ (cx.calleeTree f part).isReference = false := by
  have name (x : Name) : Yields (fun text => Written text .primary (.name x))
      (.ok x.text : Except EmitError String) := .ok ((Writes.name x).everywhere _)
  cases h with
  | none =>
    refine ⟨?_, rfl⟩
    show Yields (fun text => Written text .primary (.name _)) (.ok (if f.isStatic then _ else _))
    split
    · rw [qualified_text]
      exact name _
    · exact name (.plain _)
  | @some receiver part ho =>
    rw [calleeText, calleeTree, ho.expr]
    split
    · exact ⟨name (.qualified _ _), rfl⟩
    · exact ⟨(ho.member (.plain _)).imp fun _ written => written.everywhere _, rfl⟩

theorem methodCall_writes (hcx : cx.dialect.convert = convert) (f : Signature)
    {receiver : Option Operand} {part : Option Part}
    (h : Option.Rel Operand.Denotes receiver part) {os : List Operand} {xs : List Part}
    (hs : List.Forall₂ Operand.Denotes os xs) :
    Yields (fun text => Writes ⟨text, .primary, []⟩
      (.call (cx.calleeTree f part) (.items (Part.arguments f.params xs))))
      (cx.methodCall f receiver os) :=
  (arguments_listed hcx hs f.params).bind fun _ listed =>
    (calleeText_written f h).1.bind fun _ callee =>
      .ok (listed.call callee (calleeText_written f h).2)

theorem Listed.calls {receiver : String} {t : Term Name} {texts : List String}
    {ts : List (Term Name)} (hs : Listed texts ts) (h : Written receiver .primary t)
    (value : t.isReference = false) (method : String) :
    Writes ⟨Operand.methodCall receiver method texts, .primary, []⟩ (t.calls method ts) := by
  have callee := Writes.member (a := ".") (by decide) h value (.plain method)
  exact hs.call (callee.everywhere _) rfl

theorem stringCall_writes (method : String) (ho : o.Denotes x) {os : List Operand} {xs : List Part}
    (hs : List.Forall₂ Operand.Denotes os xs) :
    Yields (fun text => Writes ⟨text, .primary, []⟩ (x.stringReceiver.calls method (xs.map (·.tree))))
      (stringCall method o os) :=
  ho.stringReceiver.1.bind fun _ receiver => (mapM_listed hs).bind fun _ listed =>
    .ok (listed.calls receiver ho.stringReceiver.2 method)

theorem containerCall_writes (method : String) (ho : o.Denotes x) {os : List Operand}
    {xs : List Part} (hs : List.Forall₂ Operand.Denotes os xs) :
    Yields (fun text => Writes ⟨text, .primary, []⟩ (x.tree.calls method (xs.map (·.tree))))
      (containerCall method o os) :=
  (ho.within _).bind fun _ receiver => (mapM_listed hs).bind fun _ listed =>
    .ok (listed.calls receiver ho.value method)

theorem countCall_writes (note : Note) (method : String) (ho : o.Denotes x) :
    Yields (fun text => Writes ⟨text, .primary, []⟩
      (.calling (.cast note.ty) [x.stringReceiver.calls method []]))
      (cx.countCall note method o) := by
  obtain ⟨receiver, value⟩ := ho.stringReceiver
  refine typeName_text.bind fun _ typeName => receiver.bind fun _ receiver => .ok ?_
  subst typeName
  have count := Writes.calling (.cast note.ty)
    ((Writes.calls receiver value method).everywhere _) nofun
  have front : ">(" = ">" ++ "(" := by decide
  have close : "())" = "()" ++ ")" := by decide
  exact count.of_text (by simp only [Name.text_cast, front, close, String.append_assoc])

theorem extremum_writes (hcx : cx.dialect.convert = convert) (note : Note) {function : String}
    {name : Name} (text : name.text = function ++ "<" ++ note.ty.text ++ ">") (hl : l.Denotes x)
    (hr : r.Denotes y) :
    Yields (fun text => Writes ⟨text, .primary, []⟩
      (.calling name [x.converted note.ty, y.converted note.ty]))
      (cx.extremum note function l r) := by
  refine typeName_text.bind fun _ typeName => (hl.coercedWhole hcx _).bind fun _ first =>
    (hr.coercedWhole hcx _).bind fun _ second => .ok ?_
  subst typeName
  have listed := Listed.cons first (Part.converted_ne_nothing _ hl.present)
    (.cons second (Part.converted_ne_nothing _ hr.present) .nil)
  have whole := listed.call ((Writes.name name).everywhere _) rfl
  have front : ">(" = ">" ++ "(" := by decide
  exact whole.of_text (by simp only [text, front, String.append_assoc])

theorem position_written {list index : String} (hl : Written list .primary x.tree)
    (value : x.tree.isReference = false) (hi : Written index .multiplicative y.tree) :
    Written (list ++ ".begin() + " ++ index) .assign
      (.between "+" (x.tree.calls "begin" []) y.tree) := by
  have begin := (Writes.calls hl value "begin").everywhere .additive
  have sum : Writes ⟨_ ++ " " ++ "+" ++ " " ++ _, .additive, []⟩ (.between "+" _ _) :=
    Writes.between (by decide) (by decide) (by decide) begin rfl hi
  have text : list ++ ".begin() + " ++ index =
      list ++ "." ++ "begin" ++ "()" ++ " " ++ "+" ++ " " ++ index := by
    have begin : ".begin() + " = "." ++ ("begin" ++ ("()" ++ (" " ++ ("+" ++ " ")))) := by decide
    simp only [begin, String.append_assoc]
  exact (sum.of_text text).loose (by decide)

theorem unequal_writes {left right : String} {t u : Term Name}
    (hl : Writes ⟨left, .primary, []⟩ t) (value : t.isReference = false)
    (hr : Writes ⟨right, .primary, []⟩ u) :
    Writes ⟨left ++ " != " ++ right, .equality, []⟩ (.between "!=" t u) := by
  have whole : Writes ⟨_ ++ " " ++ "!=" ++ " " ++ _, .equality, []⟩ (.between "!=" _ _) :=
    Writes.between (by decide) (by decide) (by decide) (hl.everywhere _) value (hr.everywhere _)
  have op : " != " = " " ++ ("!=" ++ " ") := by decide
  exact whole.of_text (by simp only [op, String.append_assoc])

theorem shift_writes {left right : String} {t u : Term Name} (hl : Written left .shift t)
    (value : t.isReference = false) (hr : Written right .additive u) :
    Writes ⟨left ++ " << " ++ right, .shift, []⟩ (.between "<<" t u) := by
  have whole : Writes ⟨_ ++ " " ++ "<<" ++ " " ++ _, .shift, []⟩ (.between "<<" _ _) :=
    Writes.between (by decide) (by decide) (by decide) hl value hr
  have op : " << " = " " ++ ("<<" ++ " ") := by decide
  exact whole.of_text (by simp only [op, String.append_assoc])

theorem stringContains_writes (hl : l.Denotes x) (hr : r.Denotes y) (p : Priority) :
    Yields (Renders · p (.between "!=" (x.stringReceiver.calls "find" [y.tree])
      (.name (.library .npos)))) (do
        let text ← l.stringReceiver
        let part ← r.within .statement
        let found := text ++ ".find(" ++ part ++ ") != std::string::npos"
        return Phrase.within ⟨found, .equality, []⟩ p) := by
  refine hl.stringReceiver.1.bind fun text receiver => hr.whole.bind fun part whole =>
    .ok (Writes.renders ?_ p)
  have found := Listed.calls (.cons whole hr.present .nil) receiver hl.stringReceiver.2 "find"
  have front : ".find(" = "." ++ ("find" ++ "(") := by decide
  have close : ") != std::string::npos" = ")" ++ (" != " ++ (Name.library .npos).text) := by decide
  have single : joined [part] = part := rfl
  exact (unequal_writes found rfl (Writes.name (.library .npos))).of_text
    (by simp only [Operand.methodCall, front, close, single, String.append_assoc])

theorem listContains_writes (hcx : cx.dialect.convert = convert) (hl : l.Denotes x)
    (hr : r.Denotes y) (p : Priority) :
    Yields (Renders · p (.between "!="
      (.calling (.library .find) [x.tree.calls "begin" [], x.tree.calls "end" [], x.element y])
      (x.tree.calls "end" []))) (do
        let list ← l.within .primary
        let value ← cx.element l r
        let found := "std::find(" ++ joined [list ++ ".begin()", list ++ ".end()", value] ++
          ") != " ++ list ++ ".end()"
        return Phrase.within ⟨found, .equality, []⟩ p) := by
  refine (hl.within _).bind fun list receiver => (hl.element hcx hr).bind fun value elem =>
    .ok (Writes.renders ?_ p)
  have «end» : list ++ "." ++ "end" ++ "()" = list ++ ".end()" := by
    have parts : ".end()" = "." ++ ("end" ++ "()") := by decide
    simp only [parts, String.append_assoc]
  have begin : list ++ "." ++ "begin" ++ "()" = list ++ ".begin()" := by
    have parts : ".begin()" = "." ++ ("begin" ++ "()") := by decide
    simp only [parts, String.append_assoc]
  have first := (Writes.calls receiver hl.value "begin").everywhere .assign
  have last := Writes.calls receiver hl.value "end"
  rw [begin] at first
  rw [«end»] at last
  have found := Listed.call (.cons first nofun (.cons (last.everywhere _) nofun
    (.cons elem (Part.element_ne_nothing x hr.present) .nil)))
    ((Writes.name (.library .find)).everywhere _) rfl
  have front : "std::find(" = (Name.library .find).text ++ "(" := by decide
  have close : ") != " = ")" ++ " != " := by decide
  exact (unequal_writes found rfl last).of_text (by simp only [front, close, String.append_assoc])

theorem libraryCall_writes (hcx : cx.dialect.convert = convert) (note : Note) (f : Intrinsic)
    {receiver : Option Operand} {part : Option Part}
    (h : Option.Rel Operand.Denotes receiver part) {os : List Operand} {xs : List Part}
    (hs : List.Forall₂ Operand.Denotes os xs) (p : Priority) :
    Yields (Renders · p (libraryTree note f part xs)) (cx.libraryCall note f receiver os p) := by
  unfold libraryCall
  split
  case h_1 =>
    obtain ⟨hr⟩ := h
    obtain _ | ⟨ha, _ | _⟩ := hs
    exact stringContains_writes hr ha p
  case h_2 | h_3 =>
    obtain ⟨hr⟩ := h
    obtain _ | ⟨ha, _ | _⟩ := hs
    exact (stringCall_writes _ hr (.cons ha .nil)).imp fun _ written => written.fixed p
  case h_4 | h_5 =>
    obtain ⟨hr⟩ := h
    exact (stringCall_writes _ hr hs).imp fun _ written => written.fixed p
  case h_6 | h_7 =>
    obtain ⟨hr⟩ := h
    obtain _ | _ := hs
    exact (countCall_writes note _ hr).imp fun _ written => written.fixed p
  case h_8 =>
    obtain ⟨hr⟩ := h
    obtain _ | ⟨ha, _ | _⟩ := hs
    exact (hr.within _).bind fun _ receiver => (hr.element hcx ha).bind fun _ elem =>
      .ok ((Listed.calls (.cons elem (Part.element_ne_nothing _ ha.present) .nil) receiver
        hr.value _).fixed p)
  case h_9 =>
    obtain ⟨hr⟩ := h
    obtain _ | ⟨ha, _ | ⟨hb, _ | _⟩⟩ := hs
    exact (hr.within _).bind fun _ receiver => (ha.within _).bind fun _ index =>
      (hr.element hcx hb).bind fun _ elem => .ok ((Listed.calls
        (.cons (position_written receiver hr.value index) nofun
          (.cons elem (Part.element_ne_nothing _ hb.present) .nil)) receiver hr.value _).fixed p)
  case h_10 =>
    obtain ⟨hr⟩ := h
    obtain _ | ⟨ha, _ | _⟩ := hs
    exact (hr.within _).bind fun _ receiver => (ha.within _).bind fun _ index =>
      .ok ((Listed.calls (.cons (position_written receiver hr.value index) nofun .nil) receiver
        hr.value _).fixed p)
  case h_11 | h_12 =>
    obtain ⟨hr⟩ := h
    obtain _ | _ := hs
    exact (containerCall_writes _ hr .nil).imp fun _ written => written.fixed p
  case h_13 =>
    obtain ⟨hr⟩ := h
    obtain _ | ⟨ha, _ | _⟩ := hs
    exact listContains_writes hcx hr ha p
  case h_14 | h_15 =>
    obtain ⟨hr⟩ := h
    obtain _ | ⟨ha, _ | _⟩ := hs
    exact (containerCall_writes _ hr (.cons ha .nil)).imp fun _ written => written.fixed p
  case h_16 =>
    obtain _ | ⟨ha, _ | ⟨hb, _ | _⟩⟩ := hs
    exact (extremum_writes hcx note (Name.text_min _) ha hb).imp fun _ written => written.fixed p
  case h_17 =>
    obtain _ | ⟨ha, _ | ⟨hb, _ | _⟩⟩ := hs
    exact (extremum_writes hcx note (Name.text_max _) ha hb).imp fun _ written => written.fixed p
  case h_18 =>
    obtain _ | ⟨ha, _ | _⟩ := hs
    have front : "std::abs(" = (Name.library .abs).text ++ "(" := by decide
    rw [front]
    exact (ha.within _).bind fun _ value => .ok ((Writes.calling _ value ha.present).fixed p)
  case h_19 =>
    obtain _ | _ := hs
    have stream := (Writes.name (.library .cout)).everywhere .shift
    have whole := shift_writes stream rfl ((Writes.literal "'\\n'").everywhere _)
    exact .ok ((whole.of_text (by decide)).renders p)
  case h_20 =>
    obtain _ | ⟨ha, _ | _⟩ := hs
    have stream := (Writes.name (.library .cout)).everywhere .shift
    refine ha.printable.bind fun value printable => .ok (Writes.renders ?_ p)
    have printed := (shift_writes stream rfl printable).loose (Nat.le_refl _)
    have whole := shift_writes printed rfl ((Writes.literal "'\\n'").everywhere _)
    have front : "std::cout << " = (Name.library .cout).text ++ " << " := by decide
    have close : " << '\\n'" = " << " ++ "'\\n'" := by decide
    exact whole.of_text (by simp only [front, close, String.append_assoc])
  case h_21 => exact .error _

theorem construction_writes (note : Note) {length : Option Operand} {part : Option Part}
    (h : Option.Rel Operand.Denotes length part) :
    Yields (fun text => Writes ⟨text, .primary, []⟩ (constructionTree note.ty part))
      (cx.construction note length) := by
  have bare (x : Name) : Writes ⟨x.text ++ "()", .primary, []⟩ (.calling x []) :=
    Writes.callEmpty ((Writes.name x).everywhere _) rfl
  have whole (t : Ty) : Yields (fun text => Writes ⟨text, .primary, []⟩ (.calling (.type t) [])) (do
      return (← cx.typeName t) ++ "()") :=
    typeName_text.bind fun _ same => .ok (same ▸ bare (.type t))
  unfold construction
  split
  case h_1 c ty =>
    have text : "std::make_shared<" ++ c ++ ">()" = (Name.makeShared c).text ++ "()" := by
      have close : ">()" = ">" ++ "()" := by decide
      rw [close, ← String.append_assoc]
      rfl
    rw [ty]
    exact .ok ((bare (.makeShared c)).of_text text)
  case h_2 c ty =>
    rw [ty]
    exact .ok (bare (.type (.object c .value)))
  case h_3 elem n ty =>
    obtain ⟨hn⟩ := h
    rw [ty]
    refine typeName_text.bind fun _ same => (hn.within _).bind fun _ count => .ok ?_
    subst same
    have brackets : "[]>(" = "[]" ++ (">" ++ "(") := by decide
    exact (Writes.calling (.makeSharedArray elem) count hn.present).of_text
      (by simp only [brackets, Name.text_makeSharedArray, String.append_assoc])
  case h_4 => exact .error _
  case h_5 elem n ty =>
    rw [ty]
    exact typeName_text.bind fun _ same => .ok (same ▸ Writes.braces (.type _))
  case h_6 elem ty =>
    rw [ty]
    exact whole _
  case h_7 k v ty =>
    rw [ty]
    exact whole _
  case h_8 => exact .error _

end Context

theorem signed_writes {magnitude : String} (h : Token.IsNumber magnitude) :
    Writes ⟨"-" ++ magnitude, .unary, []⟩ (.before "-" (.literal magnitude)) := by
  obtain ⟨c, cs, -, text, digit, -⟩ := h
  refine Writes.before (by decide) ((Writes.literal _).everywhere _) rfl fun d hd _ mem => ?_
  have apart : (Grammar.extensions "-").all (!·.isDigit) := by decide
  obtain rfl : c = d := by simpa [text] using hd
  simpa [digit] using List.all_eq_true.1 apart c mem

theorem leastInteger_writes :
    Writes ⟨"INT64_MIN", .unary, []⟩ (.name (.library .leastInteger)) := by
  have below : ∀ op ∈ chains, ∀ q, op ∈ infixes q → q ≤ .unary := by
    intro op hop q
    revert op
    cases q <;> decide
  exact (Writes.name (.library .leastInteger)).lower below (by decide)

theorem integer_writes (v : Int64) (ty : Ty) :
    Writes ⟨integerText v, if v < 0 then .unary else .primary, []⟩ (Literal.tree ty (.int v)) := by
  rw [integerText, Literal.tree]
  by_cases least : v = Int64.minValue
  · subst least
    exact leastInteger_writes
  rw [if_neg least, if_neg least]
  by_cases negative : v < 0
  · rw [if_pos negative, if_pos negative]
    obtain ⟨n, hn⟩ := Int.eq_negSucc_of_lt_zero (Int64.lt_iff_toInt_lt.1 negative)
    rw [hn]
    exact signed_writes (isNumber_repr _)
  · rw [if_neg negative, if_neg negative]
    have positive : 0 ≤ v.toInt := Int.not_lt.1 fun h => negative (Int64.lt_iff_toInt_lt.2 h)
    obtain ⟨n, hn⟩ := Int.eq_ofNat_of_zero_le positive
    rw [hn]
    exact Writes.literal _

theorem float_writes (v : Decimal.Binary64) (ty : Ty) :
    Writes ⟨if ty = .float then v.text ++ "f" else v.text,
      if (Literal.float v).isNegative then .unary else .primary, []⟩
      (Literal.tree ty (.float v)) := by
  have suffixed : (if ty = .float then v.text ++ "f" else v.text) =
      (if v.isNegative then "-" else "") ++ (v.shortest.text Decimal.literalLayout ++
        if ty = .float then "f" else "") := by
    rw [Decimal.Binary64.text]
    split <;> simp [String.append_assoc]
  rw [suffixed, Literal.tree, Literal.isNegative]
  by_cases negative : v.isNegative
  · rw [if_pos negative, if_pos negative, if_pos negative]
    refine signed_writes (isNumber_text _ _ ?_)
    split <;> decide
  · rw [if_neg negative, if_neg negative, if_neg negative, String.empty_append]
    exact Writes.literal _

theorem Literal.text_writes (l : Literal) (ty : Ty) :
    Yields (fun text => Writes ⟨text, l.level, []⟩ (l.tree ty)) (l.text ty) := by
  cases l with
  | null => exact .ok (Writes.literal _)
  | bool b => exact .ok (Writes.literal _)
  | string s => exact .ok (Writes.literal _)
  | int v => exact .ok (by simpa [level, isNegative] using integer_writes v ty)
  | float v =>
    rw [text]
    by_cases finite : v.isFinite
    · rw [if_pos finite]
      exact .ok (float_writes v ty)
    · rw [if_neg finite]
      exact .error _

namespace Context

theorem resourceText_writes (note : Note) (name : String) :
    Yields (fun text => Writes ⟨text, .primary, []⟩ (.name (.plain (resourceIdentifier name))))
      (cx.resourceText note name) := by
  rw [resourceText]
  split
  · exact .ok (Writes.name (.plain _))
  · exact .error _

theorem literal_writes (note : Note) (l : Literal) (p : Priority) :
    Yields (Renders · p (l.tree note.ty)) (cx.literal note l p) :=
  ((l.text_writes note.ty).attach _).bind fun _ writes => .ok (writes.renders p)

end Context

namespace Surface.Term

structure IsValue (t : Term Name) : Prop where
  value : t.isReference = false
  present : t ≠ .nothing

theorem isValue_before (op : PrefixOp) (t : Term Name) : IsValue (.before op.spelling t) :=
  ⟨by cases op <;> rfl, nofun⟩

theorem isValue_between {op : String} (h : op ≠ ",") (t u : Term Name) :
    IsValue (.between op t u) :=
  ⟨by simp [isReference, h], nofun⟩

theorem isValue_infixed (op : BinaryOp) (t u : Term Name) : IsValue (.between op.spelling t u) :=
  isValue_between (by cases op <;> decide) t u

end Surface.Term

open Term (IsValue isValue_between isValue_infixed)

theorem Literal.tree_isValue (l : Literal) (ty : Ty) : (l.tree ty).IsValue := by
  cases l with
  | null | bool | string => exact ⟨rfl, nofun⟩
  | int v =>
    rw [tree]
    split
    · exact ⟨rfl, nofun⟩
    split <;> exact ⟨rfl, nofun⟩
  | float v =>
    rw [tree]
    split <;> exact ⟨rfl, nofun⟩

namespace Context

theorem symbolTree_isValue (part : Option Part) (s : Symbol) : (cx.symbolTree part s).IsValue := by
  unfold symbolTree
  split <;> exact ⟨rfl, nofun⟩

theorem binaryTree_isValue (ty : Ty) (op : BinaryOp) (x y : Part) :
    (cx.binaryTree ty op x y).IsValue := by
  unfold binaryTree
  split
  · unfold assignmentTree
    split
    · exact isValue_between (by decide) _ _
    · exact isValue_infixed op _ _
  split
  · exact isValue_infixed op _ _
  split
  · unfold concatenationTree
    split <;> exact isValue_between (by decide) _ _
  split
  · exact ⟨rfl, nofun⟩
  · exact isValue_infixed op _ _

theorem libraryTree_isValue (note : Note) (f : Intrinsic) (part : Option Part) (xs : List Part) :
    (libraryTree note f part xs).IsValue := by
  unfold libraryTree
  split
  case h_1 | h_12 | h_18 | h_19 => exact isValue_between (by decide) _ _
  all_goals exact ⟨rfl, nofun⟩

theorem constructionTree_isValue (ty : Ty) (part : Option Part) :
    (constructionTree ty part).IsValue := by
  unfold constructionTree
  split <;> exact ⟨rfl, nofun⟩

theorem tree_isValue (e : Expr) : (cx.tree e).IsValue := by
  cases e with
  | literal note l => exact l.tree_isValue note.ty
  | symbol note left s => exact symbolTree_isValue _ s
  | prefixed note op e => exact Term.isValue_before op _
  | binary note op l r => exact binaryTree_isValue _ op _ _
  | intrinsic note f receiver args => exact libraryTree_isValue note f _ _
  | new note length => exact constructionTree_isValue _ _
  | _ => exact ⟨rfl, nofun⟩

mutual

-- along the recursion of `render`
theorem render_writes (hcx : cx.dialect.convert = convert) : ∀ (e : Expr) (p : Priority),
    Yields (Renders · p (cx.tree e)) (cx.render e p)
  | .literal note l, p => literal_writes note l p
  | .symbol _ left s, p =>
    (symbolText_writes (operand?_denotes hcx left) s).imp fun _ writes => writes.fixed p
  | .self _, p => .ok ((Writes.literal _).fixed p)
  | .base _, _ => .error _
  | .prefixed _ op e, p => (operand_denotes hcx e).prefixed op p
  | .postfixed _ op e, p => (operand_denotes hcx e).postfixed op p
  | .binary note op l r, _ =>
    binary_writes hcx note.ty op (operand_denotes hcx l) (operand_denotes hcx r)
  | .conditional note c t f, _ =>
    conditional_writes hcx note.ty (operand_denotes hcx c) (operand_denotes hcx t)
      (operand_denotes hcx f)
  | .collection note es, p =>
    (items_listed hcx note.ty.elem? (operands_denote hcx es)).bind fun _ listed =>
      .ok (listed.list.fixed p)
  | .varDecl _ x ty value, p =>
    (declared_writes hcx x ty (operand?_denotes hcx value)).imp fun _ writes => writes.fixed p
  | .call _ f receiver args, p =>
    (methodCall_writes hcx f (operand?_denotes hcx receiver) (operands_denote hcx args)).imp
      fun _ writes => writes.fixed p
  | .intrinsic note f receiver args, p =>
    libraryCall_writes hcx note f (operand?_denotes hcx receiver) (operands_denote hcx args) p
  | .new note length, p =>
    (construction_writes note (operand?_denotes hcx length)).imp fun _ writes => writes.fixed p
  | .resource note name, p => (resourceText_writes note name).imp fun _ writes => writes.fixed p

theorem operand_denotes (hcx : cx.dialect.convert = convert) (e : Expr) :
    Operand.Denotes ⟨e, cx.render e⟩ ⟨e, cx.tree e⟩ :=
  ⟨rfl, render_writes hcx e, (tree_isValue e).value, (tree_isValue e).present⟩

theorem operand?_denotes (hcx : cx.dialect.convert = convert) : ∀ (e : Option Expr),
    Option.Rel Operand.Denotes (cx.operand? e) (cx.part? e)
  | none => .none
  | some e => .some (operand_denotes hcx e)

theorem operands_denote (hcx : cx.dialect.convert = convert) : ∀ (es : List Expr),
    List.Forall₂ Operand.Denotes (cx.operands es) (cx.parts es)
  | [] => .nil
  | e :: rest => .cons (operand_denotes hcx e) (operands_denote hcx rest)

end

end Context

end CppEmission
