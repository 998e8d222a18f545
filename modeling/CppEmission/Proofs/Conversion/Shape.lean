import CppEmission.Proofs.Conversion.Basic

namespace CppEmission

inductive Shape
  | object
  | constPointer
  | pointer
  | sharedPointer
  | inlineArray
  deriving DecidableEq

namespace Shape

/-- A pointer is good where an object is only looked at. -/
inductive Fits : Shape → Shape → Prop
  | same : Fits s s
  | look : Fits pointer constPointer

instance (s expected : Shape) : Decidable (s.Fits expected) :=
  decidable_of_iff (s = expected ∨ s = pointer ∧ expected = constPointer) <| by
    constructor
    · rintro (rfl | ⟨rfl, rfl⟩)
      · exact .same
      · exact .look
    · rintro (_ | _)
      · exact .inl rfl
      · exact .inr ⟨rfl, rfl⟩

def isBorrow : Shape → Bool
  | constPointer | pointer => true
  | object | sharedPointer | inlineArray => false

end Shape

def Handle.shape : Handle → Shape
  | readOnly => .constPointer
  | mutable => .pointer
  | shared => .sharedPointer

def Ownership.shape : Ownership → Shape
  | value => .object
  | ptr h => h.shape

def ArrayShape.shape : ArrayShape → Shape
  | storage _ => .inlineArray
  | pointer h => h.shape

def Ty.shape? : Ty → Option Shape
  | object _ held => some held.shape
  | array _ shape => some shape.shape
  | _ => none

def Shape.spelling (inner : String) : Shape → String
  | object => inner
  | constPointer => "const " ++ inner ++ " *"
  | pointer => inner ++ " *"
  | sharedPointer => "std::shared_ptr<" ++ inner ++ ">"
  | inlineArray => "std::array<" ++ inner ++ ">"

theorem Ownership.spelling_shape (c : String) (held : Ownership) :
    held.shape.spelling c = held.spelling c := by
  cases held with
  | value => rfl
  | ptr h => cases h <;> rfl

theorem ArrayShape.exists_spelling_shape (elem : String) (shape : ArrayShape) :
    ∃ inner, shape.shape.spelling inner = shape.spelling elem := by
  cases shape with
  | storage n =>
    refine ⟨elem ++ ", " ++ Nat.repr n, ?_⟩
    change "std::array<" ++ (elem ++ ", " ++ Nat.repr n) ++ ">" =
      "std::array<" ++ elem ++ ", " ++ Nat.repr n ++ ">"
    simp only [String.append_assoc]
  | pointer h =>
    cases h with
    | readOnly | mutable => exact ⟨elem, rfl⟩
    | shared =>
      refine ⟨elem ++ "[]", ?_⟩
      change "std::shared_ptr<" ++ (elem ++ "[]") ++ ">" = "std::shared_ptr<" ++ elem ++ "[]>"
      simp only [String.append_assoc]
      rfl

theorem Ty.spelling_of_shape? {t : Ty} {s : Shape} (h : t.shape? = some s) :
    Yields (fun name => ∃ inner, s.spelling inner = name) t.spelling := by
  cases t with
  | object c held =>
    cases h
    exact .ok ⟨c, held.spelling_shape c⟩
  | array elem shape =>
    cases h
    intro name spelled
    obtain ⟨text, -, rfl⟩ := map_eq_ok.1 spelled
    exact shape.exists_spelling_shape text
  | _ => cases h

/-- What the text of an expression denotes. The receiver of a method is a pointer whatever its type
says; names, calls, operators and new values are what their types are spelled as. -/
def Expr.shape? : Expr → Option Shape
  | self _ => some .pointer
  | literal .. | base _ | collection .. | varDecl .. | resource .. => none
  | e => e.ty.shape?

inductive Conversion.Turns : Conversion → Shape → Shape → Prop
  | keep : Turns .keep s s
  | address : Turns (.prepend "&") .object .pointer
  | throughConst : Turns (.prepend "*") .constPointer .object
  | through : Turns (.prepend "*") .pointer .object
  | throughShared : Turns (.prepend "*") .sharedPointer .object
  | get : Turns (.append ".get()") .sharedPointer .pointer
  | data : Turns (.append ".data()") .inlineArray .pointer

inductive Ty.ExpectedAs : Ty → Ty → Prop
  | object : ExpectedAs (.object c held) (.object c' held')
  | array : ExpectedAs (.array t shape) (.array u (.pointer h))

/-- In its context the text is that of the expression behind one conversion, which makes it denote
something of the shape. -/
def Context.Denotes (cx : Context) (e : Expr) (parent : Priority) (text : String) (s : Shape) :
    Prop :=
  ∃ own c, e.shape? = some own ∧ Conversion.Turns c own s ∧
    c.around (cx.render e) parent = .ok text

def Conversion.Suits (own expected : Shape) (c : Conversion) : Prop :=
  ∃ s, c.Turns own s ∧ s.Fits expected

theorem Conversion.Turns.suits {c : Conversion} {own s : Shape} (h : c.Turns own s) :
    c.Suits own s := ⟨s, h, .same⟩

theorem Ownership.toHandle_suits (held : Ownership) (h : Handle) :
    Yields (Conversion.Suits held.shape h.shape) (held.toHandle h) := by
  unfold toHandle
  split
  case h_1 => exact .ok ⟨_, .address, .look⟩
  case h_2 => exact .ok ⟨_, .address, .same⟩
  case h_3 => exact .ok ⟨_, .get, .look⟩
  case h_4 => exact .ok ⟨_, .get, .same⟩
  case h_5 => exact .ok ⟨_, .keep, .look⟩
  case h_6 | h_7 => exact .ok ⟨_, .keep, .same⟩
  case h_8 => exact .error _

theorem ArrayShape.toHandle_suits (shape : ArrayShape) (h : Handle) :
    Yields (Conversion.Suits shape.shape h.shape) (shape.toHandle h) := by
  unfold toHandle
  split
  case h_1 => exact .ok ⟨_, .data, .look⟩
  case h_2 => exact .ok ⟨_, .data, .same⟩
  case h_3 => exact .ok ⟨_, .get, .look⟩
  case h_4 => exact .ok ⟨_, .get, .same⟩
  case h_5 => exact .ok ⟨_, .keep, .look⟩
  case h_6 =>
    split
    next same =>
      subst same
      exact .ok ⟨_, .keep, .same⟩
    · exact .error _
  case h_7 => exact .error _

theorem Conversion.deref_suits (h : Handle) :
    (Conversion.prepend "*").Suits h.shape .object := by
  cases h with
  | readOnly => exact Turns.throughConst.suits
  | mutable => exact Turns.through.suits
  | shared => exact Turns.throughShared.suits

theorem convert_suits {e : Expr} {target : Ty} (expected : e.ty.ExpectedAs target) :
    ∃ own asked, e.ty.shape? = some own ∧ target.shape? = some asked ∧
      Yields (Conversion.Suits own asked) (convert target e) := by
  generalize ty : e.ty = t at expected
  cases expected with
  | @object _ held _ held' =>
    refine ⟨held.shape, held'.shape, rfl, rfl, ?_⟩
    cases held' with
    | value =>
      rw [convert_value ty]
      cases held with
      | value => exact .ok Conversion.Turns.keep.suits
      | ptr h => exact .ok (Conversion.deref_suits h)
    | ptr h =>
      rw [convert_pointer ty]
      split
      next same =>
        rw [same.2]
        exact .ok Conversion.Turns.keep.suits
      · exact held.toHandle_suits h
  | @array _ shape _ h =>
    refine ⟨shape.shape, h.shape, rfl, rfl, ?_⟩
    rw [convert_array ty]
    exact shape.toHandle_suits h

namespace Expr

theorem shape?_eq {e : Expr} {own : Shape} (shaped : e.shape?.isSome) (named : e.isSelf = false)
    (h : e.ty.shape? = some own) : e.shape? = some own := by
  cases e with
  | self note => cases named
  | literal | base | collection | varDecl | resource => cases shaped
  | _ => exact h

end Expr

def Conversion.shaping : List Conversion :=
  [.keep, .prepend "&", .prepend "*", .append ".get()", .append ".data()"]

theorem Conversion.Turns.mem_shaping {c : Conversion} {own s : Shape} (h : c.Turns own s) :
    c ∈ Conversion.shaping := by
  cases h <;> decide

theorem Conversion.receiver_inj (parent : Priority) :
    ∀ c ∈ Conversion.shaping, ∀ c' ∈ Conversion.shaping, ∀ text,
      c.around (fun _ => .ok "this") parent = .ok text →
        c'.around (fun _ => .ok "this") parent = .ok text → c = c' := by
  have apart : ∀ c ∈ Conversion.shaping, ∀ c' ∈ Conversion.shaping,
      c.around (fun _ => .ok "this") parent = c'.around (fun _ => .ok "this") parent → c = c' := by
    cases parent <;> decide
  exact fun c mem c' mem' _ h h' => apart c mem c' mem' (h.trans h'.symm)

theorem Conversion.Turns.of_pointer {c : Conversion} {s : Shape} (h : c.Turns .pointer s) :
    c = .keep ∧ s = .pointer ∨ c = .prepend "*" ∧ s = .object := by
  cases h with
  | keep => exact .inl ⟨rfl, rfl⟩
  | through => exact .inr ⟨rfl, rfl⟩

theorem Conversion.suits_pointer_iff {c : Conversion} {expected : Shape} :
    c.Suits .pointer expected ↔
      c = .keep ∧ Shape.pointer.Fits expected ∨ c = .prepend "*" ∧ Shape.object.Fits expected := by
  constructor
  · rintro ⟨s, turns, fits⟩
    rcases turns.of_pointer with ⟨rfl, rfl⟩ | ⟨rfl, rfl⟩
    · exact .inl ⟨rfl, fits⟩
    · exact .inr ⟨rfl, fits⟩
  · rintro (⟨rfl, fits⟩ | ⟨rfl, fits⟩)
    · exact ⟨_, .keep, fits⟩
    · exact ⟨_, .through, fits⟩

theorem Conversion.Suits.receiver_iff {c : Conversion} {own expected : Shape}
    (h : c.Suits own expected) :
    c.Suits .pointer expected ↔ own.isBorrow ∨ own = .sharedPointer ∧ expected = .object := by
  rw [Conversion.suits_pointer_iff]
  obtain ⟨s, turns, fits⟩ := h
  cases turns with
  | keep =>
    cases fits with
    | same => cases own <;> decide
    | look => decide
  | throughConst | through | throughShared =>
    cases fits
    decide
  | address | get | data => cases fits <;> decide

namespace Context

variable {cx : Context} {e : Expr} {parent : Priority}

theorem exists_denotes_receiver_iff {note : Note} {c : Conversion} {text : String}
    {expected : Shape} (mem : c ∈ Conversion.shaping)
    (written : c.around (cx.render (.self note)) parent = .ok text) :
    (∃ s, cx.Denotes (.self note) parent text s ∧ s.Fits expected) ↔
      c.Suits .pointer expected := by
  constructor
  · rintro ⟨s, ⟨own, c', shape, turns, written'⟩, fits⟩
    cases shape
    obtain rfl := Conversion.receiver_inj parent c' turns.mem_shaping c mem _ written' written
    exact ⟨s, turns, fits⟩
  · rintro ⟨s, turns, fits⟩
    exact ⟨s, ⟨_, c, rfl, turns, written⟩, fits⟩

/-- What is written for an object or an array denotes what the expected type is spelled as, or a
pointer where that is one for looking only. The receiver of a method is the exception: it is a
pointer, but it is converted by its type, which has to be a borrow of the class or, shared, to lead
to the object itself. -/
theorem coerced_shape_fits_iff (hcx : cx.dialect.convert = convert) {target : Ty}
    (asked : e.ty.ExpectedAs target) (shaped : e.shape?.isSome) {text : String}
    (h : cx.coerce target e parent = .ok text) :
    Yields (fun name => ∃ expected inner, target.shape? = some expected ∧
      expected.spelling inner = name) target.spelling ∧
    ((∃ s expected, cx.Denotes e parent text s ∧ target.shape? = some expected ∧
      s.Fits expected) ↔
      (e.isSelf → ∃ own, e.ty.shape? = some own ∧
        (own.isBorrow ∨ own = .sharedPointer ∧ target.shape? = some .object))) := by
  obtain ⟨own, expected, hown, hexpected, all⟩ := convert_suits asked
  obtain ⟨c, chosen, written⟩ := (coerce_eq_ok hcx).1 h
  have suits := all c chosen
  have ⟨s, turns, fits⟩ := suits
  refine ⟨(Ty.spelling_of_shape? hexpected).imp fun name ⟨inner, spelled⟩ =>
    ⟨expected, inner, hexpected, spelled⟩, ?_⟩
  simp only [hown, hexpected, Option.some.injEq, existsAndEq, true_and]
  by_cases receiver : e.isSelf
  · cases e with
    | self note =>
      have denotes : (∃ s, cx.Denotes (.self note) parent text s ∧ s.Fits expected) ↔ _ :=
        exists_denotes_receiver_iff turns.mem_shaping written
      simpa [receiver] using denotes.trans suits.receiver_iff
    | _ => cases receiver
  · have shape := Expr.shape?_eq shaped (Bool.eq_false_iff.2 receiver) hown
    exact ⟨fun _ h => absurd h receiver,
      fun _ => ⟨s, ⟨own, c, shape, turns, written⟩, fits⟩⟩

theorem coerced_shape_fits_iff_shared :
    let shared := Expr.symbol ⟨.object "Node" (.ptr .shared), {}⟩ none ⟨"node", .localVar⟩
    let target := Ty.object "Node" (.ptr .readOnly)
    (shared.ty.ExpectedAs target ∧ shared.shape?.isSome ∧
      Context.coerce {} target shared .statement = .ok "node.get()") ∧
      ∃ s expected, Context.Denotes {} shared .statement "node.get()" s ∧
        target.shape? = some expected ∧ s.Fits expected := by
  intro shared target
  have text : Context.coerce {} target shared .statement = .ok "node.get()" := by decide
  have asked : shared.ty.ExpectedAs target := .object
  exact ⟨⟨asked, rfl, text⟩, (coerced_shape_fits_iff rfl asked rfl text).2.2 nofun⟩

/-- The receiver of a method is a pointer also where its type is the class by value, so that the
address that is taken of it there is none of an object. -/
theorem receiver_by_value_misread :
    let this := Expr.self ⟨.object "A" .value, {}⟩
    (this.ty.ExpectedAs (.object "A" (.ptr .mutable)) ∧
      Context.coerce {} (.object "A" (.ptr .mutable)) this .statement = .ok "&this") ∧
      ∀ s, ¬ Context.Denotes {} this .statement "&this" s := by
  intro this
  refine ⟨⟨.object, by decide⟩, ?_⟩
  rintro s ⟨own, c, shape, turns, text⟩
  cases shape
  rcases turns.of_pointer with ⟨rfl, -⟩ | ⟨rfl, -⟩
  · exact absurd text (by decide)
  · exact absurd text (by decide)

end Context

end CppEmission
