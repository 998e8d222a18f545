import CppEmission.Proofs.Surface.Legible
import CppEmission.Proofs.Surface.Grouping

/-! The texts of expressions have one reading, in which what an expression is put together from is
an operand of it. -/

namespace CppEmission

open Surface

namespace Surface

def Parses (text : String) (p : Priority) (t : Term String) : Prop :=
  ∃ ts, Token.lex text = some ts ∧ ∀ u, Derives p ts u ↔ u = t

/-- What the text of an expression shows: a tree, or a declaration or a list in braces of what
reads as one. -/
inductive Shows (p : Priority) : String → Term String → Prop
  | expression : Parses text p t → Shows p text t
  | list : Parses text .statement t → Shows p ("\x7b" ++ text ++ "\x7d") (.list t)
  | listEmpty : Shows p "\x7b\x7d" (.list .nothing)
  | declaration : Parses text .assign t →
      Shows p (ty ++ " " ++ x ++ " = " ++ text) (.declaration ty x t)
  | declarationBare : Shows p (ty ++ " " ++ x) (.declaration ty x .nothing)
  | declarationEmpty : Shows p (ty ++ " " ++ x ++ "\x7b\x7d") (.declaration ty x (.list .nothing))

/-- The reading of what is written for a tree: the names as they are spelled, and chains grouped to
the left. -/
def Term.reading (t : Term Name) : Term String := t.leftward.map Name.text

theorem Written.parses {text : String} {p : Priority} {t : Term Name} (h : Written text p t)
    (legible : t.IsLegible) : Parses text p t.reading := by
  obtain ⟨ls, rfl, -, stands⟩ := h
  obtain ⟨tidy, -, -, derives, -⟩ := stands legible
  have reading := derives.map Name.text
  refine ⟨_, tidy.lex_text, fun u => ⟨fun h => h.unique reading, ?_⟩⟩
  rintro rfl
  exact reading

theorem Term.Stays.isPart_reading {t s : Term Name} (h : t.Stays s) : t.reading.IsPart s.reading :=
  h.isPart.map Name.text

end Surface

/-- The expression is a declaration or a list in braces of parts that have none in them, or has none
in it. -/
def Expr.IsOutermost : Expr → Prop
  | collection _ items => areAllPlaced items
  | varDecl _ _ _ value => optIsPlaced value
  | e => e.IsPlaced

namespace Context

variable {cx : Context}

def reading (cx : Context) (e : Expr) : Term String := (cx.tree e).reading

theorem render_parses (hcx : cx.dialect.convert = convert) {e : Expr} (h : e.NamesIdentifiers)
    (hp : e.IsPlaced) (p : Priority) :
    Yields (Parses · p (cx.reading e)) (cx.render e p) :=
  ((operand_denotes hcx e).within p).imp fun _ written => written.parses (tree_legible e h hp)

theorem coerce_parses (hcx : cx.dialect.convert = convert) {target : Ty}
    (ht : target.NamesIdentifiers) {e : Expr} (h : e.NamesIdentifiers) (hp : e.IsPlaced)
    (p : Priority) :
    Yields (Parses · p ((cx.part e).converted target).reading) (cx.coerce target e p) :=
  ((operand_denotes hcx e).coercedWithin hcx target p).imp fun _ written =>
    written.parses ((part_legible e h hp).converted ht)

theorem Listed.shows {texts : List String} {ts : List (Term Name)} (hs : Listed texts ts)
    (legible : ∀ t ∈ ts, t.IsLegible) (p : Priority) :
    Shows p ("\x7b" ++ joined texts ++ "\x7d") (Term.list (.items ts)).reading := by
  cases hs with
  | nil => exact .listEmpty
  | cons h hs =>
    have items := (legible_items legible).resolve_left (items_ne_nothing h.2 _)
    exact .list ((Listed.written (.cons h.1 h.2 hs)).parses items)

theorem collection_shows (hcx : cx.dialect.convert = convert) {note : Note} {es : List Expr}
    (h : (Expr.collection note es).NamesIdentifiers) (hp : Expr.areAllPlaced es) (p : Priority) :
    Yields (Shows p · (cx.reading (.collection note es))) (cx.render (.collection note es) p) := by
  have elem : ∀ t ∈ note.ty.elem?, t.NamesIdentifiers := by
    intro t ht
    have := h.1
    revert this
    cases hty : note.ty <;> simp_all [Ty.elem?, Ty.NamesIdentifiers]
  have legible : ∀ t ∈ Part.items note.ty.elem? (cx.parts es), t.IsLegible :=
    Part.items_legible elem (parts_legible es h.2 hp)
  have listed := items_listed hcx note.ty.elem? (operands_denote hcx es)
  exact listed.bind fun _ hs => .ok (hs.shows legible p)

theorem varDecl_shows (hcx : cx.dialect.convert = convert) {note : Note} {x : String} {ty : Ty}
    {value : Option Expr} (h : (Expr.varDecl note x ty value).NamesIdentifiers)
    (hp : Expr.optIsPlaced value) (p : Priority) :
    Yields (Shows p · (cx.reading (.varDecl note x ty value)))
      (cx.render (.varDecl note x ty value) p) := by
  refine typeName_text.bind fun typeName same => ?_
  subst same
  cases value with
  | none =>
    show Yields _ (.ok (ty.text ++ " " ++ Keyword.escape x ++ ty.initializer))
    rw [reading, tree, part?, Part.initial, Ty.initializer]
    split
    · exact .ok .declarationEmpty
    · rw [String.append_empty]
      exact .ok .declarationBare
  | some e =>
    have legible : ((cx.part e).converted ty).IsLegible :=
      (part_legible e h.2.2.2 hp).converted h.2.2.1
    exact ((operand_denotes hcx e).coercedWithin hcx ty .assign).bind fun _ written =>
      .ok (.declaration (written.parses legible))

/-- The text of an expression, where there is one, has a single reading, and the readings of its
parts are operands of that, except for what continues a chain: that is written without parentheses,
and the chain is read from the left. The dialect may differ in all but its conversions. -/
theorem render_groups (hcx : cx.dialect.convert = convert) {e : Expr} (h : e.NamesIdentifiers)
    (hp : e.IsOutermost) (p : Priority) :
    Yields (fun text => Shows p text (cx.reading e) ∧
      ∀ sub ∈ e.operands, ¬ sub.Continues e → (cx.reading sub).IsPart (cx.reading e))
      (cx.render e p) := by
  intro text htext
  refine ⟨?_, fun sub mem apart => ?_⟩
  · cases e with
    | collection note es => exact collection_shows hcx h hp p text htext
    | varDecl note x ty value => exact varDecl_shows hcx h hp p text htext
    | _ => exact .expression (render_parses hcx h hp p text htext)
  · exact (tree_stays hcx e p text htext sub mem apart).isPart_reading

theorem render_groups_contains :
    let s := Expr.symbol ⟨.string .storage, {}⟩ none ⟨"s", .localVar⟩
    let x := Expr.literal ⟨.string .view, {}⟩ (.string "x")
    let found := Expr.intrinsic ⟨.bool, {}⟩ .stringContains (some s) [x]
    let flag := Expr.symbol ⟨.bool, {}⟩ none ⟨"flag", .parameter⟩
    let e := Expr.binary ⟨.bool, {}⟩ .eq found flag
    e.NamesIdentifiers ∧ e.IsOutermost ∧
      ({} : Context).render e .primary = .ok "((s.find(\"x\") != std::string::npos) == flag)" ∧
      Yields (fun text => Shows .primary text (({} : Context).reading e) ∧
        ∀ sub ∈ e.operands, ¬ sub.Continues e →
          (({} : Context).reading sub).IsPart (({} : Context).reading e))
        (({} : Context).render e .primary) := by
  intro s x found flag e
  have names : e.NamesIdentifiers := by
    have receiver : s.NamesIdentifiers := ⟨trivial, trivial, by decide, nofun⟩
    exact ⟨trivial, ⟨trivial, receiver, trivial, trivial⟩, trivial, trivial, by decide, nofun⟩
  have placed : e.IsOutermost := by
    have number : ∀ x ∈ some s, x.isNumber = false := by
      rintro _ ⟨⟩
      rfl
    exact ⟨⟨⟨trivial, nofun⟩, number, trivial, trivial⟩, trivial, nofun⟩
  exact ⟨names, placed, by decide, render_groups rfl names placed .primary⟩

/-- The parentheses of a chain on the right of its own operator are not written, and then no reading
has the chain for an operand. -/
theorem render_regroups_chain :
    let name (x : String) := Expr.symbol ⟨.bool, {}⟩ none ⟨x, .localVar⟩
    let chain := Expr.binary ⟨.bool, {}⟩ .condOr (name "b") (name "c")
    let e := Expr.binary ⟨.bool, {}⟩ .condOr (name "a") chain
    ({} : Context).render e .statement = .ok "a || b || c" ∧
      ∃ ts, Token.lex "a || b || c" = some ts ∧
        ∀ u, Derives .statement ts u → ¬ (({} : Context).reading chain).IsPart u := by
  intro name chain e
  have text : ({} : Context).render e .statement = .ok "a || b || c" := by decide
  have names : e.NamesIdentifiers := by
    refine ⟨trivial, ⟨trivial, trivial, ?_, nofun⟩, trivial, ⟨trivial, trivial, ?_, nofun⟩, trivial,
      trivial, ?_, nofun⟩ <;> decide
  have placed : e.IsPlaced := ⟨⟨trivial, nofun⟩, ⟨trivial, nofun⟩, trivial, nofun⟩
  obtain ⟨ts, lexed, reads⟩ := @render_parses {} rfl _ names placed .statement _ text
  refine ⟨text, ts, lexed, fun u hu part => ?_⟩
  have right : ({} : Context).reading chain = .between "||" (.name "b") (.name "c") := by decide
  have left : ({} : Context).reading e =
      .between "||" (.between "||" (.name "a") (.name "b")) (.name "c") := by decide
  rw [(reads u).1 hu, right, left] at part
  simp at part

end Context

end CppEmission
