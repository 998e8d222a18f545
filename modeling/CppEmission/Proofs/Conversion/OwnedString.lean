import CppEmission.Proofs.Acceptance.Phrase
import CppEmission.Proofs.Conversion.Basic
import CppEmission.Stmt.Script

namespace CppEmission

/-- The expression looks a key up in a map: between the brackets of an index, or in a call that asks
for the key or removes it. -/
inductive Expr.LooksUp (map key : Expr) : Expr → String → String → Prop
  | index : LooksUp map key (.binary n .index map key) "[" "]"
  | contains : LooksUp map key (.intrinsic n .mapContainsKey (some map) [key]) ".contains(" ")"
  | remove : LooksUp map key (.intrinsic n .mapRemove (some map) [key]) ".erase(" ")"

def Expr.IsStringLiteral (e : Expr) : Prop := ∃ note s, e = .literal note (.string s)

/-- What a parameter of type `std::string` takes: a string literal, what is written for an owning
string, and any other text once a string is made of it. -/
inductive Context.WritesOwned (cx : Context) (e : Expr) : String → Prop
  | literal : e.IsStringLiteral → cx.render e .statement = .ok text → WritesOwned cx e text
  | owning : e.ty = .string .storage → cx.render e .statement = .ok text → WritesOwned cx e text
  | made : cx.render e .statement = .ok text → WritesOwned cx e ("std::string(" ++ text ++ ")")

theorem Ty.spelling_map {k : Ty} (hk : k.isString) (v : Ty) :
    (map k v).spelling = v.spelling.map fun name => "std::map<std::string, " ++ name ++ ">" := by
  rw [spelling, if_pos hk]
  cases v.spelling <;> rfl

namespace Context

theorem containerCall_one (method : String) (r a : Operand) :
    containerCall method r [a] = do
      let receiver ← r.within .primary
      let arg ← a.within .statement
      return receiver ++ ("." ++ method ++ "(") ++ arg ++ ")" := by
  rw [containerCall]
  cases r.within .primary with
  | error _ => rfl
  | ok receiver =>
    cases h : a.within .statement with
    | error _ => simp [h]
    | ok arg =>
      rw [List.mapM_cons, h]
      simp [Operand.methodCall, joined, String.append_assoc]

variable {cx : Context} {map key e : Expr} {before after : String}

theorem render_of_looksUp (h : Expr.LooksUp map key e before after) (parent : Priority) :
    cx.render e parent = do
      let m ← cx.render map .primary
      let k ← cx.render key .statement
      return m ++ before ++ k ++ after := by
  cases h with
  | index => rfl
  | contains => exact containerCall_one "contains" _ _
  | remove => exact containerCall_one "erase" _ _

theorem made_ne (text : String) : "std::string(" ++ text ++ ")" ≠ text := by
  intro h
  have length := congrArg String.length h
  simp only [String.length_append] at length
  have open_ : "std::string(".length = 12 := rfl
  omega

theorem writesOwned_iff {text : String} (h : cx.render e .statement = .ok text) :
    cx.WritesOwned e text ↔ e.IsStringLiteral ∨ e.ty = .string .storage := by
  constructor
  · intro owned
    cases owned with
    | literal literal _ => exact .inl literal
    | owning ty _ => exact .inr ty
    | made h' => exact absurd (Except.ok.inj (h.symm.trans h')) (made_ne _)
  · rintro (literal | ty)
    · exact .literal literal h
    · exact .owning ty h

/-- A map with strings for keys is declared with keys that own their text. Whatever is looked up in
it stands there as it is written anywhere, so that only literals and owning strings are what the map
takes: a view is not made a string. -/
theorem looked_up_key_owned_iff (h : Expr.LooksUp map key e before after) {k v : Ty}
    (keyed : map.ty = .map k v) (string : k.isString) {parent : Priority} {text : String}
    (rendered : cx.render e parent = .ok text) :
    Yields (fun name => ∃ inner, name = "std::map<std::string, " ++ inner ++ ">") map.ty.spelling ∧
    ∃ m t, cx.render map .primary = .ok m ∧ cx.render key .statement = .ok t ∧
      text = m ++ before ++ t ++ after ∧
      (cx.WritesOwned key t ↔ key.IsStringLiteral ∨ key.ty = .string .storage) := by
  rw [keyed, Ty.spelling_map string]
  rw [render_of_looksUp h] at rendered
  obtain ⟨m, hm, rendered⟩ := bind_eq_ok.1 rendered
  obtain ⟨t, ht, rendered⟩ := bind_eq_ok.1 rendered
  refine ⟨fun name spelled => ?_, m, t, hm, ht, (Except.ok.inj rendered).symm, writesOwned_iff ht⟩
  obtain ⟨inner, -, rfl⟩ := map_eq_ok.1 spelled
  exact ⟨inner, rfl⟩

theorem looked_up_key_owned_iff_removed :
    let ages := Expr.symbol ⟨.map (.string .view) (.int .i32), {}⟩ none ⟨"ages", .localVar⟩
    let name := Expr.symbol ⟨.string .storage, {}⟩ none ⟨"name", .parameter⟩
    let removed := Expr.intrinsic ⟨.null, {}⟩ .mapRemove (some ages) [name]
    Context.render {} removed .statement = .ok "ages.erase(name)" ∧
      Context.WritesOwned {} name "name" := by
  intro ages name removed
  have rendered : Context.render {} removed .statement = .ok "ages.erase(name)" := by decide
  obtain ⟨-, m, t, hm, ht, -, owned⟩ :=
    looked_up_key_owned_iff (.remove : Expr.LooksUp ages name removed _ _) rfl rfl rendered
  cases ht
  exact ⟨rendered, owned.2 (.inr rfl)⟩

/-- The name of a view stands for a key, which `std::map<std::string, int32_t>` does not take. -/
theorem looked_up_view_not_owned :
    let ages := Expr.symbol ⟨.map (.string .view) (.int .i32), {}⟩ none ⟨"ages", .localVar⟩
    let name := Expr.symbol ⟨.string .view, {}⟩ none ⟨"name", .parameter⟩
    let found := Expr.binary ⟨.int .i32, {}⟩ .index ages name
    ages.ty.spelling = .ok "std::map<std::string, int32_t>" ∧
      Context.render {} found .statement = .ok "ages[name]" ∧
      ¬ Context.WritesOwned {} name "name" := by
  intro ages name found
  refine ⟨by decide, by decide, fun owned => ?_⟩
  rcases (writesOwned_iff rfl).1 owned with ⟨_, _, literal⟩ | owning
  · exact Expr.noConfusion literal
  · exact absurd owning (by decide)

end Context

def StringShape.owned (text : String) : StringShape → String
  | view => "std::string(" ++ text ++ ")"
  | storage => text

namespace Context

/-- What stands for the expression wherever an owning string is asked for: where a value of that
type is expected, which is so of the value of an assignment, of an argument, of a returned and an
initial value and of the message of an error, and where a string sum begins. -/
structure OwnedUses (cx : Context) (e : Expr) (text : String) : Prop where
  expected : ∀ parent, cx.coerce (.string .storage) e parent = .ok text
  assigned : ∀ n target parent, target.ty = .string .storage →
    cx.render (.binary n .assign target e) parent = (cx.render target .condOr).map fun t =>
      (Phrase.mk (t ++ " = " ++ text) .assign []).within parent
  passed : ∀ n (f : Signature) receiver (args : List Expr) (i : Nat) parent whole,
    f.params[i]? = some (Ty.string .storage) → args[i]? = some e →
    cx.render (.call n f receiver args) parent = .ok whole →
    ∃ callee texts, cx.arguments f.params (cx.operands args) = .ok texts ∧
      whole = callee ++ "(" ++ joined texts ++ ")" ∧ texts[i]? = some text
  returned : cx.scope.returnTy? = some (.string .storage) →
    cx.returnLine (some e) = .ok ("return " ++ text ++ ";")
  initial : ∀ name, cx.declared name (.string .storage) (some (cx.operand e)) =
    .ok ("std::string " ++ Keyword.escape name ++ " = " ++ text)
  raised : cx.raiseLine e = .ok ("throw std::runtime_error(" ++ text ++ ");")
  leading : ∀ n right parent, n.ty.isString →
    cx.render (.binary n .add e right) parent = (cx.operand right).trailingSummand.map fun t =>
      (Phrase.mk (text ++ " + " ++ t) .additive []).within parent

theorem arguments_at {cx : Context} {t : Ty} {o : Operand} {params : List Ty} {os : List Operand}
    {texts : List String} {i : Nat} (h : cx.arguments params os = .ok texts)
    (param : params[i]? = some t) (arg : os[i]? = some o) :
    ∃ text, texts[i]? = some text ∧ cx.coercedWithin t o .statement = .ok text := by
  induction os generalizing params texts i with
  | nil => cases arg
  | cons o' os ih =>
    cases params with
    | nil => cases param
    | cons t' params =>
      obtain ⟨text, htext, h⟩ := bind_eq_ok.1 h
      obtain ⟨rest, hrest, ⟨⟩⟩ := bind_eq_ok.1 h
      cases i with
      | zero =>
        cases param
        cases arg
        exact ⟨text, rfl, htext⟩
      | succ i =>
        obtain ⟨text', at', coerced⟩ := ih hrest param arg
        exact ⟨text', at', coerced⟩

variable {cx : Context} {e : Expr} {text : String}

theorem binary_assign (t : Ty) (l r : Operand) (parent : Priority) :
    cx.binary t .assign l r parent = do
      let value ← cx.coercedWithin l.expr.ty r .assign
      let target ← l.within .condOr
      return Phrase.within ⟨target ++ " = " ++ value, .assign, []⟩ parent := by
  have spaced : " = " = " " ++ BinaryOp.assign.spelling ++ " " := rfl
  rw [binary, if_pos (by decide), assigned, if_neg (by simp), assignedAsIs, spaced]
  simp only [String.append_assoc, if_pos]
  rfl

theorem binary_stringSum (hcx : cx.dialect = .cpp) {t : Ty} (string : t.isString) (l r : Operand)
    (parent : Priority) : cx.binary t .add l r parent = l.stringSum r parent := by
  have add : (BinaryOp.add = .add && t.isString) = true := by simp [string]
  rw [binary, if_neg (by decide), if_neg (by decide), if_pos add, concatenated, hcx]
  rfl

theorem ownedUses_of (hcx : cx.dialect = .cpp)
    (expected : ∀ parent, cx.coerce (.string .storage) e parent = .ok text)
    (summand : (cx.operand e).leadingSummand = .ok text) : cx.OwnedUses e text where
  expected := expected
  assigned n target parent ty := by
    have value : cx.coercedWithin target.ty (cx.operand e) .assign = .ok text :=
      ty ▸ expected .assign
    change cx.binary n.ty .assign (cx.operand target) (cx.operand e) parent = _
    rw [binary_assign, operand_expr, value]
    change (cx.render target .condOr >>= _) = _
    cases cx.render target .condOr <;> rfl
  passed n f receiver args i parent whole param arg rendered := by
    obtain ⟨texts, htexts, rendered⟩ := bind_eq_ok.1 rendered
    obtain ⟨callee, -, ⟨⟩⟩ := bind_eq_ok.1 rendered
    have operand : (cx.operands args)[i]? = some (cx.operand e) := by
      simp [arg]
    obtain ⟨text', at', coerced⟩ := arguments_at htexts param operand
    obtain rfl : text = text' := Except.ok.inj ((expected .statement).symm.trans coerced)
    exact ⟨callee, texts, htexts, rfl, at'⟩
  returned ty := by
    rw [returnLine, ty]
    dsimp only
    rw [expected]
    rfl
  initial name := by
    have value : cx.coercedWithin (.string .storage) (cx.operand e) .assign = .ok text :=
      expected .assign
    change (cx.coercedWithin (.string .storage) (cx.operand e) .assign >>= fun t =>
      .ok ("std::string" ++ " " ++ Keyword.escape name ++ " = " ++ t)) = _
    rw [value]
    rfl
  raised := by
    rw [raiseLine, expected]
    rfl
  leading n right parent ty := by
    change cx.binary n.ty .add (cx.operand e) (cx.operand right) parent = _
    rw [binary_stringSum hcx ty, Operand.stringSum, summand]
    cases (cx.operand right).trailingSummand <;> rfl

theorem ownedUses_of_ty (hcx : cx.dialect = .cpp) {shape : StringShape} {name : String}
    (ty : e.ty = .string shape) (plain : e.isLiteral = false)
    (rendered : ∀ parent, cx.render e parent = .ok name) :
    cx.OwnedUses e (shape.owned name) := by
  have convert : cx.dialect.convert = convert := by rw [hcx]; rfl
  cases shape with
  | view =>
    refine ownedUses_of hcx (fun parent => ?_) ?_
    · have chosen := convert_owned ty
      rw [plain] at chosen
      rw [coerce_call convert chosen, rendered]
      rfl
    · rw [Operand.leadingSummand, operand_expr, ty]
      change (do return "std::string(" ++ (← cx.render e .statement) ++ ")") = _
      rw [rendered]
      rfl
  | storage =>
    refine ownedUses_of hcx (fun parent => ?_) ?_
    · rw [coerce_keep convert (ty ▸ convert_self e), rendered]
      rfl
    · rw [Operand.leadingSummand, operand_expr, ty]
      exact rendered .additive

theorem constantLine_string {c : Constant} {shape : StringShape} (string : c.ty = .string shape)
    (place : ConstantPlace) :
    cx.constantLine place c = (cx.coerce (.string .view) c.value .assign).map fun value =>
      place.keyword ++ " std::string_view " ++ Keyword.escape c.name ++ " = " ++ value ++ ";" := by
  have spaced : " std::string_view " = " " ++ "std::string_view" ++ " " := rfl
  rw [constantLine, string, spaced]
  simp only [String.append_assoc]
  change cx.coerce (.string .view) c.value .assign >>= _ = _
  cases cx.coerce (.string .view) c.value .assign <;> rfl

theorem exists_render_constant (cx : Context) (note : Note) (left : Option Expr) (name : String)
    (owner : Option String) :
    ∃ text, ∀ parent, cx.render (.symbol note left ⟨name, .constant owner⟩) parent = .ok text := by
  have named : Succeeds (cx.symbolText note (cx.operand? left) ⟨name, .constant owner⟩) := by
    cases owner <;> cases left <;> exact .ok _
  obtain ⟨text, h⟩ := named
  exact ⟨text, fun _ => h⟩

/-- Every constant that is a string is declared as a view. What stands for it where an owning string
is asked for goes by its own type: a string is made of it where that is a view as well, and it
stands there under its mere name where its own type is an owning string. -/
theorem string_constant_owned (hcx : cx.dialect = .cpp) (c : Constant) {shape : StringShape}
    (string : c.ty = .string shape) (span : Span) (left : Option Expr) (owner : Option String) :
    let reference := Expr.symbol ⟨c.ty, span⟩ left ⟨c.name, .constant owner⟩
    (∀ place, cx.constantLine place c = (cx.coerce (.string .view) c.value .assign).map fun value =>
      place.keyword ++ " std::string_view " ++ Keyword.escape c.name ++ " = " ++ value ++ ";") ∧
    ∃ name, (∀ parent, cx.render reference parent = .ok name) ∧
      cx.OwnedUses reference (shape.owned name) := by
  intro reference
  obtain ⟨name, rendered⟩ := cx.exists_render_constant ⟨c.ty, span⟩ left c.name owner
  exact ⟨constantLine_string string, name, rendered, ownedUses_of_ty hcx string rfl rendered⟩

theorem string_constant_owned_view :
    let c : Constant := { name := "GREETING", ty := .string .view, value := .ofString "hi" }
    let reference := Expr.symbol ⟨c.ty, {}⟩ none ⟨c.name, .constant (some "A")⟩
    c.ty = .string .view ∧
      Context.raiseLine {} reference =
        .ok "throw std::runtime_error(std::string(A::GREETING));" := by
  intro c reference
  obtain ⟨-, name, rendered, uses⟩ :=
    @string_constant_owned {} rfl c _ rfl {} none (some "A")
  obtain rfl : "A::GREETING" = name := Except.ok.inj (rendered .statement)
  exact ⟨rfl, uses.raised⟩

/-- A constant of the type of owning strings is declared as a view, and yet its mere name stands
where an owning string is expected and begins a sum. -/
theorem owning_constant_not_made :
    let c : Constant := { name := "GREETING", ty := .string .storage, value := .ofString "hi" }
    let reference := Expr.symbol ⟨c.ty, {}⟩ none ⟨c.name, .constant (some "A")⟩
    let sum := Expr.binary ⟨.string .storage, {}⟩ .add reference (.ofString "!")
    Context.constantLine {} .member c =
        .ok "static constexpr std::string_view GREETING = \"hi\";" ∧
      Context.coerce {} (.string .storage) reference .statement = .ok "A::GREETING" ∧
      Context.render {} sum .statement = .ok "A::GREETING + \"!\"" := by
  decide

end Context

end CppEmission
