import CppEmission.Phrase.OfExpr
import CppEmission.Proofs.Grammar.Reading

namespace CppEmission

open Grammar

theorem Grammar.Reads.within (h : Reads text level t) (grouped : List Priority) (p : Priority) :
    Reads (Phrase.within ⟨text, level, grouped⟩ p) p t := by
  by_cases pair : (Phrase.mk text level grouped).IsGrouped p
  · rw [Phrase.within, if_pos pair]
    exact (h.of_le (statement_le _)).group.of_le (le_primary p)
  · rw [Phrase.within, if_neg pair]
    exact h.of_le (Nat.not_lt.1 fun lt => pair (.inr lt))

def Ty.isScalar (t : Ty) : Bool := t = .bool || t = .int .i32

/-- A negative number is a minus sign in front of its magnitude; the least one has a name. -/
def Grammar.Tree.ofInt (v : Int64) : Tree :=
  if v = Int64.minValue then .name "INT64_MIN"
  else if v < 0 then .before .neg (.number v.toInt.natAbs)
  else .number v.toInt.natAbs

/-- The operator tree of an expression of names, integers and operators, all of them scalars. -/
inductive HasTree : Expr → Tree → Prop
  | localVar : n.ty.isScalar → isIdentifier x → HasTree (.symbol n none ⟨x, .localVar⟩) (.name x)
  | parameter : n.ty.isScalar → isIdentifier x →
      HasTree (.symbol n none ⟨x, .parameter⟩) (.name x)
  | integer : n.ty.isScalar → HasTree (.literal n (.int v)) (.ofInt v)
  | before : n.ty.isScalar → HasTree e t → HasTree (.prefixed n op e) (.before op t)
  | after : n.ty.isScalar → HasTree e t → HasTree (.postfixed n op e) (.after op t)
  | between : n.ty.isScalar → HasTree l t → HasTree r u →
      HasTree (.binary n op l r) (.between op t u)
  | conditional : n.ty.isScalar → HasTree c t → HasTree y u → HasTree z v →
      HasTree (.conditional n c y z) (.conditional t u v)

theorem HasTree.isScalar (h : HasTree e t) : e.ty.isScalar := by
  cases h <;> assumption

theorem Ty.isString_of_isScalar {t : Ty} (h : t.isScalar) : t.isString = false := by
  cases t <;> simp_all [isScalar, isString]

theorem convert_scalar {target : Ty} {e : Expr} (ht : target.isScalar) (he : e.ty.isScalar) :
    convert target e = .ok .keep := by
  simp only [Ty.isScalar, Bool.or_eq_true, decide_eq_true_eq] at ht he
  rcases ht with rfl | rfl <;> rcases he with he | he <;> simp [convert, he]

namespace Context

variable {cx : Context}

theorem coercedWithin_scalar (hcx : cx.dialect.convert = convert) {target : Ty} {o : Operand}
    (ht : target.isScalar) (ho : o.expr.ty.isScalar) (p : Priority) :
    cx.coercedWithin target o p = o.within p := by
  rw [coercedWithin, hcx, convert_scalar ht ho]
  rfl

end Context

def ReadsAs (text : Priority → Except EmitError String) (t : Flat) : Prop :=
  ∀ parent, ∃ written, text parent = .ok written ∧ Reads written parent t

namespace ReadsAs

variable {o l r : Operand}

theorem fixed (h : Reads text .primary t) : ReadsAs (fun _ => .ok text) t :=
  fun parent => ⟨text, rfl, h.of_le (le_primary parent)⟩

theorem prefixed (h : ReadsAs o.within t) (op : PrefixOp) :
    ReadsAs (Operand.prefixed op o) (.before op t) := by
  obtain ⟨text, htext, hreads⟩ := h .unary
  exact fun parent => ⟨_, by rw [Operand.prefixed, htext]; rfl,
    hreads.before.within [] parent⟩

theorem postfixed (h : ReadsAs o.within t) (op : PostfixOp) :
    ReadsAs (fun _ => Operand.postfixed op o) (.after op t) := by
  obtain ⟨text, htext, hreads⟩ := h .primary
  have written : Operand.postfixed op o = .ok (text ++ op.spelling) := by
    rw [Operand.postfixed, htext]
    rfl
  rw [written]
  exact fixed hreads.after

theorem indexed (hl : ReadsAs l.within t) (hr : ReadsAs r.within u) :
    ReadsAs (fun _ => Operand.indexed l r) (t.join .index u) := by
  obtain ⟨array, harray, hreads⟩ := hl BinaryOp.index.leftPriority
  obtain ⟨index, hindex, hreads'⟩ := hr BinaryOp.index.rightPriority
  have written : Operand.indexed l r = .ok (array ++ "[" ++ index ++ "]") := by
    rw [Operand.indexed, harray, hindex]
    rfl
  rw [written]
  exact fixed (hreads.index hreads')

theorem between {op : BinaryOp} (hop : op.isAssignment = false) (hi : op ≠ .index)
    (hl : ReadsAs l.within t) (hr : ReadsAs r.within u) :
    ReadsAs (Operand.between op l r) (t.join op u) := by
  obtain ⟨left, hleft, hreads⟩ := hl op.leftPriority
  obtain ⟨right, hright, hreads'⟩ := hr op.rightPriority
  exact fun parent => ⟨_, by rw [Operand.between, hleft, hright]; rfl,
    (hreads.infixed hop hi hreads').within op.groupedIn parent⟩

variable {cx : Context} (hcx : cx.dialect.convert = convert)

include hcx

theorem assignedAsIs {op : BinaryOp} (hop : op.isAssignment) (hlt : l.expr.ty.isScalar)
    (hrt : r.expr.ty.isScalar) (hl : ReadsAs l.within t) (hr : ReadsAs r.within u) :
    ReadsAs (cx.assignedAsIs op l r) (t.join op u) := by
  obtain ⟨target, htarget, hreads⟩ := hl op.leftPriority
  obtain ⟨value, hvalue, hreads'⟩ := hr op.rightPriority
  refine fun parent => ⟨_, ?_, (hreads.assigned hop hreads').within [] parent⟩
  rw [Context.assignedAsIs, Context.coercedWithin_scalar hcx hlt hrt, ite_self, hvalue, htarget]
  rfl

theorem conditional {target : Ty} (ht : target.isScalar) {c : Operand}
    (hlt : l.expr.ty.isScalar) (hrt : r.expr.ty.isScalar) (hc : ReadsAs c.within t)
    (hl : ReadsAs l.within u) (hr : ReadsAs r.within v) :
    ReadsAs (cx.conditional target c l r) (.conditional t u v) := by
  obtain ⟨test, htest, hreads⟩ := hc .condOr
  obtain ⟨onTrue, honTrue, hreads'⟩ := hl .cond
  obtain ⟨onFalse, honFalse, hreads''⟩ := hr .cond
  refine fun parent => ⟨_, ?_, (hreads.conditional hreads' hreads'').within [] parent⟩
  rw [Context.conditional, Context.coercedWithin_scalar hcx ht hlt,
    Context.coercedWithin_scalar hcx ht hrt, htest, honTrue, honFalse]
  rfl

theorem binary {ty : Ty} {op : BinaryOp} (ht : ty.isScalar) (hlt : l.expr.ty.isScalar)
    (hrt : r.expr.ty.isScalar) (hl : ReadsAs l.within t) (hr : ReadsAs r.within u) :
    ReadsAs (cx.binary ty op l r) (t.join op u) := by
  have notString := Ty.isString_of_isScalar ht
  have leftNotString := Ty.isString_of_isScalar hlt
  intro parent
  by_cases hassign : op.isAssignment
  · simpa [Context.binary, hassign, Context.assigned, leftNotString] using
      assignedAsIs hcx hassign hlt hrt hl hr parent
  · by_cases hindex : op = .index
    · subst hindex
      exact indexed hl hr parent
    · have plain := between (by simpa using hassign) hindex hl hr parent
      simpa [Context.binary, hassign, Context.compared, Operand.isStringLiteral, leftNotString,
        notString, hindex] using plain

end ReadsAs

theorem needsSpace_repr (op : PrefixOp) (n : Nat) : op.needsSpace (Nat.repr n) = false := by
  refine Bool.eq_false_iff.2 fun space => ?_
  obtain ⟨signed, head⟩ : op.sign?.isSome = true ∧ (Nat.toDigits 10 n).head? = op.sign? := by
    simpa [PrefixOp.needsSpace, Nat.toList_repr] using space
  obtain ⟨c, hc⟩ := Option.isSome_iff_exists.1 signed
  have mem : c ∈ Nat.toDigits 10 n := List.mem_of_mem_head? (head.trans hc)
  have digit := Nat.isDigit_of_mem_toDigits (by decide) (by decide) mem
  have sign : c.isDigit = false := by
    cases op <;> simp [PrefixOp.sign?] at hc <;> subst hc <;> rfl
  simp [sign] at digit

theorem integerText_reads (v : Int64) :
    Reads (integerText v) (if v < 0 then .unary else .primary) (Tree.ofInt v).flat := by
  by_cases least : v = Int64.minValue
  · subst least
    have named : Reads "INT64_MIN" .primary (.name "INT64_MIN") := .name (by decide)
    exact named.of_le (by decide)
  have sign : v < 0 ↔ v.toInt < 0 := by simp [Int64.lt_iff_toInt_lt]
  rw [integerText, if_neg least, Tree.ofInt, if_neg least]
  cases h : v.toInt with
  | ofNat n =>
    have notNeg : ¬ v < 0 := by rw [sign, h]; exact Int.not_lt.2 (Int.natCast_nonneg n)
    rw [if_neg notNeg, if_neg notNeg]
    exact .number n
  | negSucc n =>
    have neg : v < 0 := by rw [sign, h]; exact Int.negSucc_lt_zero n
    rw [if_pos neg, if_pos neg]
    have magnitude : Reads (Nat.repr (n + 1)) .unary (.number (n + 1)) :=
      (Reads.number (n + 1)).of_le (by decide)
    have reads := @Reads.before _ _ .neg magnitude
    rw [needsSpace_repr] at reads
    exact reads

namespace Context

theorem render_readsAs {cx : Context} (hcx : cx.dialect.convert = convert) (h : HasTree e t) :
    ReadsAs (cx.render e) t.flat := by
  induction h with
  | localVar hn hx | parameter hn hx =>
    simpa [render, symbolText, Keyword.escape, isReserved_of_isIdentifier hx, Tree.flat] using
      ReadsAs.fixed (.name hx)
  | @integer n v hn =>
    have level : (Literal.int v).level = if v < 0 then .unary else .primary := by
      simp only [Literal.level, Literal.isNegative, decide_eq_true_eq]
    refine fun parent => ⟨_, ?_, (integerText_reads v).within [] parent⟩
    rw [← level]
    rfl
  | before hn h ih => exact ReadsAs.prefixed (o := ⟨_, _⟩) ih _
  | after hn h ih => exact ReadsAs.postfixed (o := ⟨_, _⟩) ih _
  | between hn hl hr ihl ihr =>
    exact ReadsAs.binary (l := ⟨_, _⟩) (r := ⟨_, _⟩) hcx hn hl.isScalar hr.isScalar ihl ihr
  | conditional hn hc hy hz ihc ihy ihz =>
    exact ReadsAs.conditional (l := ⟨_, _⟩) (r := ⟨_, _⟩) (c := ⟨_, _⟩) hcx hn hy.isScalar
      hz.isScalar ihc ihy ihz

/-- The text of an operator tree at any level lexes, is derived at that level in one way only, and
is the operator tree again up to the grouping of chains. The dialect may differ in all but its
conversions. -/
theorem render_reads_back {cx : Context} (hcx : cx.dialect.convert = convert) {e : Expr} {t : Tree}
    (h : HasTree e t) (p : Priority) :
    ∃ text ts u, cx.render e p = .ok text ∧ Token.lex text = some ts ∧
      (∀ v, Derives p ts v ↔ v = u) ∧ u.flat = t.flat := by
  obtain ⟨text, htext, -, ts, u, hlex, hder, flat⟩ := render_readsAs hcx h p
  refine ⟨text, ts, u, htext, hlex.lex_eq, fun v => ⟨fun hv => hv.unique hder, ?_⟩, flat⟩
  rintro rfl
  exact hder

theorem render_reads_back_forced_group :
    let a := Expr.symbol ⟨.int .i32, {}⟩ none ⟨"a", .localVar⟩
    let b := Expr.symbol ⟨.int .i32, {}⟩ none ⟨"b", .parameter⟩
    let masked := Expr.binary ⟨.int .i32, {}⟩ .bitAnd a (.postfixed ⟨.int .i32, {}⟩ .decrement b)
    let negated := Expr.prefixed ⟨.int .i32, {}⟩ .neg (.literal ⟨.int .i32, {}⟩ (.int (-5)))
    let e := Expr.binary ⟨.bool, {}⟩ .condAnd masked negated
    let t := Tree.between .condAnd (.between .bitAnd (.name "a") (.after .decrement (.name "b")))
      (.before .neg (.ofInt (-5)))
    HasTree e t ∧ ∃ text ts u, ({} : Context).render e .multiplicative = .ok text ∧
      Token.lex text = some ts ∧ (∀ v, Derives .multiplicative ts v ↔ v = u) ∧
      u.flat = t.flat := by
  intro _ _ _ _ e t
  have a : isIdentifier "a" := by decide
  have b : isIdentifier "b" := by decide
  suffices tree : HasTree e t from ⟨tree, render_reads_back rfl tree .multiplicative⟩
  apply HasTree.between rfl
  · exact .between rfl (.localVar rfl a) (.after rfl (.parameter rfl b))
  · exact .before rfl (.integer rfl)

end Context

end CppEmission
