import CppEmission.Proofs.Surface.Layout
import CppEmission.Proofs.Surface.Unambiguous

/-! Texts that are written for a tree. Each way of putting texts together puts their trees together,
and where all that is named is legible, the text is read as the tree. -/

namespace CppEmission.Surface

open Grammar

namespace Term

def isNumber : Term ν → Bool
  | literal s => s.toList.head?.any Char.isDigit
  | _ => false

def isReference : Term ν → Bool
  | before op _ => op == "&" || op == "*"
  | between op t _ => op == "," && t.isReference
  | _ => false

def IsLegible : Term Name → Prop
  | nothing | list _ | declaration .. => False
  | name x | braces x => x.IsReadable
  | literal s => (Token.literal s).Readable
  | before _ t | after _ t => t.IsLegible
  | between _ t u | index t u => t.IsLegible ∧ u.IsLegible
  | conditional c t u => c.IsLegible ∧ t.IsLegible ∧ u.IsLegible
  | call f args => f.IsLegible ∧ (args = nothing ∨ args.IsLegible)
  | member t _ x => t.IsLegible ∧ t.isNumber = false ∧ x.IsReadable

end Term

def leads (c : Char) : Bool := isWordChar c || ['(', '-', '+', '~', '!', '"', '\''].contains c

def Lexeme.Leads (l : Lexeme) : Prop := ∃ c ∈ l.text.toList.head?, leads c

def Lexeme.startsNumber : Lexeme → Bool
  | .token (.literal s) => s.toList.head?.any Char.isDigit
  | _ => false

def Lexeme.IsLast : Lexeme → Prop
  | .token (.mark m) => extensions m = []
  | .token _ => True
  | .space => False

structure Stands (ls : List Lexeme) (p : Priority) (s : Term Name) : Prop where
  tidy : Tidy ls
  first : s.isReference = false → ∃ l ∈ ls.head?, l.Leads
  last : ∃ l ∈ ls.getLast?, l.IsLast
  derives : Derives p (Layout.tokens ls) s.leftward
  chain : ∀ op ∈ chains, op ∈ infixes p → Chain op p (Layout.tokens ls) s.leftward

def Written (text : String) (p : Priority) (s : Term Name) : Prop :=
  ∃ ls, Layout.text ls = text ∧ Layout.leaves ls = s.leaves ∧ (s.IsLegible → Stands ls p s)

/-- The layout is that of a phrase that binds at `level` and is put in parentheses in contexts that
bind tighter and in those of `grouped`. -/
structure Fits (ls : List Lexeme) (level : Priority) (grouped : List Priority) (s : Term Name) :
    Prop where
  tidy : Tidy ls
  first : s.isReference = false → ∃ l ∈ ls.head?, l.Leads
  last : ∃ l ∈ ls.getLast?, l.IsLast
  high : .assign ≤ level
  derives : Derives level (Layout.tokens ls) s.leftward
  chain : ∀ op ∈ chains, ∀ q, op ∈ infixes q → q ≤ level →
    Chain op q (Layout.tokens ls) s.leftward
  apart : ∀ op ∈ chains, ∀ q, op ∈ infixes q → q ∈ grouped ∨ level < q → ∀ a b, s ≠ .between op a b

def Writes (ph : Phrase) (s : Term Name) : Prop :=
  ∃ ls, Layout.text ls = ph.text ∧ Layout.leaves ls = s.leaves ∧
    (s.IsLegible → Fits ls ph.level ph.groupedIn s)

def Renders (text : String) (p : Priority) (s : Term Name) : Prop :=
  ∃ ph, Phrase.within ph p = text ∧ Writes ph s

def Spells (text : String) (s : Term Name) : Prop :=
  ∃ ls, Layout.text ls = text ∧ Layout.leaves ls = s.leaves

theorem Written.spells {text : String} {p : Priority} {s : Term Name} (h : Written text p s) :
    Spells text s := by
  obtain ⟨ls, text, leaves, -⟩ := h
  exact ⟨ls, text, leaves⟩

theorem Writes.spells {ph : Phrase} {s : Term Name} (h : Writes ph s) : Spells ph.text s := by
  obtain ⟨ls, text, leaves, -⟩ := h
  exact ⟨ls, text, leaves⟩

def Unchained (p : Priority) : Prop := ∀ op ∈ chains, op ∉ infixes p

instance (p : Priority) : Decidable (Unchained p) := inferInstanceAs (Decidable (∀ op ∈ chains, _))

namespace Term

theorem graft_eq (op : String) (l r : Term ν) : ∃ a b, graft op l r = between op a b := by
  cases r with
  | between op' a b =>
    rw [graft]
    split <;> exact ⟨_, _, rfl⟩
  | _ => exact ⟨_, _, rfl⟩

theorem leftward_between (op : String) (l r : Term ν) :
    ∃ a b, (between op l r).leftward = between op a b := by
  rw [leftward]
  split
  · exact graft_eq op _ _
  · exact ⟨_, _, rfl⟩

theorem leftward_ne_between {s : Term ν} {op : String} (h : ∀ a b, s ≠ between op a b) :
    ∀ a b, s.leftward ≠ between op a b := by
  intro a b same
  cases s with
  | between op' l r =>
    obtain ⟨c, d, root⟩ := leftward_between op' l r
    rw [root] at same
    cases same
    exact h l r rfl
  | _ => cases same

theorem leftward_of_not_mem {op : String} (h : op ∉ chains) (l r : Term ν) :
    (between op l r).leftward = between op l.leftward r.leftward := if_neg h

end Term

def followers : List String := [")", "]", "\x7d", ",", "(", "[", "\x7b", "++", "--", "->"]

def parts (c : Char) : Bool := !isWordChar c && c != ':' && c != '<'

theorem followers_apart : ∀ m ∈ followers, m ∈ marks ∧
    m.toList.head?.all fun c => parts c && c != '.' := by decide

def brackets : List String := ["(", ")", "[", "]", "\x7b", "\x7d"]

theorem brackets_free : ∀ m ∈ brackets, m ∈ marks ∧ extensions m = [] := by decide

namespace Lexeme

variable {l m : Lexeme}

theorem IsLast.meets (h : l.IsLast) (apart : ∀ c ∈ m.text.toList.head?, isWordChar c = false ∧
    c ≠ ':' ∧ c ≠ '<' ∧ (l.startsNumber → c ≠ '.')) : l.Meets m := by
  intro t ht
  cases l with
  | space => cases h
  | token t =>
    cases ht
    cases t with
    | mark s =>
      have none : extensions s = [] := h
      intro c _
      simp [none]
    | name x =>
      intro c hc
      obtain ⟨notWord, notColon, notBracket, -⟩ := apart c hc
      exact ⟨notWord, notColon, notBracket⟩
    | literal s =>
      intro c hc
      obtain ⟨notWord, notColon, -, notPoint⟩ := apart c hc
      exact ⟨notWord, notColon, notPoint⟩

theorem IsLast.meets_space (h : l.IsLast) : l.Meets .space := by
  refine h.meets fun c hc => ?_
  cases hc
  exact ⟨by decide, by decide, by decide, fun _ => by decide⟩

theorem IsLast.meets_mark (h : l.IsLast) {s : String} (hs : s ∈ followers) :
    l.Meets (mark s) := by
  have apart := followers_apart s hs
  refine h.meets fun c hc => ?_
  have parted := Option.all_eq_true _ _ |>.1 apart.2 c hc
  simp_all [parts]

theorem bracket_isLast {s : String} (hs : s ∈ brackets) : (mark s).IsLast := (brackets_free s hs).2

theorem mark_meets {s : String} (h : ∀ c ∈ m.text.toList.head?, c ∉ extensions s) :
    (mark s).Meets m := by
  rintro _ ⟨⟩
  exact h

theorem mark_meets_space {s : String} (hs : s ∈ marks) : (mark s).Meets .space := by
  refine mark_meets fun c hc => ?_
  cases hc
  exact space_not_mem_extensions s hs

theorem space_meets (m : Lexeme) : space.Meets m := nofun

end Lexeme

namespace Tidy

variable {ls rs : List Lexeme}

theorem nil : Tidy [] := ⟨nofun, .nil⟩

theorem space (h : Tidy ls) : Tidy (.space :: ls) := by
  have alone : Tidy [.space] := ⟨nofun, .singleton _⟩
  refine alone.append h ?_
  rintro _ ⟨⟩ b _
  exact Lexeme.space_meets b

theorem token {t : Token Name} (h : (t.map Name.text).Readable) : Tidy [.token t] := by
  refine ⟨?_, .singleton _⟩
  rintro _ (_ | ⟨_, ⟨⟩⟩)
  exact h

theorem name {x : Name} (h : x.IsReadable) : Tidy [Surface.name x] := token h

theorem mark {s : String} (hs : s ∈ marks) (meets : ∀ b ∈ ls.head?, (mark s).Meets b)
    (h : Tidy ls) : Tidy (Surface.mark s :: ls) := by
  have alone : Tidy [Surface.mark s] := token (.mark hs)
  refine alone.append h ?_
  rintro _ ⟨⟩
  exact meets

theorem mark_free {s : String} (hs : s ∈ marks) (free : extensions s = []) (h : Tidy ls) :
    Tidy (Surface.mark s :: ls) :=
  h.mark hs fun _ _ => Lexeme.mark_meets (by simp [free])

theorem bracket {s : String} (hs : s ∈ brackets) (h : Tidy ls) : Tidy (Surface.mark s :: ls) :=
  h.mark_free (brackets_free s hs).1 (brackets_free s hs).2

theorem mark_space {s : String} (hs : s ∈ marks) (h : Tidy ls) :
    Tidy (Surface.mark s :: .space :: ls) := by
  refine h.space.mark hs ?_
  rintro _ ⟨⟩
  exact Lexeme.mark_meets_space hs

theorem between {s : String} (hs : s ∈ marks) (hl : Tidy ls) (last : ∃ l ∈ ls.getLast?, l.IsLast)
    (hr : Tidy rs) : Tidy (ls ++ .space :: Surface.mark s :: .space :: rs) := by
  obtain ⟨l, hlast, isLast⟩ := last
  refine hl.append (hr.mark_space hs).space ?_
  rintro _ hl' _ ⟨⟩
  cases Option.mem_unique hl' hlast
  exact isLast.meets_space

theorem snoc {s : String} (hs : s ∈ followers) (hl : Tidy ls) (last : ∃ l ∈ ls.getLast?, l.IsLast)
    (hr : Tidy (Surface.mark s :: rs)) : Tidy (ls ++ Surface.mark s :: rs) := by
  obtain ⟨l, hlast, isLast⟩ := last
  refine hl.append hr ?_
  rintro _ hl' _ ⟨⟩
  cases Option.mem_unique hl' hlast
  exact isLast.meets_mark hs

end Tidy

theorem Token.Readable.leads {t : Token String} (h : t.Readable) (notMark : ∀ m, t ≠ .mark m) :
    ∃ c ∈ t.text.toList.head?, leads c := by
  obtain ⟨c, cs, hcs, -⟩ := h.lead
  have read := h.read [] (by cases t <;> exact nofun)
  rw [hcs, List.append_nil, first?] at read
  refine ⟨c, by simp [hcs], ?_⟩
  split at read
  · next start => simp [Surface.leads, isWordChar, start]
  split at read
  · next digit => simp [Surface.leads, isWordChar, digit]
  split at read
  · next quote => rcases quote with rfl | rfl <;> rfl
  · obtain ⟨m, -, rfl⟩ := Option.map_eq_some_iff.1 read
    exact absurd rfl (notMark m)

theorem Fits.of_unchained {ls : List Lexeme} {level : Priority} {grouped : List Priority}
    {s : Term Name} (tidy : Tidy ls) (first : s.isReference = false → ∃ l ∈ ls.head?, l.Leads)
    (last : ∃ l ∈ ls.getLast?, l.IsLast) (high : .assign ≤ level)
    (derives : Derives level (Layout.tokens ls) s.leftward) (unchained : Unchained level)
    (whole : ∀ op ∈ chains, ∀ a b, s ≠ .between op a b) : Fits ls level grouped s := by
  refine ⟨tidy, first, last, high, derives, fun op chain q hop hq => ?_, fun op chain _ _ _ =>
    whole op chain⟩
  have below : q.rank < level.rank := by
    refine Nat.lt_of_le_of_ne hq fun same => unchained op chain ?_
    rwa [← Priority.rank_inj same]
  refine .single (derives.of_le ?_) (Term.leftward_ne_between (whole op chain))
  rw [Priority.le_iff, Priority.rank_tighter]
  omega

theorem Fits.leaf {t : Token Name} {s : Term Name} (h : (t.map Name.text).Readable)
    (notMark : ∀ m, t ≠ .mark m) (derives : Derives .primary [t] s.leftward)
    (whole : ∀ op ∈ chains, ∀ a b, s ≠ .between op a b) : Fits [.token t] .primary [] s := by
  have notMark' : ∀ m, t.map Name.text ≠ .mark m := by
    cases t with
    | mark m => exact absurd rfl (notMark m)
    | _ => exact nofun
  refine .of_unchained (.token h) (fun _ => ⟨_, rfl, h.leads notMark'⟩) ⟨_, rfl, ?_⟩ (by decide)
    derives (by decide) whole
  cases t with
  | mark m => exact absurd rfl (notMark m)
  | _ => trivial

theorem last_append {l : Lexeme} {rs : List Lexeme} (h : l ∈ rs.getLast?) (ls : List Lexeme) :
    l ∈ (ls ++ rs).getLast? := List.mem_getLast?_append_of_mem_getLast? h

theorem last_cons {l : Lexeme} {rs : List Lexeme} (h : l ∈ rs.getLast?) (m : Lexeme) :
    l ∈ (m :: rs).getLast? := last_append h [m]

theorem first_append {l : Lexeme} {ls : List Lexeme} (h : l ∈ ls.head?) (rs : List Lexeme) :
    l ∈ (ls ++ rs).head? := List.mem_head?_append_of_mem_head? h

theorem prefixes_fit : ∀ op ∈ prefixes, op ∈ marks ∧
    (op ≠ "&" → op ≠ "*" → op.toList.head?.any leads) := by decide

theorem postfixes_fit : ∀ op ∈ postfixes, op ∈ followers ∧ op ∈ marks ∧ extensions op = [] := by
  decide

theorem Derives.eq_literal {p : Priority} {ts : List (Token ν)} {t : Term ν} {s : String}
    (h : Derives p ts t) (hp : p = .primary) (last : ts.getLast? = some (.literal s)) :
    t = .literal s := by
  have apart {us : List (Token ν)} {tok : Token ν}
      (last : (us ++ [tok]).getLast? = some (.literal s)) :
      tok = .literal s := by simpa using last
  induction h with
  | literal =>
    cases last
    rfl
  | name | braces => cases last
  | group | index | call | after => cases apart last
  | member => cases apart (List.append_cons .. ▸ last)
  | callEmpty => cases apart (List.append_cons .. ▸ last)
  | between hop => exact absurd hp (infixes_ne_primary hop)
  | before | conditional | assignment => cases hp
  | loosen _ ih =>
    subst hp
    exact ih rfl last

theorem Stands.last_not_number {ls : List Lexeme} {t : Term Name} (h : Stands ls .primary t)
    (ht : t.isNumber = false) : ∀ l ∈ ls.getLast?, l.startsNumber = false := by
  intro l hl
  obtain ⟨init, rfl⟩ := List.getLast?_eq_some_iff.1 hl
  cases l with
  | space => rfl
  | token tok =>
    cases tok with
    | name | mark => rfl
    | literal s =>
      have same := h.derives.eq_literal rfl (s := s) (by simp [Lexeme.token?])
      cases t with
      | literal s' =>
        cases same
        exact ht
      | between op a b =>
        obtain ⟨c, d, root⟩ := Term.leftward_between op a b
        rw [root] at same
        cases same
      | _ => cases same

namespace Fits

variable {ls : List Lexeme} {level p : Priority} {g : List Priority} {s : Term Name}

theorem stands (h : Fits ls level g s) (hp : p ≤ level) : Stands ls p s :=
  ⟨h.tidy, h.first, h.last, h.derives.of_le hp, fun op hchain hop => h.chain op hchain p hop hp⟩

theorem group (h : Fits ls level g s)
    (apart : ∀ op ∈ chains, op ∈ infixes p → ∀ a b, s ≠ .between op a b) :
    Stands (mark "(" :: ls ++ [mark ")"]) p s := by
  have close : (mark ")").IsLast := Lexeme.bracket_isLast (by decide)
  have tidy : Tidy (mark "(" :: ls ++ [mark ")"]) :=
    (h.tidy.snoc (by decide) h.last (Tidy.nil.bracket (by decide))).bracket (by decide)
  have grouped : Derives .primary (Layout.tokens (mark "(" :: ls ++ [mark ")"])) s.leftward := by
    simpa using (h.derives.of_le (statement_le _)).group
  exact ⟨tidy, fun _ => ⟨mark "(", rfl, '(', rfl, rfl⟩, ⟨_, List.getLast?_concat, close⟩,
    grouped.of_le (le_primary p), fun op chain hop => .single (grouped.of_le (le_primary _))
      (Term.leftward_ne_between (apart op chain hop))⟩

end Fits

namespace Writes

variable {ph : Phrase} {s : Term Name}

theorem within (h : Writes ph s) (p : Priority) : Written (ph.within p) p s := by
  obtain ⟨ls, text, leaves, fits⟩ := h
  rw [Phrase.within]
  split
  · next grouped =>
    exact ⟨_, by simp [text, String.append_assoc], by simp (disch := decide) [leaves],
      fun legible => (fits legible).group fun op chain hop =>
        (fits legible).apart op chain p hop grouped⟩
  · next loose =>
    exact ⟨ls, text, leaves, fun legible =>
      (fits legible).stands (Nat.not_lt.1 fun lt => loose (.inr lt))⟩

theorem renders (h : Writes ph s) (p : Priority) : Renders (ph.within p) p s := ⟨ph, rfl, h⟩

theorem of_text {text text' : String} {level : Priority} {g : List Priority}
    (h : Writes ⟨text, level, g⟩ s) (same : text' = text) : Writes ⟨text', level, g⟩ s := same ▸ h

theorem loose {text : String} {level p : Priority} (h : Writes ⟨text, level, []⟩ s)
    (hp : p ≤ level) : Written text p s := by
  obtain ⟨ls, text, leaves, fits⟩ := h
  exact ⟨ls, text, leaves, fun legible => (fits legible).stands hp⟩

theorem everywhere {text : String} (h : Writes ⟨text, .primary, []⟩ s) (p : Priority) :
    Written text p s := h.loose (le_primary p)

theorem lower {text : String} {level : Priority} (h : Writes ⟨text, .primary, []⟩ s)
    (unchained : ∀ op ∈ chains, ∀ q, op ∈ infixes q → q ≤ level) (hl : .assign ≤ level) :
    Writes ⟨text, level, []⟩ s := by
  obtain ⟨ls, text, leaves, fits⟩ := h
  refine ⟨ls, text, leaves, fun legible => ?_⟩
  obtain ⟨tidy, first, last, -, derives, chain, -⟩ := fits legible
  exact ⟨tidy, first, last, hl, derives.of_le (le_primary _),
    fun op hop q hq _ => chain op hop q hq (le_primary _), fun op hop q hq above => by
      have := unchained op hop q hq
      rcases above with above | above
      · cases above
      · exact absurd above (Nat.not_lt.2 this)⟩

theorem whole (h : Writes ph s) : Written (ph.within .statement) .assign s := by
  obtain ⟨ls, text, leaves, fits⟩ := h
  have unchained : Unchained .assign := by decide
  rw [Phrase.within]
  split
  · exact ⟨_, by simp [text, String.append_assoc], by simp (disch := decide) [leaves],
      fun legible => (fits legible).group fun op chain hop => absurd hop (unchained op chain)⟩
  · exact ⟨ls, text, leaves, fun legible => (fits legible).stands (fits legible).high⟩

theorem fixed {text : String} (h : Writes ⟨text, .primary, []⟩ s) (p : Priority) :
    Renders text p s := ⟨_, Phrase.within_primary text p, h⟩

theorem name (x : Name) : Writes ⟨x.text, .primary, []⟩ (.name x) :=
  ⟨[Surface.name x], by simp, rfl, fun legible =>
    .leaf (t := .name x) legible nofun .name fun _ _ _ _ => nofun⟩

theorem literal (s : String) : Writes ⟨s, .primary, []⟩ (.literal s) :=
  ⟨[Surface.literal s], by simp, rfl, fun legible =>
    .leaf (t := .literal s) legible nofun .literal fun _ _ _ _ => nofun⟩

variable {op text l r c : String} {p q : Priority} {g : List Priority} {t u v : Term Name}

theorem fits_before (hop : op ∈ prefixes) {ls : List Lexeme} (tidy : Tidy (mark op :: ls))
    (last : ∃ l ∈ ls.getLast?, l.IsLast)
    (derives : Derives .unary (Layout.tokens ls) t.leftward) :
    Fits (mark op :: ls) .unary [] (.before op t) := by
  obtain ⟨-, leads⟩ := prefixes_fit op hop
  refine .of_unchained tidy (fun value => ⟨mark op, rfl, ?_⟩) ?_ (by decide) (derives.before hop)
    (by decide) fun _ _ _ _ => nofun
  · simp only [Term.isReference, Bool.or_eq_false_iff, beq_eq_false_iff_ne] at value
    exact Option.any_eq_true _ _ |>.1 (leads value.1 value.2)
  · obtain ⟨l, hl, isLast⟩ := last
    exact ⟨l, last_cons hl _, isLast⟩

theorem before_space (hop : op ∈ prefixes) (h : Written text .unary t) :
    Writes ⟨op ++ " " ++ text, .unary, []⟩ (.before op t) := by
  have hm := (prefixes_fit op hop).1
  obtain ⟨ls, rfl, leaves, stands⟩ := h
  refine ⟨mark op :: .space :: ls, by simp [String.append_assoc], by simp [leaves, hm],
    fun legible => ?_⟩
  obtain ⟨tidy, -, ⟨l, hl, isLast⟩, derives, -⟩ := stands legible
  exact fits_before hop (tidy.mark_space hm) ⟨l, last_cons hl _, isLast⟩ derives

theorem before (hop : op ∈ prefixes) (h : Written text .unary t) (value : t.isReference = false)
    (free : ∀ c ∈ text.toList.head?, leads c → c ∉ extensions op) :
    Writes ⟨op ++ text, .unary, []⟩ (.before op t) := by
  have hm := (prefixes_fit op hop).1
  obtain ⟨ls, rfl, leaves, stands⟩ := h
  refine ⟨mark op :: ls, by simp, by simp [leaves, hm], fun legible => ?_⟩
  obtain ⟨tidy, first, last, derives, -⟩ := stands legible
  obtain ⟨m, hm', c, hc, lead⟩ := first value
  refine fits_before hop (tidy.mark hm ?_) last derives
  intro m' mem
  cases Option.mem_unique mem hm'
  refine Lexeme.mark_meets fun d hd => ?_
  obtain rfl := Option.mem_unique hd hc
  refine free d ?_ lead
  obtain ⟨rest, rfl⟩ := List.head?_eq_some_iff.1 hm'
  obtain ⟨cs, hcs⟩ := List.head?_eq_some_iff.1 hc
  simp [hcs]

theorem after (hop : op ∈ postfixes) (h : Written text .primary t) (value : t.isReference = false) :
    Writes ⟨text ++ op, .primary, []⟩ (.after op t) := by
  obtain ⟨follows, hm, free⟩ := postfixes_fit op hop
  obtain ⟨ls, rfl, leaves, stands⟩ := h
  refine ⟨ls ++ [mark op], by simp, by simp [leaves, hm], fun legible => ?_⟩
  obtain ⟨tidy, first, last, derives, -⟩ := stands legible
  obtain ⟨m, hm', lead⟩ := first value
  show Fits _ .primary [] _
  refine .of_unchained (tidy.snoc follows last (Tidy.nil.mark_free hm free))
    (fun _ => ⟨m, first_append hm' _, lead⟩) ⟨mark op, List.getLast?_concat, free⟩ (by decide) ?_
    (by decide) fun _ _ _ _ => nofun
  simpa [Term.leftward] using derives.after hop

theorem infixes_fit : ∀ p, p ≠ .statement → ∀ op ∈ infixes p, op ∈ marks ∧ .assign ≤ p ∧
    (op ∉ chains → Unchained p) := by
  intro p
  cases p <;> decide

theorem spaced_last {ls rs : List Lexeme} (last : ∃ l ∈ rs.getLast?, l.IsLast) (m : Lexeme) :
    ∃ l ∈ (ls ++ .space :: m :: .space :: rs).getLast?, l.IsLast := by
  obtain ⟨l, hl, isLast⟩ := last
  exact ⟨l, last_append (last_cons (last_cons (last_cons hl _) _) _) ls, isLast⟩

theorem between (hop : op ∈ infixes p) (hp : p ≠ .statement) (single : op ∉ chains)
    (hl : Written l p t) (value : t.isReference = false) (hr : Written r p.tighter u) :
    Writes ⟨l ++ " " ++ op ++ " " ++ r, p, g⟩ (.between op t u) := by
  obtain ⟨hm, high, unchained⟩ := infixes_fit p hp op hop
  obtain ⟨ls, rfl, leaves, stands⟩ := hl
  obtain ⟨rs, rfl, leaves', stands'⟩ := hr
  refine ⟨ls ++ .space :: mark op :: .space :: rs, by simp [String.append_assoc],
    by simp [leaves, leaves', hm], fun legible => ?_⟩
  obtain ⟨tidy, first, last, derives, -⟩ := stands legible.1
  obtain ⟨tidy', -, last', derives', -⟩ := stands' legible.2
  obtain ⟨m, hm', lead⟩ := first value
  refine .of_unchained (tidy.between hm last tidy') (fun _ => ⟨m, first_append hm' _, lead⟩)
    (spaced_last last' _) high ?_ (unchained single) ?_
  · rw [Term.leftward_of_not_mem single]
    simpa using derives.between hop derives'
  · rintro op' chain a b ⟨⟩
    exact single chain

theorem infixes_inj (hp : op ∈ infixes p) (hq : op ∈ infixes q) : p = q := by
  have found := (State.infix?_of_mem p (State.mem_levels hp) op hp).2.2.2
  have found' := (State.infix?_of_mem q (State.mem_levels hq) op hq).2.2.2
  simpa [found] using found'

theorem chain (hop : op ∈ infixes p) (hchain : op ∈ chains) (free : ∀ q ∈ g, op ∉ infixes q)
    (hl : Written l p t) (value : t.isReference = false) (hr : Written r p u) :
    Writes ⟨l ++ " " ++ op ++ " " ++ r, p, g⟩ (.between op t u) := by
  have hp : p ≠ .statement := by
    have apart : Unchained .statement := by decide
    rintro rfl
    exact apart op hchain hop
  obtain ⟨hm, high, -⟩ := infixes_fit p hp op hop
  obtain ⟨ls, rfl, leaves, stands⟩ := hl
  obtain ⟨rs, rfl, leaves', stands'⟩ := hr
  refine ⟨ls ++ .space :: mark op :: .space :: rs, by simp [String.append_assoc],
    by simp [leaves, leaves', hm], fun legible => ?_⟩
  obtain ⟨tidy, first, last, -, links⟩ := stands legible.1
  obtain ⟨tidy', -, last', -, links'⟩ := stands' legible.2
  obtain ⟨m, hm', lead⟩ := first value
  have whole : Chain op p (Layout.tokens (ls ++ .space :: mark op :: .space :: rs))
      (Term.between op t u).leftward := by
    rw [Term.leftward, if_pos hchain]
    simpa using (links op hchain hop).graft (links' op hchain hop)
  refine ⟨tidy.between hm last tidy', fun _ => ⟨m, first_append hm' _, lead⟩,
    spaced_last last' _, high, whole.derives hop, fun op' chain q hop' hq => ?_, ?_⟩
  · by_cases same : q = p
    · subst same
      rwa [infixes_eq_of_chains hop hchain hop']
    · have below : q.rank < p.rank :=
        Nat.lt_of_le_of_ne hq fun h => same (Priority.rank_inj h)
      refine .single ((whole.derives hop).of_le ?_) (Term.leftward_ne_between ?_)
      · rw [Priority.le_iff, Priority.rank_tighter]
        omega
      · rintro a b ⟨⟩
        exact same (infixes_inj hop' hop)
  · rintro op' chain q hop' hq a b ⟨⟩
    obtain rfl := infixes_inj hop hop'
    rcases hq with hq | hq
    · exact free _ hq hop
    · exact Nat.lt_irrefl _ hq

theorem assignments_fit : ∀ op ∈ assignments, op ∈ marks ∧ op ∉ chains := by decide

theorem assignment (hop : op ∈ assignments) (hl : Written l .condOr t)
    (value : t.isReference = false) (hr : Written r .assign u) :
    Writes ⟨l ++ " " ++ op ++ " " ++ r, .assign, []⟩ (.between op t u) := by
  obtain ⟨hm, single⟩ := assignments_fit op hop
  obtain ⟨ls, rfl, leaves, stands⟩ := hl
  obtain ⟨rs, rfl, leaves', stands'⟩ := hr
  refine ⟨ls ++ .space :: mark op :: .space :: rs, by simp [String.append_assoc],
    by simp [leaves, leaves', hm], fun legible => ?_⟩
  obtain ⟨tidy, first, last, derives, -⟩ := stands legible.1
  obtain ⟨tidy', -, last', derives', -⟩ := stands' legible.2
  obtain ⟨m, hm', lead⟩ := first value
  show Fits _ .assign [] _
  refine .of_unchained (tidy.between hm last tidy') (fun _ => ⟨m, first_append hm' _, lead⟩)
    (spaced_last last' _) (by decide) ?_ (by decide) ?_
  · rw [Term.leftward_of_not_mem single]
    simpa using derives.assignment hop derives'
  · rintro op' chain a b ⟨⟩
    exact single chain

theorem conditional (hc : Written c .condOr t) (value : t.isReference = false)
    (hl : Written l .cond u) (hr : Written r .cond v) :
    Writes ⟨c ++ " ? " ++ l ++ " : " ++ r, .cond, []⟩ (.conditional t u v) := by
  obtain ⟨cs, rfl, leaves, stands⟩ := hc
  obtain ⟨ls, rfl, leaves', stands'⟩ := hl
  obtain ⟨rs, rfl, leaves'', stands''⟩ := hr
  have question : " ? " = " " ++ ("?" ++ " ") := by decide
  have colon : " : " = " " ++ (":" ++ " ") := by decide
  refine ⟨(cs ++ .space :: mark "?" :: .space :: ls) ++ .space :: mark ":" :: .space :: rs, ?_,
    by simp (disch := decide) [leaves, leaves', leaves''], fun legible => ?_⟩
  · simp only [question, colon, Layout.text_append, Layout.text_cons, text_space, text_mark,
      String.append_assoc]
  obtain ⟨tidy, first, last, derives, -⟩ := stands legible.1
  obtain ⟨tidy', -, last', derives', -⟩ := stands' legible.2.1
  obtain ⟨tidy'', -, last'', derives'', -⟩ := stands'' legible.2.2
  obtain ⟨m, hm', lead⟩ := first value
  show Fits _ .cond [] _
  refine .of_unchained ?_ (fun _ => ⟨m, first_append (first_append hm' _) _, lead⟩)
    (spaced_last last'' _) (by decide) ?_ (by decide) fun _ _ _ _ => nofun
  · exact (tidy.between (by decide) last tidy').between (by decide) (spaced_last last' _) tidy''
  · simpa [Term.leftward] using derives.conditional (derives'.of_le (statement_le _))
      (derives''.of_le (q := .cond) (by decide))

theorem bracketed {ls rs : List Lexeme} {s close : String} (hs : s ∈ followers) (hb : s ∈ brackets)
    (hclose : close ∈ followers) (hb' : close ∈ brackets) (tidy : Tidy ls)
    (last : ∃ l ∈ ls.getLast?, l.IsLast) (tidy' : Tidy rs) (last' : ∃ l ∈ rs.getLast?, l.IsLast) :
    Tidy (ls ++ mark s :: (rs ++ [mark close])) :=
  tidy.snoc hs last ((tidy'.snoc hclose last' (Tidy.nil.bracket hb')).bracket hb)

theorem index (hl : Written l .primary t) (value : t.isReference = false)
    (hr : Written r .statement u) : Writes ⟨l ++ "[" ++ r ++ "]", .primary, []⟩ (.index t u) := by
  obtain ⟨ls, rfl, leaves, stands⟩ := hl
  obtain ⟨rs, rfl, leaves', stands'⟩ := hr
  refine ⟨ls ++ mark "[" :: (rs ++ [mark "]"]), by simp [String.append_assoc],
    by simp (disch := decide) [leaves, leaves'], fun legible => ?_⟩
  obtain ⟨tidy, first, last, derives, -⟩ := stands legible.1
  obtain ⟨tidy', -, last', derives', -⟩ := stands' legible.2
  obtain ⟨m, hm', lead⟩ := first value
  have close : (mark "]").IsLast := Lexeme.bracket_isLast (by decide)
  show Fits _ .primary [] _
  refine .of_unchained ?_ (fun _ => ⟨m, first_append hm' _, lead⟩)
    ⟨_, last_append (last_cons List.getLast?_concat _) _, close⟩ (by decide) ?_ (by decide)
    fun _ _ _ _ => nofun
  · exact bracketed (by decide) (by decide) (by decide) (by decide) tidy last tidy' last'
  · simpa [Term.leftward] using derives.index derives'

theorem call (hl : Written l .primary t) (value : t.isReference = false)
    (hr : Written r .statement u) (some : u ≠ .nothing) :
    Writes ⟨l ++ "(" ++ r ++ ")", .primary, []⟩ (.call t u) := by
  obtain ⟨ls, rfl, leaves, stands⟩ := hl
  obtain ⟨rs, rfl, leaves', stands'⟩ := hr
  refine ⟨ls ++ mark "(" :: (rs ++ [mark ")"]), by simp [String.append_assoc],
    by simp (disch := decide) [leaves, leaves'], fun legible => ?_⟩
  obtain ⟨tidy, first, last, derives, -⟩ := stands legible.1
  obtain ⟨tidy', -, last', derives', -⟩ := stands' (legible.2.resolve_left some)
  obtain ⟨m, hm', lead⟩ := first value
  have close : (mark ")").IsLast := Lexeme.bracket_isLast (by decide)
  show Fits _ .primary [] _
  refine .of_unchained ?_ (fun _ => ⟨m, first_append hm' _, lead⟩)
    ⟨_, last_append (last_cons List.getLast?_concat _) _, close⟩ (by decide) ?_ (by decide)
    fun _ _ _ _ => nofun
  · exact bracketed (by decide) (by decide) (by decide) (by decide) tidy last tidy' last'
  · simpa [Term.leftward] using derives.call derives'

theorem callEmpty (hl : Written l .primary t) (value : t.isReference = false) :
    Writes ⟨l ++ "()", .primary, []⟩ (.call t .nothing) := by
  obtain ⟨ls, rfl, leaves, stands⟩ := hl
  have parens : "()" = "(" ++ ")" := by decide
  refine ⟨ls ++ [mark "(", mark ")"], by simp [parens],
    by simp (disch := decide) [leaves], fun legible => ?_⟩
  obtain ⟨tidy, first, last, derives, -⟩ := stands legible.1
  obtain ⟨m, hm', lead⟩ := first value
  have close : (mark ")").IsLast := Lexeme.bracket_isLast (by decide)
  have tidy' : Tidy [mark "(", mark ")"] :=
    (Tidy.nil.bracket (by decide)).bracket (by decide)
  show Fits _ .primary [] _
  refine .of_unchained (tidy.snoc (by decide) last tidy')
    (fun _ => ⟨m, first_append hm' _, lead⟩) ⟨_, last_append rfl _, close⟩ (by decide) ?_
    (by decide)
    fun _ _ _ _ => nofun
  simpa [Term.leftward] using derives.callEmpty

theorem accesses_fit : ∀ a ∈ accesses, a ∈ marks ∧ (extensions a).all (!leads ·) ∧
    a.toList.head?.all parts := by decide

theorem member {a : String} (ha : a ∈ accesses) (hl : Written l .primary t)
    (value : t.isReference = false) (x : Name) :
    Writes ⟨l ++ a ++ x.text, .primary, []⟩ (.member t a x) := by
  obtain ⟨hm, apart, notWord⟩ := accesses_fit a ha
  obtain ⟨ls, rfl, leaves, stands⟩ := hl
  refine ⟨ls ++ [mark a, Surface.name x], by simp [String.append_assoc],
    by simp [leaves, hm], fun ⟨legible, notNumber, readable⟩ => ?_⟩
  have stands := stands legible
  obtain ⟨m, hm', lead⟩ := stands.first value
  obtain ⟨n, hn, isLast⟩ := stands.last
  have tidy : Tidy [mark a, Surface.name x] := by
    refine (Tidy.name readable).mark hm ?_
    rintro _ ⟨⟩
    refine Lexeme.mark_meets fun c hc mem => ?_
    obtain ⟨d, hd, lead⟩ := readable.leads nofun
    obtain rfl := Option.mem_unique hc hd
    simpa [lead] using List.all_eq_true.1 apart c mem
  have meets : n.Meets (mark a) := by
    refine isLast.meets fun c hc => ?_
    have parted := Option.all_eq_true _ _ |>.1 notWord c hc
    have notNumber := stands.last_not_number notNumber n hn
    simp_all [parts]
  have whole : Tidy (ls ++ [mark a, Surface.name x]) := by
    refine stands.tidy.append tidy ?_
    rintro n' hn' _ ⟨⟩
    rwa [Option.mem_unique hn' hn]
  show Fits _ .primary [] _
  refine .of_unchained whole (fun _ => ⟨m, first_append hm' _, lead⟩)
    ⟨Surface.name x, last_append rfl _, trivial⟩
    (by decide) ?_ (by decide) fun _ _ _ _ => nofun
  simpa [Term.leftward] using stands.derives.member ha

theorem braces (x : Name) : Writes ⟨x.text ++ "\x7b\x7d", .primary, []⟩ (.braces x) := by
  have pair : "\x7b\x7d" = "\x7b" ++ "\x7d" := by decide
  refine ⟨[Surface.name x, mark "\x7b", mark "\x7d"], by simp [pair],
    by simp (disch := decide), fun readable => ?_⟩
  have tidy : Tidy [mark "\x7b", mark "\x7d"] :=
    (Tidy.nil.bracket (by decide)).bracket (by decide)
  have close : (mark "\x7d").IsLast := Lexeme.bracket_isLast (by decide)
  have whole : Tidy ([Surface.name x] ++ [mark "\x7b", mark "\x7d"]) :=
    (Tidy.name readable).snoc (by decide) ⟨_, rfl, trivial⟩ tidy
  show Fits _ .primary [] _
  exact .of_unchained whole (fun _ => ⟨_, rfl, readable.leads nofun⟩) ⟨_, rfl, close⟩ (by decide)
    .braces (by decide) fun _ _ _ _ => nofun

theorem list (h : Written text .statement t) :
    Writes ⟨"\x7b" ++ text ++ "\x7d", .primary, []⟩ (.list t) := by
  obtain ⟨ls, rfl, leaves, -⟩ := h
  exact ⟨mark "\x7b" :: ls ++ [mark "\x7d"], by simp [String.append_assoc],
    by simp (disch := decide) [leaves], nofun⟩

theorem listEmpty : Writes ⟨"\x7b\x7d", .primary, []⟩ (.list .nothing) :=
  ⟨[mark "\x7b", mark "\x7d"], by decide, rfl, nofun⟩

theorem declaration (ty x : Name) (h : Written text p t) :
    Writes ⟨ty.text ++ " " ++ x.text ++ " = " ++ text, .primary, []⟩ (.declaration ty x t) := by
  obtain ⟨ls, rfl, leaves, -⟩ := h
  have equals : " = " = " " ++ ("=" ++ " ") := by decide
  refine ⟨Surface.name ty :: .space :: Surface.name x :: .space :: mark "=" :: .space :: ls, ?_,
    by simp (disch := decide) [leaves], nofun⟩
  simp only [equals, Layout.text_cons, text_name, text_space, text_mark, String.append_assoc]

theorem declarationBare (ty x : Name) :
    Writes ⟨ty.text ++ " " ++ x.text, .primary, []⟩ (.declaration ty x .nothing) :=
  ⟨[Surface.name ty, .space, Surface.name x], by simp [String.append_assoc], rfl, nofun⟩

theorem declarationEmpty (ty x : Name) :
    Writes ⟨ty.text ++ " " ++ x.text ++ "\x7b\x7d", .primary, []⟩
      (.declaration ty x (.list .nothing)) := by
  have pair : "\x7b\x7d" = "\x7b" ++ "\x7d" := by decide
  refine ⟨[Surface.name ty, .space, Surface.name x, mark "\x7b", mark "\x7d"], ?_, rfl, nofun⟩
  simp [pair, String.append_assoc]

end Writes

namespace Renders

variable {text : String} {s : Term Name}

theorem written {p : Priority} (h : Renders text p s) : Written text p s := by
  obtain ⟨ph, rfl, writes⟩ := h
  exact writes.within p

theorem whole (h : Renders text .statement s) : Written text .assign s := by
  obtain ⟨ph, rfl, writes⟩ := h
  exact writes.whole

end Renders

theorem joined_cons_cons (s t : String) (texts : List String) :
    joined (s :: t :: texts) = joined ((s ++ ", " ++ t) :: texts) := by
  cases texts with
  | nil => simp [joined, String.append_assoc]
  | cons u texts => simp [joined, String.append_assoc]

namespace Written

variable {text l r : String} {t u : Term Name}

theorem comma (hl : Written l .statement t) (hr : Written r .assign u) :
    Written (l ++ ", " ++ r) .statement (.between "," t u) := by
  obtain ⟨ls, rfl, leaves, stands⟩ := hl
  obtain ⟨rs, rfl, leaves', stands'⟩ := hr
  have separator : ", " = "," ++ " " := by decide
  refine ⟨ls ++ mark "," :: .space :: rs, ?_,
    by simp (disch := decide) [leaves, leaves'], fun legible => ?_⟩
  · simp only [separator, Layout.text_append, Layout.text_cons, text_mark, text_space,
      String.append_assoc]
  obtain ⟨tidy, first, last, derives, -⟩ := stands legible.1
  obtain ⟨tidy', -, ⟨m, hm, isLast⟩, derives', -⟩ := stands' legible.2
  refine ⟨tidy.snoc (by decide) last (tidy'.mark_space (by decide)), fun value => ?_,
    ⟨m, last_append (last_cons (last_cons hm _) _) _, isLast⟩, ?_, ?_⟩
  · obtain ⟨n, hn, lead⟩ := first (by simpa [Term.isReference] using value)
    exact ⟨n, first_append hn _, lead⟩
  · rw [Term.leftward_of_not_mem (by decide)]
    have comma : "," ∈ infixes .statement := by decide
    simpa using derives.between comma derives'
  · have unchained : Unchained .statement := by decide
    exact fun op chain hop => absurd hop (unchained op chain)

theorem of_le {p q : Priority} (h : Written text q t) (hpq : p ≤ q) (unchained : Unchained p) :
    Written text p t := by
  obtain ⟨ls, rfl, leaves, stands⟩ := h
  refine ⟨ls, rfl, leaves, fun legible => ?_⟩
  obtain ⟨tidy, first, last, derives, -⟩ := stands legible
  exact ⟨tidy, first, last, derives.of_le hpq, fun op chain hop => absurd hop (unchained op chain)⟩

theorem joined {texts : List String} {ts : List (Term Name)} (h : Written text .statement t)
    (hs : List.Forall₂ (fun text t => Written text .assign t) texts ts) :
    Written (joined (text :: texts)) .statement (.items (t :: ts)) := by
  induction hs generalizing text t with
  | nil => simpa [CppEmission.joined, Term.items] using h
  | cons hu _ ih =>
    rw [joined_cons_cons]
    exact ih (h.comma hu)

end Written

end CppEmission.Surface
