import CppEmission.Proofs.Grammar.Token
import CppEmission.Spelling
import Mathlib.Data.List.Perm.Basic

namespace CppEmission

open Grammar

namespace Ty

def builtins : List (String × Ty) :=
  [("bool", bool), ("int8_t", int .i8), ("int16_t", int .i16), ("int32_t", int .i32),
    ("int64_t", int .i64), ("uint8_t", int .u8), ("uint16_t", int .u16), ("uint32_t", int .u32),
    ("uint64_t", int .u64), ("float", float), ("double", double),
    ("std::string", string .storage), ("std::string_view", string .view)]

def isTypeName (name : String) : Bool := isIdentifier name && (builtins.lookup name).isNone

/-- The type holds no null, its classes and enums are named as such, and the enums are among those
listed and the classes are not. -/
def Named (enums : List String) : Ty → Prop
  | null => False
  | array elem _ | list elem => elem.Named enums
  | object c _ => isTypeName c ∧ c ∉ enums
  | enum e => isTypeName e ∧ e ∈ enums
  | map key value => key.Named enums ∧ value.Named enums
  | _ => True

def text : Ty → String
  | null => ""
  | bool => "bool"
  | int k => k.spelling
  | float => "float"
  | double => "double"
  | string .view => "std::string_view"
  | string .storage => "std::string"
  | array elem shape => shape.spelling elem.text
  | object c held => held.spelling c
  | enum e => e
  | list elem => "std::vector<" ++ elem.text ++ ">"
  | map key value =>
    "std::map<" ++ (if key.isString then "std::string" else key.text) ++ ", " ++ value.text ++ ">"

theorem spelling_eq_text {enums : List String} {t : Ty} (h : t.Named enums) :
    t.spelling = .ok t.text := by
  induction t with
  | null => exact h.elim
  | bool | int | float | double | object | enum => rfl
  | string shape => cases shape <;> rfl
  | array elem shape ih => rw [spelling, ih h]; rfl
  | list elem ih => rw [spelling, ih h]; rfl
  | map key value ihk ihv =>
    rw [spelling, ihk h.1, ihv h.2, text]
    cases key.isString <;> rfl

def lend (h : Handle) : Ty → Ty
  | array t (.pointer .readOnly) =>
    match h with
    | .mutable => array (t.lend .mutable) (.pointer .readOnly)
    | h => array (array t (.pointer .readOnly)) (.pointer h)
  | t => array t (.pointer h)

/-- The type with a borrow of an object as one of an array of objects, and with the read-only ones
of nested borrows outermost. -/
def canonical : Ty → Ty
  | array elem (.pointer .shared) => array elem.canonical (.pointer .shared)
  | array elem (.pointer h) => elem.canonical.lend h
  | array elem (.storage n) => array elem.canonical (.storage n)
  | object c (.ptr .shared) => object c (.ptr .shared)
  | object c (.ptr h) => array (object c .value) (.pointer h)
  | list elem => list elem.canonical
  | map key value => map key.canonical value.canonical
  | t => t

def ownKeys : Ty → Ty
  | array elem shape => array elem.ownKeys shape
  | list elem => list elem.ownKeys
  | map key value => map (if key.isString then string .storage else key.ownKeys) value.ownKeys
  | t => t

def lentText (hs : List Handle) (text : List Char) : List Char :=
  (List.replicate (hs.count .readOnly) "const ".toList).flatten ++ text ++
    (List.replicate hs.length " *".toList).flatten

theorem lentText_append (hs ks : List Handle) (text : List Char) :
    lentText (hs ++ ks) text = lentText hs (lentText ks text) := by
  have stars : List.replicate (hs ++ ks).length " *".toList =
      List.replicate ks.length " *".toList ++ List.replicate hs.length " *".toList := by
    rw [List.replicate_append_replicate, List.length_append, Nat.add_comm]
  rw [lentText, stars, List.count_append, ← List.replicate_append_replicate,
    List.flatten_append, List.flatten_append]
  simp only [lentText, List.append_assoc]

theorem lentText_singleton {h : Handle} (borrow : h.isBorrow) (text : String) :
    lentText [h] text.toList = ((ArrayShape.pointer h).spelling text).toList := by
  cases h with
  | readOnly =>
    show _ = ("const " ++ text ++ " *").toList
    simp [lentText]
  | mutable =>
    show _ = (text ++ " *").toList
    simp [lentText]
  | shared => cases borrow

theorem lend_readOnly (t : Ty) : t.lend .readOnly = array t (.pointer .readOnly) := by
  unfold lend
  split <;> rfl

theorem lend_comm {h k : Handle} (hh : h.isBorrow) (hk : k.isBorrow) (t : Ty) :
    (t.lend h).lend k = (t.lend k).lend h := by
  cases h <;> cases k <;> first
    | rfl
    | contradiction
    | rw [lend_readOnly, lend_readOnly, lend]

theorem perm_of_borrows {hs ks : List Handle} (hhs : ∀ h ∈ hs, h.isBorrow)
    (hks : ∀ k ∈ ks, k.isBorrow) (length : hs.length = ks.length)
    (readOnly : hs.count .readOnly = ks.count .readOnly) : hs.Perm ks := by
  have split {hs : List Handle} (hhs : ∀ h ∈ hs, h.isBorrow) :
      hs.length = hs.count .readOnly + hs.count .mutable ∧ hs.count .shared = 0 := by
    induction hs with
    | nil => exact ⟨rfl, rfl⟩
    | cons h hs ih =>
      obtain ⟨hh, hhs⟩ := List.forall_mem_cons.1 hhs
      have := ih hhs
      cases h <;> simp_all [Handle.isBorrow] <;> omega
  have := split hhs
  have := split hks
  apply List.perm_iff_count.2
  intro h
  cases h <;> omega

def isNameChar (c : Char) : Bool := isWordChar c || c == ':'

def stars : List Char → Nat × List Char
  | ' ' :: '*' :: rest => (stars rest).map (· + 1) id
  | rest => (0, rest)

def readRest (enums : List String) (inner : List Char → Option (Ty × List Char)) (word : String)
    (rest : List Char) : Option (Ty × List Char) :=
  match word with
  | "std::vector" => do
    let (elem, rest) ← inner (rest.drop 1)
    return (list elem, rest.drop 1)
  | "std::map" => do
    let (key, rest) ← inner (rest.drop 1)
    let (value, rest) ← inner (rest.drop 2)
    return (map key value, rest.drop 1)
  | "std::array" => do
    let (elem, rest) ← inner (rest.drop 1)
    let digits := (rest.drop 2).takeWhile Char.isDigit
    let length := Nat.ofDigitChars 10 digits 0
    return (array elem (.storage length), ((rest.drop 2).drop digits.length).drop 1)
  | "std::shared_ptr" => do
    match ← inner (rest.drop 1) with
    | (elem, '[' :: rest) => return (array elem (.pointer .shared), rest.drop 2)
    | (object c .value, rest) => return (object c (.ptr .shared), rest.drop 1)
    | _ => none
  | word =>
    match builtins.lookup word with
    | some t => some (t, rest)
    | none => some (if word ∈ enums then enum word else object word .value, rest)

/-- Reads a type off the front of its spelling, some `const` having been read before. -/
def read (enums : List String) : (fuel consts : Nat) → List Char → Option (Ty × List Char)
  | 0, _, _ => none
  | fuel + 1, consts, text => do
    let word := text.takeWhile isNameChar
    let rest := text.drop word.length
    if word = "const".toList then read enums fuel (consts + 1) (rest.drop 1)
    else
      let (t, rest) ← readRest enums (read enums fuel 0) (String.ofList word) rest
      let (n, rest) := stars rest
      let handles := List.replicate consts .readOnly ++ List.replicate (n - consts) .mutable
      return (handles.foldr lend t, rest)

def Ends (rest : List Char) : Prop := ∀ c ∈ rest.head?, isNameChar c = false ∧ c ≠ ' '

def Reads (enums : List String) (depth : Nat) (text : List Char) (t : Ty) : Prop :=
  ∀ hs fuel rest, (∀ h ∈ hs, h.isBorrow) → Ends rest → depth + hs.length < fuel →
    read enums fuel 0 (lentText hs text ++ rest) = some (hs.foldr lend t, rest)

variable {enums : List String} {depth : Nat}

theorem forall_head?_append {p : Char → Prop} {text rest : List Char} (ht : ∀ c ∈ text.head?, p c)
    (hr : ∀ c ∈ rest.head?, p c) : ∀ c ∈ (text ++ rest).head?, p c := by
  cases text with
  | nil => exact hr
  | cons => exact ht

theorem stars_append (n : Nat) {rest : List Char} (h : Ends rest) :
    stars ((List.replicate n " *".toList).flatten ++ rest) = (n, rest) := by
  induction n with
  | zero =>
    show stars rest = (0, rest)
    unfold stars
    split
    · exact absurd rfl (h ' ' rfl).2
    · rfl
  | succ n ih =>
    show (stars ((List.replicate n " *".toList).flatten ++ rest)).map (· + 1) id = _
    rw [ih]
    rfl

theorem read_consts (n fuel consts : Nat) (text : List Char) :
    read enums (fuel + n) consts ((List.replicate n "const ".toList).flatten ++ text) =
      read enums fuel (consts + n) text := by
  induction n generalizing consts with
  | zero => rfl
  | succ n ih =>
    have next := ih (consts + 1)
    rw [Nat.add_assoc, Nat.add_comm 1] at next
    rw [← next]
    rfl

theorem read_word {word : String} {rest after : List Char} {t : Ty} {n fuel consts : Nat}
    (hw : word.toList.all isNameChar) (hc : word ≠ "const")
    (hrest : ∀ c ∈ rest.head?, isNameChar c = false) (hafter : Ends after)
    (h : readRest enums (read enums fuel 0) word rest =
      some (t, (List.replicate n " *".toList).flatten ++ after)) :
    read enums (fuel + 1) consts (word.toList ++ rest) =
      some ((List.replicate consts Handle.readOnly ++
        List.replicate (n - consts) Handle.mutable).foldr lend t, after) := by
  have first := takeWhile_append (List.all_eq_true.1 hw) hrest
  have other : word.toList ≠ "const".toList := fun h => hc (String.toList_inj.1 h)
  simp only [read, first, if_neg other, List.drop_left, String.ofList_toList, h,
    Option.bind_eq_bind, Option.bind_some, stars_append n hafter]
  rfl

theorem Reads.intro {word : String} {args : List Char} {t : Ty}
    (hw : word.toList.all isNameChar) (hc : word ≠ "const")
    (hargs : ∀ c ∈ args.head?, isNameChar c = false)
    (h : ∀ fuel rest, depth ≤ fuel →
      readRest enums (read enums fuel 0) word (args ++ rest) = some (t, rest)) :
    Reads enums depth (word.toList ++ args) t := by
  intro hs fuel rest hhs hrest hfuel
  have counted : hs.count .readOnly ≤ hs.length := List.count_le_length
  obtain ⟨more, rfl⟩ : ∃ more, fuel = more + 1 + hs.count .readOnly :=
    ⟨fuel - 1 - hs.count .readOnly, by omega⟩
  have perm : hs.Perm (List.replicate (hs.count .readOnly) .readOnly ++
      List.replicate (hs.length - hs.count .readOnly) .mutable) := by
    apply perm_of_borrows hhs
    · intro h mem
      rcases List.mem_append.1 mem with mem | mem <;> rw [List.eq_of_mem_replicate mem] <;> rfl
    · simp [counted]
    · simp [List.count_replicate]
  have next : ∀ c ∈ (args ++ ((List.replicate hs.length " *".toList).flatten ++ rest)).head?,
      isNameChar c = false := by
    refine forall_head?_append hargs (forall_head?_append ?_ fun c hc => (hrest c hc).1)
    cases hs.length with
    | zero => simp
    | succ n => exact fun c hc => Option.some.inj hc ▸ (by decide : isNameChar ' ' = false)
  rw [lentText, List.append_assoc, List.append_assoc, List.append_assoc, read_consts,
    Nat.zero_add, read_word hw hc next hrest (h more _ (by omega)),
    perm.foldr_eq' fun h mem k mem' => lend_comm (hhs h mem) (hhs k mem')]

theorem Reads.name {word : String} {t : Ty} (hw : word.toList.all isNameChar)
    (hc : word ≠ "const")
    (h : ∀ inner rest, readRest enums inner word rest = some (t, rest)) :
    Reads enums depth word.toList t := by
  have : Reads enums depth (word.toList ++ []) t :=
    Reads.intro hw hc (by simp) fun fuel rest _ => h _ rest
  rwa [List.append_nil] at this

theorem Reads.lent {text : String} {t : Ty} {h : Handle} (ht : Reads enums depth text.toList t)
    (hh : h.isBorrow) :
    Reads enums (depth + 1) ((ArrayShape.pointer h).spelling text).toList (t.lend h) := by
  intro hs fuel rest hhs hrest hfuel
  have := ht (hs ++ [h]) fuel rest (by simpa [or_imp, forall_and] using ⟨hhs, hh⟩) hrest
    (by simp; omega)
  rwa [lentText_append, List.foldr_append, lentText_singleton hh] at this

theorem Reads.read_eq {text : List Char} {t : Ty} {fuel : Nat} {rest : List Char}
    (h : Reads enums depth text t) (hrest : Ends rest) (hfuel : depth < fuel) :
    read enums fuel 0 (text ++ rest) = some (t, rest) := by
  simpa [lentText] using h [] fuel rest (by simp) hrest hfuel

theorem readRest_typeName {name : String} (h : isTypeName name)
    (inner : List Char → Option (Ty × List Char)) (rest : List Char) :
    readRest enums inner name rest =
      some (if name ∈ enums then enum name else object name .value, rest) := by
  obtain ⟨id, unlisted⟩ := Bool.and_eq_true_iff.1 h
  have plain {word : String} (colon : ':' ∈ word.toList) : name ≠ word := by
    rintro rfl
    exact absurd (isWordChar_of_isIdentifier id _ colon) (by decide)
  unfold readRest
  split
  iterate 4 exact absurd rfl (plain (by decide))
  rw [Option.isNone_iff_eq_none.1 unlisted]

theorem Reads.typeName {name : String} (h : isTypeName name) :
    Reads enums depth name.toList (if name ∈ enums then enum name else object name .value) := by
  obtain ⟨id, -⟩ := Bool.and_eq_true_iff.1 h
  refine Reads.name (List.all_eq_true.2 fun c hc => ?_) ?_ fun inner rest =>
    readRest_typeName h inner rest
  · simp [isNameChar, isWordChar_of_isIdentifier id c hc]
  · rintro rfl
    revert id
    decide

theorem ends_of_head {c : Char} {rest : List Char} (h : (!isNameChar c && c != ' ') = true) :
    Ends (c :: rest) := by
  simpa [Ends] using h

theorem Reads.template {word : String} {text close : List Char} {t u : Ty}
    (hw : word.toList.all isNameChar) (hc : word ≠ "const") (ht : Reads enums depth text t)
    (hclose : Ends close) (nonempty : close ≠ [])
    (h : ∀ fuel rest, depth < fuel →
      read enums fuel 0 (text ++ (close ++ rest)) = some (t, close ++ rest) →
      readRest enums (read enums fuel 0) word ('<' :: (text ++ (close ++ rest))) = some (u, rest)) :
    Reads enums (depth + 1) (word.toList ++ '<' :: (text ++ close)) u := by
  have angle : ∀ c ∈ ('<' :: (text ++ close)).head?, isNameChar c = false :=
    fun c hc => Option.some.inj hc ▸ (by decide : isNameChar '<' = false)
  refine Reads.intro hw hc angle fun fuel rest hf => ?_
  have ends : Ends (close ++ rest) := by
    cases close with
    | nil => contradiction
    | cons => exact hclose
  have := h fuel rest hf (ht.read_eq ends hf)
  rwa [List.cons_append, List.append_assoc]

theorem Reads.mono {n : Nat} {text : List Char} {t : Ty} (h : Reads enums depth text t)
    (hn : depth ≤ n) : Reads enums n text t :=
  fun hs fuel rest hhs hrest hf => h hs fuel rest hhs hrest (by omega)

theorem Reads.list {text : List Char} {t : Ty} (h : Reads enums depth text t) :
    Reads enums (depth + 1) ("std::vector".toList ++ '<' :: (text ++ ">".toList)) (list t) := by
  refine Reads.template (by decide) (by decide) h (ends_of_head (by decide)) (by simp)
    fun fuel rest _ hread => ?_
  simp_all [readRest]

theorem Reads.map {kt vt : List Char} {key value : Ty} (hk : Reads enums depth kt key)
    (hv : Reads enums depth vt value) :
    Reads enums (depth + 1) ("std::map".toList ++ '<' :: (kt ++ (", ".toList ++ vt ++ ">".toList)))
      (map key value) := by
  refine Reads.template (by decide) (by decide) hk (ends_of_head (by decide)) (by simp)
    fun fuel rest hf hread => ?_
  have ends : Ends (">".toList ++ rest) := ends_of_head (by decide)
  have := hv.read_eq ends hf
  simp_all [readRest]

theorem Reads.storage {text : List Char} {t : Ty} (n : Nat) (h : Reads enums depth text t) :
    Reads enums (depth + 1)
      ("std::array".toList ++ '<' :: (text ++ (", ".toList ++ (Nat.repr n).toList ++ ">".toList)))
      (array t (.storage n)) := by
  refine Reads.template (by decide) (by decide) h (ends_of_head (by decide)) (by simp)
    fun fuel rest _ hread => ?_
  have digits : ∀ c ∈ Nat.toDigits 10 n, c.isDigit := fun c hc =>
    Nat.isDigit_of_mem_toDigits (by decide) (by decide) hc
  have run : (Nat.toDigits 10 n ++ '>' :: rest).takeWhile Char.isDigit = Nat.toDigits 10 n :=
    takeWhile_append digits (by simp)
  simp_all [readRest, Nat.toList_repr, Nat.ofDigitChars_ten_toDigits, Nat.add_comm 2]

theorem Reads.sharedArray {text : List Char} {t : Ty} (h : Reads enums depth text t) :
    Reads enums (depth + 1) ("std::shared_ptr".toList ++ '<' :: (text ++ "[]>".toList))
      (array t (.pointer .shared)) := by
  refine Reads.template (by decide) (by decide) h (ends_of_head (by decide)) (by simp)
    fun fuel rest _ hread => ?_
  simp_all [readRest]

theorem Reads.sharedObject {text : List Char} {c : String}
    (h : Reads enums depth text (object c .value)) :
    Reads enums (depth + 1) ("std::shared_ptr".toList ++ '<' :: (text ++ ">".toList))
      (object c (.ptr .shared)) := by
  refine Reads.template (by decide) (by decide) h (ends_of_head (by decide)) (by simp)
    fun fuel rest _ hread => ?_
  simp_all [readRest]

theorem exists_reads_text {t : Ty} (h : t.Named enums) :
    ∃ depth, Reads enums depth t.text.toList t.ownKeys.canonical := by
  have word {word : String} {t : Ty} (hw : word.toList.all isNameChar) (hc : word ≠ "const")
      (h : ∀ inner rest, readRest enums inner word rest = some (t, rest)) :
      ∃ depth, Reads enums depth word.toList t := ⟨0, Reads.name hw hc h⟩
  induction t with
  | null => exact h.elim
  | bool => exact word (by decide) (by decide) fun _ _ => rfl
  | int k => cases k <;> exact word (by decide) (by decide) fun _ _ => rfl
  | float => exact word (by decide) (by decide) fun _ _ => rfl
  | double => exact word (by decide) (by decide) fun _ _ => rfl
  | string shape =>
    cases shape <;> exact word (by decide) (by decide) fun _ _ => rfl
  | object c held =>
    have named : Reads enums 0 c.toList (object c .value) := by
      have read : Reads enums 0 c.toList (if c ∈ enums then enum c else object c .value) :=
        Reads.typeName h.1
      rwa [if_neg h.2] at read
    rcases held with _ | _ | _ | _
    case value => exact ⟨0, named⟩
    case ptr.readOnly => exact ⟨1, named.lent (h := .readOnly) rfl⟩
    case ptr.mutable => exact ⟨1, named.lent (h := .mutable) rfl⟩
    case ptr.shared =>
      refine ⟨1, ?_⟩
      show Reads enums 1 ("std::shared_ptr<" ++ c ++ ">").toList _
      simpa [ownKeys, canonical] using named.sharedObject
  | enum e =>
    have named : Reads enums 0 e.toList (if e ∈ enums then enum e else object e .value) :=
      Reads.typeName h.1
    rw [if_pos h.2] at named
    exact ⟨0, named⟩
  | list elem ih =>
    obtain ⟨d, hd⟩ := ih h
    exact ⟨d + 1, by simpa [text, ownKeys, canonical] using hd.list⟩
  | map key value ihk ihv =>
    obtain ⟨v, hv⟩ := ihv h.2
    obtain ⟨k, hk⟩ : ∃ k, Reads enums k (if key.isString then "std::string" else key.text).toList
        (if key.isString then string .storage else key.ownKeys).canonical := by
      split
      · exact word (by decide) (by decide) fun _ _ => rfl
      · exact ihk h.1
    have := (hk.mono (k.le_add_right v)).map (hv.mono (v.le_add_left k))
    exact ⟨k + v + 1, by simpa [text, ownKeys, canonical] using this⟩
  | array elem shape ih =>
    obtain ⟨d, hd⟩ := ih h
    rcases shape with n | _ | _ | _
    case storage =>
      refine ⟨d + 1, ?_⟩
      show Reads enums _ ("std::array<" ++ elem.text ++ ", " ++ Nat.repr n ++ ">").toList _
      simpa [ownKeys, canonical] using hd.storage n
    case pointer.readOnly => exact ⟨d + 1, hd.lent (h := .readOnly) rfl⟩
    case pointer.mutable => exact ⟨d + 1, hd.lent (h := .mutable) rfl⟩
    case pointer.shared =>
      refine ⟨d + 1, ?_⟩
      show Reads enums _ ("std::shared_ptr<" ++ elem.text ++ "[]>").toList _
      simpa [ownKeys, canonical] using hd.sharedArray

theorem canonical_eq_of_spelling_eq {enums : List String} {t u : Ty} {s : String}
    (ht : t.Named enums) (hu : u.Named enums) (hts : t.spelling = .ok s)
    (hus : u.spelling = .ok s) : t.ownKeys.canonical = u.ownKeys.canonical := by
  obtain ⟨d, hd⟩ := exists_reads_text ht
  obtain ⟨e, he⟩ := exists_reads_text hu
  rw [spelling_eq_text ht] at hts
  rw [spelling_eq_text hu] at hus
  have same : t.text = u.text := by rw [Except.ok.inj hts, Except.ok.inj hus]
  have ends : Ends [] := by simp [Ends]
  have first := hd.read_eq ends (Nat.lt_succ_of_le (d.le_add_right e))
  have second := he.read_eq ends (Nat.lt_succ_of_le (e.le_add_left d))
  rw [same, second] at first
  exact (congrArg Prod.fst (Option.some.inj first)).symm

end Ty

end CppEmission
