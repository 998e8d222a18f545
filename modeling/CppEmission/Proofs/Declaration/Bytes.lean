import CppEmission.Proofs.Header.Inclusion
import CppEmission.Proofs.Inline.Phrase
import CppEmission.Proofs.Stmt.Branch
import CppEmission.Proofs.Units.Resource
import Mathlib.Data.List.TakeWhile

namespace CppEmission

open Writer

namespace Bytes

def hexDigit? (c : Char) : Option Nat :=
  if c.isDigit then some (c.toNat - '0'.toNat)
  else if 'a' ≤ c ∧ c ≤ 'f' then some (c.toNat - 'a'.toNat + 10)
  else if 'A' ≤ c ∧ c ≤ 'F' then some (c.toNat - 'A'.toNat + 10)
  else none

def literal? : List Char → Option UInt8
  | ['0', 'x', high, low] => do return .ofNat (16 * (← hexDigit? high) + (← hexDigit? low))
  | _ => none

def trimmed (cs : List Char) : List Char :=
  ((cs.dropWhile Char.isWhitespace).reverse.dropWhile Char.isWhitespace).reverse

def read? (cs : List Char) : Option (List UInt8) :=
  if cs.all Char.isWhitespace then some []
  else (cs.splitOn ',').mapM fun item => literal? (trimmed item)

theorem hexDigit?_digitChar {n : Nat} (h : n < 16) : hexDigit? n.digitChar = some n := by
  decide +revert

theorem literal?_byteText (b : UInt8) : literal? (byteText b).toList = some b := by
  have small := b.toNat_lt
  have high : hexDigit? (b.toNat / 16).digitChar = some (b.toNat / 16) :=
    hexDigit?_digitChar (by omega)
  have low : hexDigit? (b.toNat % 16).digitChar = some (b.toNat % 16) :=
    hexDigit?_digitChar (by omega)
  rw [byteText, String.toList_ofList, literal?, high, low]
  change some (UInt8.ofNat (16 * (b.toNat / 16) + b.toNat % 16)) = _
  rw [Nat.div_add_mod, UInt8.ofNat_toNat]

theorem isAlphanum_of_mem_byteText {b : UInt8} : ∀ c ∈ (byteText b).toList, c.isAlphanum := by
  have digit {n : Nat} (h : n < 16) : n.digitChar.isAlphanum := by decide +revert
  have small := b.toNat_lt
  have high := digit (n := b.toNat / 16) (by omega)
  have low := digit (n := b.toNat % 16) (by omega)
  simp [byteText, high, low]

theorem byteText_isInline (b : UInt8) : Inline (byteText b) := by
  refine ⟨.of_forall fun c hc => ?_, ?_⟩
  · have letter := isAlphanum_of_mem_byteText c hc
    refine ⟨?_, ?_, ?_⟩ <;> rintro rfl <;> cases letter
  · rw [byteText, String.toList_ofList]
    rfl

def IsBlank (cs : List Char) : Prop := ∀ c ∈ cs, c.isWhitespace

theorem IsBlank.single {c : Char} (h : c.isWhitespace) : IsBlank [c] :=
  List.forall_mem_singleton.2 h

theorem isBlank_margin (width level : Nat) : IsBlank (margin width level).toList := by
  intro c hc
  rw [margin, String.toList_ofList] at hc
  rw [List.eq_of_mem_replicate hc]
  rfl

section Trimmed

variable {cs front back : List Char}

theorem trimmed_append_left (h : IsBlank front) : trimmed (front ++ cs) = trimmed cs := by
  rw [trimmed, List.dropWhile_append_of_pos h, trimmed]

theorem trimmed_append_right (h : IsBlank back) : trimmed (cs ++ back) = trimmed cs := by
  rw [trimmed, List.dropWhile_append, trimmed]
  split
  case isTrue nothing =>
    rw [List.isEmpty_iff.1 nothing, List.dropWhile_eq_nil_iff.2 h]
  case isFalse =>
    rw [List.reverse_append, List.dropWhile_append_of_pos fun c hc => h c (List.mem_reverse.1 hc)]

theorem trimmed_eq_nil (h : IsBlank cs) : trimmed cs = [] := by
  have nothing : trimmed ([] ++ cs) = trimmed [] := trimmed_append_right h
  exact nothing

theorem trimmed_eq_self (h : ∀ c ∈ cs, c.isWhitespace = false) : trimmed cs = cs := by
  have kept {ds : List Char} (h : ∀ c ∈ ds, c.isWhitespace = false) :
      ds.dropWhile Char.isWhitespace = ds :=
    List.dropWhile_eq_self_iff.2 fun pos => by simpa using h _ (List.getElem_mem pos)
  rw [trimmed, kept h, kept fun c hc => h c (List.mem_reverse.1 hc), List.reverse_reverse]

end Trimmed

structure IsItem (cs : List Char) (b : UInt8) : Prop where
  value : literal? (trimmed cs) = some b
  single : ',' ∉ cs

namespace IsItem

variable {cs front back : List Char} {b : UInt8}

theorem byteText (b : UInt8) : IsItem (byteText b).toList b where
  value := by
    rw [trimmed_eq_self fun c hc => ?_, literal?_byteText]
    exact Grammar.isWhitespace_eq_false (by decide) (isAlphanum_of_mem_byteText c hc)
  single mem := by cases isAlphanum_of_mem_byteText _ mem

theorem pad_left (h : IsItem cs b) (blank : IsBlank front) : IsItem (front ++ cs) b where
  value := (congrArg literal? (trimmed_append_left blank)).trans h.value
  single mem := (List.mem_append.1 mem).elim (nomatch blank _ ·) h.single

theorem pad_right (h : IsItem cs b) (blank : IsBlank back) : IsItem (cs ++ back) b where
  value := (congrArg literal? (trimmed_append_right blank)).trans h.value
  single mem := (List.mem_append.1 mem).elim h.single (nomatch blank _ ·)

end IsItem

inductive Lists : List Char → List UInt8 → Prop
  | one {cs : List Char} {b : UInt8} (item : IsItem cs b) : Lists cs [b]
  | cons {cs ds : List Char} {b : UInt8} {bytes : List UInt8} (item : IsItem cs b)
      (rest : Lists ds bytes) : Lists (cs ++ ',' :: ds) (b :: bytes)

namespace Lists

variable {cs ds front back : List Char} {bytes bytes' : List UInt8}

theorem not_blank (h : Lists cs bytes) : ¬ IsBlank cs := by
  intro blank
  cases h with
  | one item => cases (trimmed_eq_nil blank).symm ▸ item.value
  | cons item rest => cases blank ',' (by simp)

theorem ne_nil (h : Lists cs bytes) : cs ≠ [] := by
  rintro rfl
  exact h.not_blank (List.forall_mem_nil _)

theorem getLast?_ne (h : Lists cs bytes) : cs.getLast? ≠ some ',' := by
  induction h with
  | one item => exact fun last => item.single (List.mem_of_mem_getLast? last)
  | cons item rest ih =>
    obtain ⟨d, ds, rfl⟩ := List.exists_cons_of_ne_nil rest.ne_nil
    rwa [List.getLast?_append_of_ne_nil _ (List.cons_ne_nil _ _), List.getLast?_cons_cons]

theorem items (h : Lists cs bytes) :
    (cs.splitOn ',').mapM (fun item => literal? (trimmed item)) = some bytes := by
  induction h with
  | one item => rw [List.splitOn_eq_singleton item.single, List.mapM_cons, item.value]; rfl
  | cons item rest ih =>
    rw [List.splitOn_append_cons_self_of_not_mem item.single, List.mapM_cons, item.value, ih]
    rfl

theorem read (h : Lists cs bytes) : read? cs = some bytes := by
  rw [read?, if_neg (mt List.all_eq_true.1 h.not_blank), h.items]

theorem pad_left (h : Lists cs bytes) (blank : IsBlank front) : Lists (front ++ cs) bytes := by
  cases h with
  | one item => exact .one (item.pad_left blank)
  | cons item rest =>
    rw [← List.append_assoc]
    exact .cons (item.pad_left blank) rest

theorem pad_right (h : Lists cs bytes) (blank : IsBlank back) : Lists (cs ++ back) bytes := by
  induction h with
  | one item => exact .one (item.pad_right blank)
  | cons item rest ih =>
    rw [List.append_assoc]
    exact .cons item ih

theorem append (h : Lists cs bytes) (h' : Lists ds bytes') :
    Lists (cs ++ ',' :: ds) (bytes ++ bytes') := by
  induction h with
  | one item => exact .cons item h'
  | cons item rest ih =>
    rw [List.append_assoc]
    exact .cons item ih

end Lists

def rowText (bytes : List UInt8) : String := joined (bytes.map byteText)

theorem rowText_lists {bytes : List UInt8} (h : bytes ≠ []) :
    Lists (rowText bytes).toList bytes := by
  induction bytes with
  | nil => contradiction
  | cons b rest ih =>
    cases rest with
    | nil => exact .one (by simpa [rowText, joined] using IsItem.byteText b)
    | cons next rest =>
      have separator : ", ".toList = [',', ' '] := by decide
      rw [rowText, List.map_cons, List.map_cons, joined, String.intercalate_cons_cons,
        String.toList_append, String.toList_append, separator, List.append_assoc]
      exact .cons (.byteText b) ((ih (List.cons_ne_nil _ _)).pad_left (.single rfl))

end Bytes

theorem withCommas_concat (lines : List String) (line : String) :
    withCommas (lines ++ [line]) = lines.map (· ++ ",") ++ [line] := by
  induction lines with
  | nil => rfl
  | cons first lines ih =>
    cases lines with
    | nil => rfl
    | cons next lines => exact congrArg _ ih

theorem flatten_byteRows (bytes : List UInt8) : (byteRows bytes).flatten = bytes := by
  induction bytes using byteRows.induct with
  | case1 => rw [byteRows, List.flatten_nil]
  | case2 b rest ih => rw [byteRows, List.flatten_cons, ih, List.take_append_drop]

theorem exists_byteRows {bytes : List UInt8} (h : bytes ≠ []) :
    ∃ rows row, byteRows bytes = rows ++ [row] ∧ (∀ r ∈ rows, r.length = 16) ∧
      1 ≤ row.length ∧ row.length ≤ 16 := by
  induction bytes using byteRows.induct with
  | case1 => contradiction
  | case2 b rest ih =>
    rw [byteRows]
    by_cases more : (b :: rest).drop 16 = []
    · refine ⟨[], (b :: rest).take 16, by rw [more, byteRows]; rfl, List.forall_mem_nil _, ?_⟩
      simp
    · obtain ⟨rows, row, split, full, last⟩ := ih more
      have long : ((b :: rest).take 16).length = 16 := by
        rw [List.drop_eq_nil_iff] at more
        rw [List.length_take]
        omega
      exact ⟨_ :: rows, row, by rw [split]; rfl, List.forall_mem_cons.2 ⟨long, full⟩, last⟩

namespace Bytes

/-- The lines have the literals of the bytes in rows of sixteen, the last of which may be shorter.
Every row but the last ends with a comma. -/
structure AreListed (bytes : List UInt8) (lines : List String) : Prop where
  whole : ∀ width level, read? (String.join (lines.map (row width level))).toList = some bytes
  single : ∀ line ∈ lines, '\n' ∉ line.toList
  full : ∀ line ∈ lines.dropLast, ∃ text row, line = text ++ "," ∧
    read? text.toList = some row ∧ row.length = 16
  last : ∀ line ∈ lines.getLast?, line.toList.getLast? ≠ some ',' ∧
    ∃ row, read? line.toList = some row ∧ 1 ≤ row.length ∧ row.length ≤ 16

section Rows

variable {rows : List (List UInt8)} {last : List UInt8}

-- a row ends behind its comma, and the newline is in front of what follows
theorem rows_list (full : ∀ r ∈ rows, r ≠ []) (nonempty : last ≠ []) (width level : Nat) :
    Lists (String.join ((rows.map fun r => row width level (rowText r ++ ",")) ++
      [row width level (rowText last)])).toList (rows.flatten ++ last) := by
  have newline : IsBlank ['\n'] := .single rfl
  induction rows with
  | nil =>
    have only := (rowText_lists nonempty).pad_left (isBlank_margin width level)
    simpa [row] using only.pad_right newline
  | cons r rows ih =>
    obtain ⟨some, others⟩ := List.forall_mem_cons.1 full
    have first := (rowText_lists some).pad_left (isBlank_margin width level)
    have rest := (ih others).pad_left newline
    simpa [row] using first.append rest

theorem rowText_sealed (bytes : List UInt8) : Sealed (rowText bytes) :=
  .joined (List.forall_mem_map.2 fun b _ => byteText_isInline b)

theorem areListed_rows (full : ∀ r ∈ rows, r.length = 16) (some : 1 ≤ last.length)
    (short : last.length ≤ 16) :
    AreListed (rows.flatten ++ last) (rows.map (rowText · ++ ",") ++ [rowText last]) := by
  have nonempty {row : List UInt8} (h : 1 ≤ row.length) : row ≠ [] := List.ne_nil_of_length_pos h
  have each : ∀ r ∈ rows, r ≠ [] := fun r hr => nonempty (by rw [full r hr]; decide)
  refine ⟨fun width level => ?_, ?_, ?_, ?_⟩
  · rw [List.map_append, List.map_map]
    exact (rows_list each (nonempty some) width level).read
  · intro line hline
    refine Sealed.newline_not_mem ?_
    rcases List.mem_append.1 hline with hline | hline
    · obtain ⟨row, -, rfl⟩ := List.mem_map.1 hline
      exact (rowText_sealed row).append (by decide)
    · obtain rfl := List.mem_singleton.1 hline
      exact rowText_sealed last
  · rw [List.dropLast_concat]
    refine List.forall_mem_map.2 fun row hrow => ?_
    exact ⟨_, row, rfl, (rowText_lists (each row hrow)).read, full row hrow⟩
  · rw [List.getLast?_concat]
    rintro line ⟨⟩
    have lists := rowText_lists (nonempty some)
    exact ⟨lists.getLast?_ne, last, lists.read, some, short⟩

end Rows

end Bytes

open Bytes

theorem byteLines_areListed (bytes : List UInt8) : AreListed bytes (byteLines bytes) := by
  by_cases h : bytes = []
  · have nothing : byteLines bytes = [] := by
      rw [byteLines, h, byteRows]
      rfl
    rw [nothing, h]
    refine ⟨fun _ _ => rfl, ?_, ?_, ?_⟩ <;> simp
  · obtain ⟨rows, last, split, full, some, short⟩ := exists_byteRows h
    have whole : rows.flatten ++ last = bytes := by
      rw [← flatten_byteRows bytes, split, List.flatten_concat]
    have lines : byteLines bytes = rows.map (rowText · ++ ",") ++ [rowText last] := by
      rw [byteLines, split, List.map_append]
      exact (withCommas_concat _ _).trans (by rw [List.map_map]; rfl)
    rw [lines, ← whole]
    exact areListed_rows full some short

def resourceLines (identifier : String) (bytes : List UInt8) (width level : Nat) : List String :=
  row width level ("const uint8_t " ++ identifier ++ "[" ++ Nat.repr bytes.length ++ "] = \x7b") ::
    (byteLines bytes).map (row width (level + 1)) ++ [row width level "\x7d;"]

theorem Script.resourceDefinition_adds (identifier : String) (bytes : List UInt8)
    (width level : Nat) :
    (resourceDefinition identifier bytes).Adds width level level
      (resourceLines identifier bytes width level) := by
  have body (texts : List String) (a : Nat) :
      (Script.lines texts).Adds width a a (texts.map (row width a)) := by
    induction texts with
    | nil => exact .nil
    | cons text texts ih => exact (Adds.line text).append ih
  have closing : (op (.closeBlockWith "\x7d;")).Adds width (level + 1) level
      [row width level "\x7d;"] := .op level fun _ => rfl
  have whole := ((Adds.openBlock ("const uint8_t " ++ identifier ++ "[" ++
    Nat.repr bytes.length ++ "] =")).append (body (byteLines bytes) (level + 1))).append closing
  have header : blockHeader ("const uint8_t " ++ identifier ++ "[" ++ Nat.repr bytes.length ++
      "] =") = "const uint8_t " ++ identifier ++ "[" ++ Nat.repr bytes.length ++ "] = \x7b" := by
    simp [blockHeader, String.append_assoc]
  rwa [header] at whole

namespace Units.Embed

variable {units : Units} {dialect : Dialect} {settings : Settings} {p : Program}
  {rs : List Resource} {r : Resource}

theorem declaration_isInfix (h : units.Embed dialect settings p rs) (hr : r ∈ rs) :
    ("extern const uint8_t " ++ r.identifier ++ "[" ++ Nat.repr r.bytes.length ++
      "];\n").toList <:+: units.interface.toList := by
  obtain ⟨_, _, -, -, interface⟩ := h.interface
  have some : ¬ rs.isEmpty := fun none => List.ne_nil_of_mem hr (List.isEmpty_iff.1 none)
  have ending : "];\n" = "];" ++ "\n" := by decide
  rw [interface, if_neg some, ending, ← String.append_assoc]
  refine line_isInfix ?_ _
  exact List.mem_append_right _
    (List.mem_append_left _ (.tail _ (List.mem_map_of_mem (f := Resource.declaration) hr)))

theorem definition_isInfix (h : units.Embed dialect settings p rs) (hr : r ∈ rs) :
    ∃ level, (String.join
      (resourceLines r.identifier r.bytes settings.indentWidth level)).toList <:+:
        units.implementation.toList := by
  obtain ⟨_, -, implementation⟩ := h.implementation
  rw [implementation]
  refine adds_isInfix (w := settings.writer)
    (Script.resourceDefinition_adds r.identifier r.bytes settings.indentWidth) ?_
  have own : (Script.resourceDefinition r.identifier r.bytes).ops <:+: r.definition :=
    List.infix_cons (List.infix_refl _)
  have among : r.definition <:+: rs.flatMap (·.definition) :=
    List.infix_of_mem_flatten (List.mem_map_of_mem hr)
  exact ((own.trans among).trans (List.prefix_append _ _).isInfix).trans
    (List.suffix_append _ _).isInfix

end Units.Embed

/-- The lines between the braces of a resource's definition list its bytes in rows of sixteen and
read back as these bytes. Both units give their number as the length of the resource. -/
theorem resource_bytes_read_back (identifier : String) (bytes : List UInt8) :
    (∀ w : Writer, w.perform (.resourceDefinition identifier bytes) =
      { w with buffer := w.buffer ++
          String.join (resourceLines identifier bytes w.indentWidth w.level) }) ∧
    AreListed bytes (byteLines bytes) ∧
    ∀ dialect settings p units, generate dialect settings p = .ok units →
      ∀ r ∈ p.resources, r.identifier = identifier → r.bytes = bytes →
        ("extern const uint8_t " ++ identifier ++ "[" ++ Nat.repr bytes.length ++
          "];\n").toList <:+: units.interface.toList ∧
        ∃ level, (String.join
          (resourceLines identifier bytes settings.indentWidth level)).toList <:+:
            units.implementation.toList := by
  refine ⟨fun w => ?_, byteLines_areListed bytes, ?_⟩
  · exact (Script.resourceDefinition_adds identifier bytes _ _).performed w.buffer
  · rintro dialect settings p units h r hr rfl rfl
    obtain ⟨rs, hrs, embed⟩ := Units.embed_of_generate h
    have listed := (Program.perm_of_embeddable hrs).mem_iff.2 hr
    exact ⟨embed.declaration_isInfix listed, embed.definition_isInfix listed⟩

theorem resource_bytes_read_back_seventeen :
    let r : Resource := ⟨"blob.bin", List.replicate 17 171⟩
    let p : Program := { resources := [r] }
    ∃ units, generate .cpp {} p = .ok units ∧ r ∈ p.resources ∧ r.identifier = "blob_bin" ∧
      (byteLines r.bytes).length = 2 ∧ AreListed r.bytes (byteLines r.bytes) ∧
      "extern const uint8_t blob_bin[17];\n".toList <:+: units.interface.toList ∧
      ∃ level, (String.join (resourceLines "blob_bin" r.bytes 4 level)).toList <:+:
        units.implementation.toList := by
  intro r p
  have embeddable : Embeddable p.resources := ⟨List.forall_mem_singleton.2 (by decide), by decide⟩
  obtain ⟨units, h⟩ := generate_of_embeddable rfl embeddable .cpp {}
  have mem : r ∈ p.resources := List.mem_singleton_self r
  have identifier : r.identifier = "blob_bin" := by decide
  have rows : (byteLines r.bytes).length = 2 := by decide +kernel
  have declaration : "extern const uint8_t " ++ "blob_bin" ++ "[" ++ Nat.repr r.bytes.length ++
      "];\n" = "extern const uint8_t blob_bin[17];\n" := by decide
  obtain ⟨-, listed, embedded⟩ := resource_bytes_read_back "blob_bin" r.bytes
  have shown := embedded .cpp {} p units h r mem identifier rfl
  rw [declaration] at shown
  exact ⟨units, h, mem, identifier, rows, listed, shown⟩

end CppEmission
