import CppEmission.Proofs.Stmt.Skeleton
import CppEmission.Proofs.Writer.Move

/-! A reader of lines that recovers the control structure from the braces in them. -/

namespace CppEmission

open Writer (Op Move)

inductive Opening
  | block
  | branch (before : List (String × List Skeleton)) (test : String)
  | otherwise (branches : List (String × List Skeleton))
  | whileLoop (test : String)
  | doWhile
  | forLoop (header : String)
  | foreach (header : String)

def Opening.closed : Opening → List Skeleton → Option Skeleton
  | block, body => some (.block body)
  | branch before test, body => some (.chain (before ++ [(test, body)]) none)
  | otherwise branches, body => some (.chain branches (some body))
  | whileLoop test, body => some (.whileLoop test body)
  | doWhile, _ => none
  | forLoop header, body => some (.forLoop header body)
  | foreach header, body => some (.foreach header body)

inductive Mark
  | leaf (line : String)
  | opens (o : Opening)
  | close
  | closeDo (test : String)
  | orElse
  | orElseIf (test : String)

namespace Mark

def between (front back line : String) : String :=
  String.ofList ((line.toList.drop front.length).take (line.length - front.length - back.length))

theorem between_append (front text back : String) :
    between front back (front ++ text ++ back) = text := by
  have length : (front ++ text ++ back).length - front.length - back.length = text.length := by
    simp
    omega
  rw [between, length, String.toList_append, String.toList_append, List.append_assoc,
    ← String.length_toList, ← String.length_toList, List.drop_left, List.take_left,
    String.ofList_toList]

/-- The block that a line opens. Of the two headers that begin with the same word, one has
semicolons outside of quotes. -/
def opening (line : String) : Opening :=
  match line.toList.head? with
  | some '\x7b' => .block
  | some 'd' => .doWhile
  | some 'w' => .whileLoop (between "while (" ") \x7b" line)
  | some 'i' => .branch [] (between "if (" ") \x7b" line)
  | _ =>
    if (Quoting.outside.scan line.toList).isSome then .foreach (between "" " \x7b" line)
    else .forLoop (between "" " \x7b" line)

def closing (line : String) : Mark :=
  match line.toList[7]? with
  | none => close
  | some '\x7b' => orElse
  | some 'i' => orElseIf (between "\x7d else if (" ") \x7b" line)
  | _ => closeDo (between "\x7d while (" ");" line)

/-- Lines that close a block begin with a brace; of the others, those within a block end with a
semicolon and those that open one with a brace. -/
def ofLine (line : String) : Mark :=
  if line.toList.head? = some '\x7d' then closing line
  else if line.toList.getLast? = some ';' then leaf line
  else opens (opening line)

theorem ofLine_close : ofLine "\x7d" = close := by
  simp [ofLine, closing]

theorem ofLine_orElse : ofLine "\x7d else \x7b" = orElse := by
  simp [ofLine, closing]

theorem ofLine_block : ofLine "\x7b" = opens .block := by
  simp [ofLine, opening]

theorem ofLine_doWhile : ofLine "do \x7b" = opens .doWhile := by
  simp [ofLine, opening]

theorem ofLine_leaf {text : String} (h : Inline text) :
    ofLine (text ++ ";") = leaf (text ++ ";") := by
  have lead : (text ++ ";").toList.head? ≠ some '\x7d' := by
    intro brace
    have := h.lead_append ";"
    rw [brace] at this
    simp at this
  rw [ofLine, if_neg lead, if_pos (by simp)]

theorem ofLine_opens {text : String} (lead : (text ++ " \x7b").toList.head? ≠ some '\x7d') :
    ofLine (text ++ " \x7b") = opens (opening (text ++ " \x7b")) := by
  rw [ofLine, if_neg lead, if_neg (by simp)]

theorem ofLine_while (test : String) :
    ofLine ("while (" ++ test ++ ")" ++ " \x7b") = opens (.whileLoop test) := by
  have text : between "while (" ") \x7b" ("while (" ++ test ++ ")" ++ " \x7b") = test := by
    rw [String.append_assoc]
    exact between_append "while (" test ") \x7b"
  rw [ofLine_opens (by simp)]
  simp [opening, text]

theorem ofLine_if (test : String) :
    ofLine ("if (" ++ test ++ ")" ++ " \x7b") = opens (.branch [] test) := by
  have text : between "if (" ") \x7b" ("if (" ++ test ++ ")" ++ " \x7b") = test := by
    rw [String.append_assoc]
    exact between_append "if (" test ") \x7b"
  rw [ofLine_opens (by simp)]
  simp [opening, text]

theorem ofLine_orElseIf (test : String) :
    ofLine ("\x7d else if (" ++ test ++ ") \x7b") = orElseIf test := by
  have text := between_append "\x7d else if (" test ") \x7b"
  simp [ofLine, closing, text]

theorem ofLine_closeDo (test : String) :
    ofLine ("\x7d while (" ++ test ++ ");") = closeDo test := by
  have text := between_append "\x7d while (" test ");"
  simp [ofLine, closing, text]

theorem opening_loop {header : String} (lead : header.toList.head? = some 'f') :
    ofLine (header ++ " \x7b") =
      opens (if (Quoting.outside.scan (header ++ " \x7b").toList).isSome then .foreach header
        else .forLoop header) := by
  have text : between "" " \x7b" (header ++ " \x7b") = header := by
    simpa using between_append "" header " \x7b"
  obtain ⟨cs, hcs⟩ := List.head?_eq_some_iff.1 lead
  rw [ofLine_opens (by simp [hcs]), opening, text]
  simp [hcs]

theorem ofLine_foreach {header : String} (lead : header.toList.head? = some 'f')
    (h : Sealed header) : ofLine (header ++ " \x7b") = opens (.foreach header) := by
  have whole : Quoting.outside.scan (header ++ " \x7b").toList = some .outside :=
    h.append (by decide)
  rw [opening_loop lead, whole]
  rfl

theorem ofLine_forLoop {header : String} (lead : header.toList.head? = some 'f')
    (h : Quoting.outside.scan header.toList = none) :
    ofLine (header ++ " \x7b") = opens (.forLoop header) := by
  rw [opening_loop lead, String.toList_append, Quoting.scan_append, h]
  rfl

end Mark

structure Reader where
  done : List Skeleton := []
  opened : List (Opening × List Skeleton) := []

namespace Reader

def step (r : Reader) : Mark → Option Reader
  | .leaf line => some { r with done := r.done ++ [.leaf line] }
  | .opens o => some ⟨[], (o, r.done) :: r.opened⟩
  | .close =>
    match r.opened with
    | (o, outer) :: rest => (o.closed r.done).map fun s => ⟨outer ++ [s], rest⟩
    | [] => none
  | .closeDo test =>
    match r.opened with
    | (.doWhile, outer) :: rest => some ⟨outer ++ [.doWhile r.done test], rest⟩
    | _ => none
  | .orElse =>
    match r.opened with
    | (.branch before test, outer) :: rest =>
      some ⟨[], (.otherwise (before ++ [(test, r.done)]), outer) :: rest⟩
    | _ => none
  | .orElseIf next =>
    match r.opened with
    | (.branch before test, outer) :: rest =>
      some ⟨[], (.branch (before ++ [(test, r.done)]) next, outer) :: rest⟩
    | _ => none

def read (r : Reader) (lines : List String) : Option Reader :=
  lines.foldlM (fun r line => r.step (Mark.ofLine line)) r

theorem read_append (r : Reader) (ls ms : List String) :
    r.read (ls ++ ms) = (r.read ls).bind (·.read ms) :=
  List.foldlM_append

theorem read_cons (r : Reader) (line : String) (rest : List String) :
    r.read (line :: rest) = (r.step (Mark.ofLine line)).bind (·.read rest) :=
  List.foldlM_cons

def put (r : Reader) (ss : List Skeleton) : Reader := { r with done := r.done ++ ss }

end Reader

structure IsRow (line : String) : Prop where
  newline : '\n' ∉ line.toList
  margin : line.toList.head? ≠ some ' '

theorem Sealed.isRow {line : String} (h : Sealed line) (margin : line.toList.head? ≠ some ' ') :
    IsRow line :=
  ⟨h.newline_not_mem, margin⟩

def IsLeaf (line : String) : Prop := ∃ text, Inline text ∧ line = text ++ ";"

theorem IsLeaf.isRow {line : String} (h : IsLeaf line) : IsRow line := by
  obtain ⟨text, ht, rfl⟩ := h
  refine ⟨by simpa using ht.closed.newline_not_mem, fun blank => ?_⟩
  have := ht.lead_append ";"
  rw [blank] at this
  simp at this

namespace Writer

def Move.line? : Move → Option String
  | .write text => some text
  | _ => none

def lines (ops : List Op) : List String := (ops.flatMap Op.moves).filterMap Move.line?

def Move.WritesRow : Move → Prop
  | .write text => IsRow text
  | .verbatim _ => False
  | .indent | .dedent => True

def Op.WritesRows (o : Op) : Prop := ∀ m ∈ o.moves, m.WritesRow

theorem lines_append (a b : List Op) : lines (a ++ b) = lines a ++ lines b := by
  simp [lines]

end Writer

def rows : List Char → List (List Char)
  | [] => []
  | c :: rest =>
    if c = '\n' then [] :: rows rest
    else match rows rest with
    | [] => [[c]]
    | row :: more => (c :: row) :: more

theorem rows_append {row : List Char} (h : '\n' ∉ row) (rest : List Char) :
    rows (row ++ '\n' :: rest) = row :: rows rest := by
  induction row with
  | nil => rfl
  | cons c row ih =>
    rw [List.mem_cons, not_or] at h
    rw [List.cons_append, rows, if_neg (Ne.symm h.1), ih h.2]

theorem rows_appended {ms : List Move} (h : ∀ m ∈ ms, m.WritesRow) (width level : Nat) :
    (rows (String.join (Writer.appended width level ms)).toList).map (·.dropWhile (· == ' ')) =
      (ms.filterMap Move.line?).map String.toList := by
  induction ms generalizing level with
  | nil => rfl
  | cons m ms ih =>
    obtain ⟨hm, hms⟩ := List.forall_mem_cons.1 h
    cases m with
    | write text =>
      obtain ⟨newline, margin⟩ := hm
      have split : (String.join (Writer.appended width level (.write text :: ms))).toList =
          (Writer.margin width level ++ text).toList ++
            '\n' :: (String.join (Writer.appended width level ms)).toList := by
        simp [Writer.appended]
      have unbroken : '\n' ∉ (Writer.margin width level ++ text).toList := by
        simpa [Writer.margin] using newline
      have trimmed : (Writer.margin width level ++ text).toList.dropWhile (· == ' ') =
          text.toList := by
        rw [String.toList_append, Writer.margin, String.toList_ofList,
          List.dropWhile_append_of_pos (by simp)]
        cases hcs : text.toList with
        | nil => rfl
        | cons c cs => exact List.dropWhile_cons_of_neg (by simpa [hcs] using margin)
      rw [split, rows_append unbroken, List.map_cons, trimmed, ih hms level]
      rfl
    | verbatim text => exact hm.elim
    | indent => exact ih hms (level + 1)
    | dedent => exact ih hms (level - 1)

namespace Reader

open Writer (lines lines_append)

structure Follows (ops : List Op) (r r' : Reader) : Prop where
  rows : ∀ o ∈ ops, o.WritesRows
  read : r.read (lines ops) = some r'

namespace Follows

variable {r r' r'' : Reader} {a b : List Op}

theorem append (h : Follows a r r') (h' : Follows b r' r'') : Follows (a ++ b) r r'' := by
  refine ⟨fun o ho => (List.mem_append.1 ho).elim (h.rows o) (h'.rows o), ?_⟩
  rw [lines_append, read_append, h.read]
  exact h'.read

theorem nil : Follows [] r r := ⟨nofun, rfl⟩

theorem op {o : Op} {text : String} (lines : lines [o] = [text]) (moves : o.WritesRows)
    (h : r.step (Mark.ofLine text) = some r') : Follows [o] r r' := by
  refine ⟨by simpa using moves, ?_⟩
  rw [lines, read_cons, h]
  rfl

theorem line {text : String} (row : IsRow text) (h : r.step (Mark.ofLine text) = some r') :
    Follows [.line text] r r' :=
  op rfl (by simpa [Op.WritesRows, Op.moves, Move.WritesRow] using row) h

theorem openBlock {header text : String} (line : Writer.blockHeader header = text)
    (row : IsRow text) {o : Opening} (h : Mark.ofLine text = .opens o) :
    Follows [.openBlock header] r ⟨[], (o, r.done) :: r.opened⟩ := by
  subst line
  exact op rfl (by simpa [Op.WritesRows, Op.moves, Move.WritesRow] using row) (by rw [h]; rfl)

theorem closeBlockWith {text : String} (row : IsRow text)
    (h : r.step (Mark.ofLine text) = some r') : Follows [.closeBlockWith text] r r' :=
  op rfl (by simpa [Op.WritesRows, Op.moves, Move.WritesRow] using row) h

theorem closeBlock {o : Opening} {s : Skeleton} {outer : List Skeleton}
    {rest : List (Opening × List Skeleton)} {body : List Skeleton} (h : o.closed body = some s) :
    Follows [.closeBlock] ⟨body, (o, outer) :: rest⟩ ⟨outer ++ [s], rest⟩ :=
  closeBlockWith ⟨by decide, by decide⟩ (by simp [Mark.ofLine_close, step, h])

theorem elseLine {text : String} (row : IsRow text) (h : r.step (Mark.ofLine text) = some r') :
    Follows [.dedent, .line text, .indent] r r' := by
  have dedent : Follows [.dedent] r r := ⟨by simp [Op.WritesRows, Op.moves, Move.WritesRow], rfl⟩
  have indent : Follows [.indent] r' r' := ⟨by simp [Op.WritesRows, Op.moves, Move.WritesRow], rfl⟩
  exact (dedent.append (line row h)).append indent

end Follows

end Reader

def Prints (ops : List Op) (ss : List Skeleton) : Prop :=
  ∀ r : Reader, Reader.Follows ops r (r.put ss)

namespace Prints

open Reader (Follows)

theorem nil : Prints [] [] := fun r => by
  simpa [Reader.put] using Follows.nil (r := r)

theorem append {a b : List Op} {ss ts : List Skeleton} (h : Prints a ss) (h' : Prints b ts) :
    Prints (a ++ b) (ss ++ ts) := by
  intro r
  have : (r.put ss).put ts = r.put (ss ++ ts) := by simp [Reader.put]
  exact this ▸ (h r).append (h' (r.put ss))

theorem leaf {line : String} (h : IsLeaf line) : Prints [.line line] [.leaf line] := by
  obtain ⟨text, ht, rfl⟩ := h
  exact fun _ => .line (IsLeaf.isRow ⟨text, ht, rfl⟩) (by rw [Mark.ofLine_leaf ht]; rfl)

theorem block {header text : String} {ops : List Op} {body : List Skeleton} {o : Opening}
    {s : Skeleton} (line : Writer.blockHeader header = text) (row : IsRow text)
    (opens : Mark.ofLine text = .opens o) (h : Prints ops body) (closed : o.closed body = some s) :
    Prints (.openBlock header :: (ops ++ [.closeBlock])) [s] :=
  fun _ => (Follows.openBlock line row opens).append ((h _).append (.closeBlock closed))

theorem doWhile {text : String} {ops : List Op} {body : List Skeleton} (ht : Sealed text)
    (h : Prints ops body) :
    Prints (.openBlock "do" :: (ops ++ [.closeBlockWith ("\x7d while (" ++ text ++ ");")]))
      [.doWhile body text] := by
  have front : IsRow ("\x7d while (" ++ text ++ ");") :=
    ⟨by simpa using ht.newline_not_mem, by simp⟩
  have line : Writer.blockHeader "do" = "do \x7b" := by decide
  exact fun _ => (Follows.openBlock line ⟨by decide, by decide⟩ Mark.ofLine_doWhile).append <|
    (h _).append (.closeBlockWith front (by rw [Mark.ofLine_closeDo]; rfl))

end Prints

def PrintsElse (ops : List Op) (others : List (String × List Skeleton))
    (otherwise : Option (List Skeleton)) : Prop :=
  ∀ body before test outer rest, Reader.Follows ops
    ⟨body, (.branch before test, outer) :: rest⟩
    ⟨outer ++ [.chain (before ++ (test, body) :: others) otherwise], rest⟩

namespace PrintsElse

open Reader (Follows)

theorem none : PrintsElse [.closeBlock] [] none :=
  fun _ _ _ _ _ => .closeBlock rfl

theorem otherwise {ops : List Op} {body : List Skeleton} (h : Prints ops body) :
    PrintsElse (.dedent :: .line "\x7d else \x7b" :: .indent :: (ops ++ [.closeBlock])) []
      (some body) := by
  intro done before test outer rest
  have line : Follows [.dedent, .line "\x7d else \x7b", .indent]
      ⟨done, (.branch before test, outer) :: rest⟩
      ⟨[], (.otherwise (before ++ [(test, done)]), outer) :: rest⟩ :=
    .elseLine ⟨by decide, by decide⟩ (by rw [Mark.ofLine_orElse]; rfl)
  exact line.append ((h _).append (.closeBlock rfl))

theorem elseIf {text : String} {a b : List Op} {body : List Skeleton}
    {others : List (String × List Skeleton)} {otherwise : Option (List Skeleton)}
    (ht : Sealed text) (h : Prints a body) (h' : PrintsElse b others otherwise) :
    PrintsElse (.dedent :: .line ("\x7d else if (" ++ text ++ ") \x7b") :: .indent :: (a ++ b))
      ((text, body) :: others) otherwise := by
  intro done before test outer rest
  have line : Follows [.dedent, .line ("\x7d else if (" ++ text ++ ") \x7b"), .indent]
      ⟨done, (.branch before test, outer) :: rest⟩
      ⟨[], (.branch (before ++ [(test, done)]) text, outer) :: rest⟩ :=
    .elseLine (Sealed.isRow ((Sealed.append (by decide) ht).append (by decide)) (by simp))
      (by rw [Mark.ofLine_orElseIf]; rfl)
  have last := h' body (before ++ [(test, done)]) text outer rest
  rw [List.append_assoc] at last
  exact line.append ((h _).append last)

end PrintsElse

theorem Prints.chain {text : String} {a b : List Op} {body : List Skeleton}
    {others : List (String × List Skeleton)} {otherwise : Option (List Skeleton)}
    (ht : Sealed text) (h : Prints a body) (h' : PrintsElse b others otherwise) :
    Prints (.openBlock ("if (" ++ text ++ ")") :: (a ++ b))
      [.chain ((text, body) :: others) otherwise] := by
  intro r
  have row : IsRow ("if (" ++ text ++ ")" ++ " \x7b") :=
    Sealed.isRow (((Sealed.append (by decide) ht).append (by decide)).append (by decide)) (by simp)
  exact (Reader.Follows.openBlock (by simp [Writer.blockHeader]) row (Mark.ofLine_if text)).append
    ((h _).append (h' body [] text r.done r.opened))

end CppEmission
