import CppEmission.Proofs.Stmt.Branch
import CppEmission.Proofs.Units.Label

namespace CppEmission

open Writer

section Lines

variable {width level : Nat}

theorem Writer.openBlock_isInfix {ops : List Op} {header : String} (h : .openBlock header ∈ ops)
    (w : Writer) : (blockHeader header ++ "\n").toList <:+: (w.run ops).buffer.toList := by
  have single : (Script.openBlock header).ops <:+: ops := by
    obtain ⟨before, after, rfl⟩ := List.append_of_mem h
    exact ⟨before, after, by simp [Script.openBlock, Script.op]⟩
  obtain ⟨level, shown⟩ := adds_isInfix (w := w) (fun _ => Script.Adds.openBlock header) single
  refine List.IsInfix.trans ⟨(margin w.indentWidth level).toList, [], ?_⟩ shown
  simp [row, String.join]

def Entry.text (width level : Nat) : Entry → String
  | label access => row width level (access ++ ":")
  | member _ line => row width (level + 1) line

theorem Entry.adds (e : Entry) :
    Script.Adds width (.op e.op) (level + 1) (level + 1) [e.text width level] := by
  cases e with
  | label access => exact .outdentedLine _
  | member m line => exact .line line

theorem Entry.map_adds (es : List Entry) : Script.Adds width ⟨es.map Entry.op, none⟩ (level + 1)
    (level + 1) (es.map (·.text width level)) := by
  induction es with
  | nil => exact .nil
  | cons e es ih => exact e.adds.append ih

def Class.lines (c : Class) (es : List Entry) (width level : Nat) : List String :=
  row width level (blockHeader c.header) :: es.map (·.text width level) ++ [row width level "\x7d;"]

theorem Class.definition_adds (c : Class) (es : List Entry) :
    Script.Adds width ⟨.openBlock c.header :: es.map Entry.op ++ [.closeBlockWith "\x7d;"], none⟩
      level level (c.lines es width level) := by
  have close : Script.Adds width (.op (.closeBlockWith "\x7d;")) (level + 1) level
      [row width level "\x7d;"] := .op level fun _ => rfl
  exact ((Script.Adds.openBlock c.header).append (Entry.map_adds es)).append close

end Lines

theorem infix_flatMap {α β : Type} {a : α} {as : List α} (f : α → List β) (h : a ∈ as)
    (front back : List β) : f a <:+: front ++ as.flatMap f ++ back := by
  have among : f a <:+: as.flatMap f := List.infix_of_mem_flatten (List.mem_map_of_mem h)
  exact (among.trans (List.suffix_append _ _).isInfix).trans (List.prefix_append _ _).isInfix

theorem Class.definition_isInfix {c : Class} {es : List Entry} {ops : List Op} (settings : Settings)
    (within : .blankLine :: .openBlock c.header :: es.map Entry.op ++ [.closeBlockWith "\x7d;"] <:+:
      ops) :
    ∃ level, (String.join (c.lines es settings.indentWidth level)).toList <:+:
      (settings.page ops).toList := by
  refine adds_isInfix (w := settings.writer) (fun _ => c.definition_adds es) ?_
  exact (List.suffix_cons _ _).isInfix.trans within

variable {units : Units} {dialect : Dialect} {settings : Settings} {p : Program}

theorem Units.Agree.isInfix (h : units.Agree settings p) :
    ∃ outline : Class → Outline, ∀ c ∈ p.classes, (outline c).Agrees c ∧
      (∃ level, (String.join (c.lines (outline c).entries settings.indentWidth level)).toList <:+:
        units.interface.toList) ∧
      ∀ d ∈ (outline c).defined,
        (blockHeader d.2 ++ "\n").toList <:+: units.implementation.toList := by
  obtain ⟨order, resources, outline, -, perm, -, agrees, interface, implementation⟩ := h
  refine ⟨outline, fun c hc => ⟨agrees c hc, ?_, fun d hd => ?_⟩⟩
  · rw [interface]
    exact Class.definition_isInfix settings
      (infix_flatMap (fun c => (outline c).interface c) (perm.mem_iff.2 hc) _ _)
  · obtain ⟨definition, mem, rfl⟩ := List.mem_map.1 hd
    rw [implementation]
    refine openBlock_isInfix ?_ _
    have whole := infix_flatMap (fun c => (outline c).implementation) hc
      (Program.implementationFront settings) (Program.implementationBack settings resources)
    refine whole.subset (List.mem_flatMap.2 ⟨definition, mem, ?_⟩)
    exact List.mem_cons_of_mem _ List.mem_cons_self

theorem Units.ShowLabels.isInfix (h : units.ShowLabels dialect settings p) :
    ∃ (order : List Class) (entries : Class → List Entry), p.dependencyOrder = .ok order ∧
      ∀ c ∈ order, c.IsLabelled ⟨dialect, p, .enterClass (some c)⟩ (entries c) ∧
        ∃ level, (String.join (c.lines (entries c) settings.indentWidth level)).toList <:+:
          units.interface.toList := by
  obtain ⟨order, resources, entries, horder, -, -, labelled, interface⟩ := h
  refine ⟨order, entries, horder, fun c hc => ⟨labelled c hc, ?_⟩⟩
  rw [interface]
  exact Class.definition_isInfix settings (infix_flatMap (fun c => .blankLine ::
    .openBlock c.header :: (entries c).map Entry.op ++ [.closeBlockWith "\x7d;"]) hc _ _)

end CppEmission
