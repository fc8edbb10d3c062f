import Mathlib.Data.List.Forall2
import ManagedCode.Proofs.Instruction.Operands
import ManagedCode.Source.Layout

/-!
# What a layout says about its lines

A layout has one statement for each line with something behind its labels, in order, and the
statements follow each other without gaps. A label stands for the offset of the first statement from
the last line on that defines it, or for the end if there is none.
-/

namespace ManagedCode.Source

/-- Whether a line has something behind its labels and in front of its comment. -/
def hasStatement (line : List Char) : Bool := !(splitLine line).2.isEmpty

/-- The texts of the statements of some lines with the numbers of the lines, the first of which has
the number `line`. -/
def statementTexts (line : Nat) (lines : List (List Char)) : List (Nat × List Char) :=
  ((lines.zipIdx line).filter fun entry => hasStatement entry.1).map fun entry =>
    (entry.2, (splitLine entry.1).2)

/-- The statement says what a text in a line says, apart from its offset. -/
structure Statement.Reads (entry : Nat × List Char) (s : Statement) : Prop where
  line : s.line = entry.1
  opcode : Opcode.ofMnemonic? (String.ofList (splitStatement entry.2).1) = some s.opcode
  operand : s.operand = (splitStatement entry.2).2

/-- The statements follow each other without gaps from the offset `start` to `stop`. -/
def Consecutive : (start : Nat) → List Statement → (stop : Nat) → Prop
  | start, [], stop => start = stop
  | start, s :: rest, stop =>
    s.offset = start ∧ ∃ width, operandWidth s.opcode s.operand = .ok width ∧
      Consecutive (start + s.opcode.size + width) rest stop

/-- There are `count` statements in front of the last line that defines the label. -/
def DefinedBehind (lines : List (List Char)) (name : List Char) (count : Nat) : Prop :=
  ∃ before line after, lines = before ++ line :: after ∧ name ∈ (splitLine line).1 ∧
    (∀ later ∈ after, name ∉ (splitLine later).1) ∧ before.countP hasStatement = count

/-! ## Statement texts -/

/-- The statements of lines are those of the first one and those of the others. -/
theorem statementTexts_cons (line : Nat) (text : List Char) (lines : List (List Char)) :
    statementTexts line (text :: lines) =
      statementTexts line [text] ++ statementTexts (line + 1) lines := by
  simp only [statementTexts, List.zipIdx_cons, List.filter_cons, List.zipIdx_nil, List.filter_nil]
  split <;> rfl

/-- A line has one statement or none. -/
theorem statementTexts_singleton (line : Nat) (text : List Char) :
    statementTexts line [text] =
      if hasStatement text then [(line, (splitLine text).2)] else [] := by
  simp only [statementTexts, List.zipIdx_cons, List.filter_cons, List.zipIdx_nil, List.filter_nil]
  split <;> rfl

/-- There are as many statements as lines that have one. -/
theorem length_statementTexts (line : Nat) (lines : List (List Char)) :
    (statementTexts line lines).length = lines.countP hasStatement := by
  induction lines generalizing line with
  | nil => rfl
  | cons text lines ih =>
    rw [statementTexts_cons, List.length_append, ih, statementTexts_singleton, List.countP_cons]
    split
    · exact Nat.add_comm _ _
    · exact Nat.add_comm _ _

/-! ## Consecutive statements -/

namespace Consecutive

variable {start middle stop : Nat} {front rest : List Statement}

/-- Statements that follow others follow on. -/
theorem append (hf : Consecutive start front middle) (hr : Consecutive middle rest stop) :
    Consecutive start (front ++ rest) stop := by
  induction front generalizing start with
  | nil => exact (show start = middle from hf) ▸ hr
  | cons s front ih =>
    obtain ⟨hs, width, hw, hf⟩ := hf
    exact ⟨hs, width, hw, ih hf⟩

/-- Statements take up no negative space. -/
theorem le (h : Consecutive start rest stop) : start ≤ stop := by
  induction rest generalizing start with
  | nil => exact Nat.le_of_eq h
  | cons s rest ih =>
    obtain ⟨_, width, _, hr⟩ := h
    have hle := ih hr
    omega

/-- Every statement starts before the end. -/
theorem offset_le (h : Consecutive start rest stop) {s : Statement} (hs : s ∈ rest) :
    s.offset ≤ stop := by
  induction rest generalizing start with
  | nil => cases hs
  | cons first rest ih =>
    have hle := h.le
    obtain ⟨hfirst, width, _, hr⟩ := h
    rcases List.mem_cons.mp hs with rfl | hs
    · omega
    · exact ih hr hs

/-- Every statement starts before the end, and behind the last one is the end. -/
theorem getD_le (h : Consecutive start rest stop) (k : Nat) :
    (rest.map (·.offset)).getD k stop ≤ stop := by
  rw [List.getD_eq_getElem?_getD, List.getElem?_map]
  cases hk : rest[k]? with
  | none => exact Nat.le_refl stop
  | some s => exact h.offset_le (List.mem_of_getElem? hk)

/-- The first statement stands at the start. -/
theorem getD_zero (h : Consecutive start rest stop) :
    (rest.map (·.offset)).getD 0 stop = start := by
  cases rest with
  | nil => exact (show start = stop from h).symm
  | cons s rest => exact h.1

end Consecutive

/-! ## Adding lines -/

namespace Layout

/-- A label that is defined stands for the size so far. -/
theorem define_eq_ok {layout next : Layout} {name : List Char} (h : layout.define name = .ok next) :
    next = { layout with labels := (String.ofList name, layout.size) :: layout.labels } := by
  unfold define at h
  dsimp only at h
  split at h
  · cases h
  · exact (Except.ok.inj h).symm

/-- Defining labels changes what they stand for, and nothing else. -/
theorem foldlM_define_eq_ok {names : List (List Char)} {layout next : Layout}
    (h : names.foldlM define layout = .ok next) :
    next.statements = layout.statements ∧ next.size = layout.size ∧
      ∀ name, next.labels.lookup (String.ofList name) =
        if name ∈ names then some layout.size else layout.labels.lookup (String.ofList name) := by
  induction names generalizing layout with
  | nil =>
    cases h
    exact ⟨rfl, rfl, fun name => rfl⟩
  | cons first names ih =>
    rw [List.foldlM_cons] at h
    obtain ⟨middle, hdefine, hrest⟩ := bind_eq_ok_iff.mp h
    obtain rfl := define_eq_ok hdefine
    obtain ⟨hstatements, hsize, hlabels⟩ := ih hrest
    refine ⟨hstatements, hsize, fun name => ?_⟩
    rw [hlabels, List.lookup_cons]
    by_cases hm : name ∈ names
    · simp [hm]
    · by_cases hn : name = first
      · simp [hn]
      · have hne : String.ofList name ≠ String.ofList first := fun h =>
          hn (String.ofList_injective h)
        simp [hm, hn, beq_false_of_ne hne]

/-- A statement that is added starts at the size so far, and no label changes. -/
theorem addStatement_eq_ok {layout next : Layout} {line : Nat} {text : List Char}
    (h : layout.addStatement line text = .ok next) :
    ∃ s : Statement, s.Reads (line, text) ∧ Consecutive layout.size [s] next.size ∧
      next.statements = s :: layout.statements ∧ next.labels = layout.labels := by
  unfold addStatement at h
  dsimp only at h
  split at h
  · cases h
  · rename_i op hop
    obtain ⟨width, hw, hnext⟩ := bind_eq_ok_iff.mp h
    cases hnext
    exact ⟨⟨line, op, _, layout.size⟩, ⟨rfl, hop, rfl⟩, ⟨rfl, width, hw, rfl⟩, rfl, rfl⟩

private theorem addLine_eq (layout : Layout) (line : Nat) (text : List Char) :
    layout.addLine line text = ((splitLine text).1.foldlM define layout >>= fun defined =>
      if (splitLine text).2.isEmpty then pure defined
      else defined.addStatement line (splitLine text).2) := rfl

/-- A line adds its statement, if it has one, and its labels stand for where this begins. -/
theorem addLine_eq_ok {layout next : Layout} {line : Nat} {text : List Char}
    (h : layout.addLine line text = .ok next) :
    ∃ added : List Statement, next.statements = added.reverse ++ layout.statements ∧
      List.Forall₂ Statement.Reads (statementTexts line [text]) added ∧
      Consecutive layout.size added next.size ∧
      ∀ name, next.labels.lookup (String.ofList name) =
        if name ∈ (splitLine text).1 then some layout.size
        else layout.labels.lookup (String.ofList name) := by
  rw [addLine_eq] at h
  obtain ⟨defined, hdefine, hstatement⟩ := bind_eq_ok_iff.mp h
  obtain ⟨hstatements, hsize, hlabels⟩ := foldlM_define_eq_ok hdefine
  rw [statementTexts_singleton, hasStatement]
  split at hstatement
  · rename_i hempty
    cases hstatement
    refine ⟨[], hstatements, ?_, hsize.symm, hlabels⟩
    rw [hempty]
    exact .nil
  · rename_i hsome
    obtain ⟨s, hreads, hplaced, hadded, hsame⟩ := addStatement_eq_ok hstatement
    refine ⟨[s], ?_, ?_, hsize ▸ hplaced, fun name => hsame ▸ hlabels name⟩
    · rw [hadded, hstatements]
      rfl
    · rw [eq_false_of_ne_true hsome]
      exact .cons hreads .nil

/-- Lines add their statements in order, without gaps. Each label that they define stands for the
offset of the next statement, the others keep what they stood for. -/
theorem addLines_eq_ok {lines : List (List Char)} {layout final : Layout} {line : Nat}
    (h : layout.addLines line lines = .ok final) :
    ∃ added : List Statement, final.statements = added.reverse ++ layout.statements ∧
      List.Forall₂ Statement.Reads (statementTexts line lines) added ∧
      Consecutive layout.size added final.size ∧
      ∀ name, (∃ count, DefinedBehind lines name count ∧
          final.labels.lookup (String.ofList name) =
            some ((added.map (·.offset)).getD count final.size)) ∨
        (∀ other ∈ lines, name ∉ (splitLine other).1) ∧
          final.labels.lookup (String.ofList name) =
            layout.labels.lookup (String.ofList name) := by
  induction lines generalizing layout line with
  | nil =>
    cases h
    exact ⟨[], rfl, .nil, rfl, fun name => .inr ⟨fun _ hm => (nomatch hm), rfl⟩⟩
  | cons text lines ih =>
    unfold addLines at h
    split at h
    · rename_i next hnext
      obtain ⟨first, hfirst, hreads, hplaced, hdefined⟩ := addLine_eq_ok hnext
      obtain ⟨rest, hrest, hreads', hplaced', hdefined'⟩ := ih h
      have hall := hplaced.append hplaced'
      refine ⟨first ++ rest, ?_, ?_, hall, fun name => ?_⟩
      · rw [hrest, hfirst, List.reverse_append, List.append_assoc]
      · rw [statementTexts_cons]
        exact List.rel_append hreads hreads'
      · rcases hdefined' name with ⟨count, hbehind, hlookup⟩ | ⟨hnone, hlookup⟩
        · -- The label is defined in a later line, behind the statement of this one.
          obtain ⟨before, here, after, rfl, hname, hlast, hcount⟩ := hbehind
          have hlength : first.length = if hasStatement text then 1 else 0 := by
            rw [← hreads.length_eq, length_statementTexts, List.countP_singleton]
          refine .inl
            ⟨first.length + count, ⟨text :: before, here, after, rfl, hname, hlast, ?_⟩, ?_⟩
          · rw [List.countP_cons, hlength, hcount, Nat.add_comm]
          · rw [hlookup, List.getD_eq_getElem?_getD, List.getD_eq_getElem?_getD, List.map_append,
              List.getElem?_append_right (by rw [List.length_map]; omega), List.length_map,
              Nat.add_sub_cancel_left]
        · by_cases hname : name ∈ (splitLine text).1
          · refine .inl ⟨0, ⟨[], text, lines, rfl, hname, hnone, rfl⟩, ?_⟩
            rw [hlookup, hdefined, if_pos hname, hall.getD_zero]
          · refine .inr ⟨List.forall_mem_cons.mpr ⟨hname, hnone⟩, ?_⟩
            rw [hlookup, hdefined, if_neg hname]
    · cases h

/-- The layout of a source text. -/
theorem ofSource_eq_ok {source : List Char} {layout : Layout} (h : ofSource source = .ok layout) :
    List.Forall₂ Statement.Reads (statementTexts 1 (Text.lines source)) layout.statements.reverse ∧
    Consecutive 0 layout.statements.reverse layout.size ∧
    ∀ name, (∃ count, DefinedBehind (Text.lines source) name count ∧
        layout.labels.lookup (String.ofList name) =
          some ((layout.statements.reverse.map (·.offset)).getD count layout.size)) ∨
      (∀ line ∈ Text.lines source, name ∉ (splitLine line).1) ∧
        layout.labels.lookup (String.ofList name) = none := by
  obtain ⟨added, hadded, hreads, hplaced, hdefined⟩ := addLines_eq_ok h
  have hreverse : layout.statements.reverse = added := by
    rw [hadded]
    simp [empty]
  rw [hreverse]
  exact ⟨hreads, hplaced, hdefined⟩

end Layout

end ManagedCode.Source
