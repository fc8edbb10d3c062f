import Mathlib.Data.List.TakeDrop
import ManagedCode.Proofs.Instruction.Grammar
import ManagedCode.Proofs.Text.Division
import ManagedCode.Proofs.Text.Numerals

/-!
# Listing lines as source

A listing line is a label, a mnemonic and the text of an operand. Read as a line of source it has no
comment, defines the label and holds one statement with that mnemonic and that operand text,
whatever characters a string operand has.
-/

namespace ManagedCode

open Text

namespace Source

/-! ## Characters that stand for themselves -/

/-- No blank, and neither a quote nor a slash, so that no literal or comment starts here. -/
def IsWordChar (c : Char) : Prop := isBlank c = false ∧ c ≠ '"' ∧ c ≠ '/'

private theorem isBlank_of_range {c : Char} (hl : 33 ≤ c.toNat) (hh : c.toNat ≤ 126) :
    isBlank c = false := by
  simp only [isBlank, blankRanges, List.any_cons, List.any_nil, Bool.or_false, Bool.or_eq_false_iff,
    Bool.and_eq_false_iff, decide_eq_false_iff_not]
  omega

private theorem isWordChar_of_range {c : Char} (hl : 33 ≤ c.toNat) (hh : c.toNat ≤ 126)
    (hq : c.toNat ≠ 34) (hs : c.toNat ≠ 47) : IsWordChar c := by
  refine ⟨isBlank_of_range hl hh, ?_, ?_⟩
  · rintro rfl
    exact hq rfl
  · rintro rfl
    exact hs rfl

/-- A digit is no blank and starts neither a literal nor a comment. -/
theorem isWordChar_of_isDigit {c : Char} (h : c.isDigit = true) : IsWordChar c := by
  have hc : 48 ≤ c.toNat ∧ c.toNat ≤ 57 := by
    simpa [Char.isDigit, UInt32.le_iff_toNat_le] using h
  exact isWordChar_of_range (by omega) (by omega) (by omega) (by omega)

/-- A letter or digit is no blank and starts neither a literal nor a comment. -/
theorem isWordChar_of_isAlphanum {c : Char} (h : c.isAlphanum = true) : IsWordChar c := by
  rw [Char.isAlphanum, Bool.or_eq_true] at h
  rcases h with hletter | hdigit
  · change (decide (65 ≤ c.val ∧ c.val ≤ 90) || (decide (97 ≤ c.val) && decide (c.val ≤ 122))) =
      true at hletter
    have hc : 65 ≤ c.toNat ∧ c.toNat ≤ 90 ∨ 97 ≤ c.toNat ∧ c.toNat ≤ 122 := by
      simpa [UInt32.le_iff_toNat_le] using hletter
    exact isWordChar_of_range (by omega) (by omega) (by omega) (by omega)
  · exact isWordChar_of_isDigit hdigit

/-- The characters of labels are those of words. -/
theorem isWordChar_of_isLabelChar {c : Char} (h : isLabelChar c = true) : IsWordChar c := by
  simp only [isLabelChar, Bool.or_eq_true, beq_iff_eq] at h
  rcases h with (h | rfl) | rfl
  · exact isWordChar_of_isAlphanum h
  · exact ⟨by decide, by decide, by decide⟩
  · exact ⟨by decide, by decide, by decide⟩

/-- The characters of opcode names are those of words. -/
theorem isWordChar_of_isNameChar {c : Char} (h : Opcode.isNameChar c = true) : IsWordChar c := by
  simp only [Opcode.isNameChar, Bool.or_eq_true, beq_iff_eq] at h
  rcases h with h | rfl
  · exact isWordChar_of_isAlphanum h
  · exact ⟨by decide, by decide, by decide⟩

/-! ## Comments -/

/-- No comment begins in a part without quotes and slashes. -/
theorem stripComment_append {front : List Char} (h : ∀ c ∈ front, c ≠ '"' ∧ c ≠ '/')
    (tail : List Char) :
    stripComment false false (front ++ tail) = front ++ stripComment false false tail := by
  induction front with
  | nil => rfl
  | cons c front ih =>
    rw [List.forall_mem_cons] at h
    simp [stripComment, h.1.1, h.1.2, ih h.2]

/-- The inside of a literal is kept whole: a quote or a backslash in it follows a backslash. -/
theorem stripComment_escape (cs tail : List Char) :
    stripComment true false (escape cs ++ tail) = escape cs ++ stripComment true false tail := by
  induction cs with
  | nil => rfl
  | cons c cs ih =>
    unfold escape
    split
    · simp [stripComment, ih]
    · rename_i hs
      obtain ⟨hback, hquote, _⟩ := ne_of_escapeSign?_eq_none hs
      simp [stripComment, hback, hquote, ih]

/-- No comment begins within a literal. -/
theorem stripComment_literal (cs : List Char) :
    stripComment false false ('"' :: (escape cs ++ ['"'])) = '"' :: (escape cs ++ ['"']) := by
  have hinside := stripComment_escape cs ['"']
  simp only [stripComment] at hinside ⊢
  simpa using hinside

/-! ## Operand texts -/

/-- Text that can stand behind a mnemonic and be found there again. -/
structure IsOperandText (text : List Char) : Prop where
  ne_nil : text ≠ []
  trimmed : Trimmed text
  noColon : text.head? ≠ some ':'
  noFeed : '\n' ∉ text
  noComment : stripComment false false text = text

/-- There is no line break among the characters of words. -/
theorem feed_not_mem {text : List Char} (h : ∀ c ∈ text, IsWordChar c) : '\n' ∉ text := by
  intro hm
  exact absurd (h '\n' hm).1 (by decide)

/-- A text of word characters has no blanks at its ends. -/
theorem trimmed_of_words {text : List Char} (h : ∀ c ∈ text, IsWordChar c) : Trimmed text :=
  ⟨fun c hc => (h c (List.mem_of_mem_head? hc)).1, fun c hc => (h c (List.mem_of_getLast? hc)).1⟩

/-- No comment begins in a text of word characters. -/
theorem stripComment_words {text : List Char} (h : ∀ c ∈ text, IsWordChar c) :
    stripComment false false text = text := by
  have hstrip := stripComment_append (fun c hc => (h c hc).2) []
  simpa [stripComment] using hstrip

/-- A text of word characters without a colon may be an operand. -/
theorem isOperandText_of_words {text : List Char} (hn : text ≠ [])
    (h : ∀ c ∈ text, IsWordChar c ∧ c ≠ ':') : IsOperandText text where
  ne_nil := hn
  trimmed := trimmed_of_words fun c hc => (h c hc).1
  noColon hc := (h ':' (List.mem_of_mem_head? hc)).2 rfl
  noFeed := feed_not_mem fun c hc => (h c hc).1
  noComment := stripComment_words fun c hc => (h c hc).1

/-- An escaped text between quotes may be an operand, whatever it says. -/
theorem isOperandText_literal (cs : List Char) :
    IsOperandText ('"' :: (escape cs ++ ['"'])) where
  ne_nil := List.cons_ne_nil _ _
  trimmed := by
    refine ⟨?_, ?_⟩
    · rintro c ⟨⟩
      decide
    · intro c hc
      rw [← List.cons_append, List.getLast?_concat] at hc
      cases hc
      decide
  noColon := by
    rintro ⟨⟩
  noFeed := by
    simpa using feed_not_mem_escape cs
  noComment := stripComment_literal cs

end Source

namespace Operand

/-- Numbers, variables, targets, tables and strings. -/
def isPlain : Operand → Bool
  | .int32 _ | .int64 _ | .variable _ | .target _ | .switch _ | .string _ => true
  | _ => false

/-- Whether a number or a table may have the character. -/
def isNumberChar (c : Char) : Bool := c.isDigit || ['-', '(', ',', ')'].contains c

/-- A character of a written number is one of words and no colon. -/
theorem isWordChar_of_isNumberChar {c : Char} (h : isNumberChar c = true) :
    Source.IsWordChar c ∧ c ≠ ':' := by
  rw [isNumberChar, Bool.or_eq_true] at h
  rcases h with h | h
  · refine ⟨Source.isWordChar_of_isDigit h, ?_⟩
    rintro rfl
    exact absurd h (by decide)
  · simp only [List.contains_eq_mem, List.mem_cons, List.not_mem_nil, or_false,
      decide_eq_true_eq] at h
    rcases h with rfl | rfl | rfl | rfl <;> exact ⟨⟨by decide, by decide, by decide⟩, by decide⟩

/-- A digit is a character of written numbers. -/
theorem isNumberChar_of_isDigit {c : Char} (h : c.isDigit = true) : isNumberChar c = true := by
  rw [isNumberChar, h, Bool.true_or]

/-- An offset is written in digits. -/
theorem isDigit_offsetText {offset : UInt32} {c : Char} (h : c ∈ (offsetText offset).toList) :
    c.isDigit = true := by
  rw [offsetText, paddedText, String.toList_ofList] at h
  exact isDigit_padZeros h

/-- An offset is written in at least one digit. -/
theorem offsetText_ne_nil (offset : UInt32) : (offsetText offset).toList ≠ [] := by
  rw [offsetText, paddedText, String.toList_ofList]
  exact padZeros_ne_nil 4 offset.toNat

private theorem isNumberChar_intText {n : Int} {c : Char} (h : c ∈ (intText n).toList) :
    isNumberChar c = true := by
  cases n with
  | ofNat n =>
    rw [intText, natText, String.toList_ofList] at h
    exact isNumberChar_of_isDigit (isDigit_toDigits h)
  | negSucc n =>
    have htext : (intText (.negSucc n)).toList = '-' :: Nat.toDigits 10 (n + 1) := by
      simp [intText, natText]
    rw [htext] at h
    rcases List.mem_cons.mp h with rfl | h
    · rfl
    · exact isNumberChar_of_isDigit (isDigit_toDigits h)

private theorem intText_ne_nil (n : Int) : (intText n).toList ≠ [] := by
  cases n with
  | ofNat n =>
    rw [intText, natText, String.toList_ofList]
    exact Nat.toDigits_ne_nil
  | negSucc n =>
    rw [intText, String.toList_append]
    exact List.cons_ne_nil _ _

/-- A switch table is written as its offsets between parentheses, with commas between them. -/
theorem toList_switch (offsets : List UInt32) :
    (Operand.switch offsets).text.toList = '(' ::
      ([','].intercalate (offsets.map fun offset => (offsetText offset).toList) ++ [')']) := by
  simp [text, String.toList_intercalate, Function.comp_def]

/-- A string is written between quotes, escaped. -/
theorem toList_string (string : String) :
    (Operand.string string).text.toList = '"' :: (escape string.toList ++ ['"']) := by
  simp [text]

private theorem mem_intercalate {c separator : Char} {pieces : List (List Char)}
    (h : c ∈ [separator].intercalate pieces) : c = separator ∨ ∃ piece ∈ pieces, c ∈ piece := by
  induction pieces with
  | nil => cases h
  | cons piece pieces ih =>
    cases pieces with
    | nil =>
      rw [List.intercalate_singleton] at h
      exact Or.inr ⟨piece, List.mem_singleton_self piece, h⟩
    | cons second pieces =>
      rw [List.intercalate_cons_cons, List.append_assoc, List.mem_append, List.mem_append,
        List.mem_singleton] at h
      rcases h with h | h | h
      · exact Or.inr ⟨piece, List.mem_cons_self, h⟩
      · exact Or.inl h
      · refine (ih h).imp_right ?_
        rintro ⟨found, hm, hc⟩
        exact ⟨found, List.mem_cons_of_mem _ hm, hc⟩

private theorem isNumberChar_switch {offsets : List UInt32} {c : Char}
    (h : c ∈ (Operand.switch offsets).text.toList) : isNumberChar c = true := by
  rw [toList_switch, List.mem_cons, List.mem_append, List.mem_singleton] at h
  rcases h with rfl | h | rfl
  · rfl
  · rcases mem_intercalate h with rfl | ⟨piece, hm, hc⟩
    · rfl
    · obtain ⟨offset, _, rfl⟩ := List.mem_map.mp hm
      exact isNumberChar_of_isDigit (isDigit_offsetText hc)
  · rfl

private theorem isOperandText_of_numberChars {text : List Char} (hn : text ≠ [])
    (h : ∀ c ∈ text, isNumberChar c = true) : Source.IsOperandText text :=
  Source.isOperandText_of_words hn fun c hc => isWordChar_of_isNumberChar (h c hc)

/-- The text of a plain operand is found again behind its mnemonic. -/
theorem isOperandText {operand : Operand} (h : operand.isPlain = true) :
    Source.IsOperandText operand.text.toList := by
  cases operand with
  | int32 value =>
    exact isOperandText_of_numberChars (intText_ne_nil _) fun _ => isNumberChar_intText
  | int64 value =>
    exact isOperandText_of_numberChars (intText_ne_nil _) fun _ => isNumberChar_intText
  | «variable» index =>
    have htext : (Operand.variable index).text = intText (.ofNat index.toNat) := rfl
    rw [htext]
    exact isOperandText_of_numberChars (intText_ne_nil _) fun _ => isNumberChar_intText
  | target offset =>
    refine isOperandText_of_numberChars (offsetText_ne_nil offset) fun _ hc => ?_
    exact isNumberChar_of_isDigit (isDigit_offsetText hc)
  | switch offsets =>
    refine isOperandText_of_numberChars ?_ fun _ => isNumberChar_switch
    rw [toList_switch]
    exact List.cons_ne_nil _ _
  | string string =>
    rw [toList_string]
    exact Source.isOperandText_literal string.toList
  | _ => cases h

end Operand

namespace Source

/-! ## Labels -/

/-- A name and a colon in front of a line are its label. -/
theorem splitLabel?_append {name : List Char} (hs : name.head?.any isLabelStart = true)
    (hn : ∀ c ∈ name, isLabelChar c = true) (rest : List Char) :
    splitLabel? (name ++ ':' :: rest) = some (name, rest) := by
  have hhead : (name ++ ':' :: rest).head?.any isLabelStart = true := by
    cases name with
    | nil => cases hs
    | cons c name => exact hs
  have hspan : (name ++ ':' :: rest).span isLabelChar = (name, ':' :: rest) := by
    have hcolon : isLabelChar ':' = false := by decide
    rw [List.span_eq_takeWhile_dropWhile, List.takeWhile_append_of_pos hn,
      List.dropWhile_append_of_pos hn]
    simp [hcolon]
  have hblank : (':' :: rest).dropWhile isBlank = ':' :: rest :=
    List.dropWhile_cons_of_neg (by decide)
  simp only [splitLabel?, hhead, if_true, hspan, hblank]

/-- No colon follows the part of a statement that could be a label. -/
theorem splitLabel?_eq_none {front tail : List Char}
    (hf : ∀ c ∈ front, Opcode.isNameChar c = true)
    (ht : tail = [] ∨ ∃ operand, tail = ' ' :: operand ∧ IsOperandText operand) :
    splitLabel? (front ++ tail) = none := by
  have hcolon : (((front ++ tail).dropWhile isLabelChar).dropWhile isBlank).head? ≠ some ':' := by
    induction front with
    | nil =>
      rcases ht with rfl | ⟨operand, rfl, ho⟩
      · simp
      · have hlabel : (' ' :: operand).dropWhile isLabelChar = ' ' :: operand :=
          List.dropWhile_cons_of_neg (by decide)
        have hblank : (' ' :: operand).dropWhile isBlank = operand.dropWhile isBlank :=
          List.dropWhile_cons_of_pos (by decide)
        rw [List.nil_append, hlabel, hblank, ho.trimmed.dropWhile]
        exact ho.noColon
    | cons c front ih =>
      rw [List.forall_mem_cons] at hf
      rw [List.cons_append, List.dropWhile_cons]
      split
      · exact ih hf.2
      · rw [List.dropWhile_cons_of_neg (by simp [(isWordChar_of_isNameChar hf.1).1])]
        rintro ⟨⟩
        exact absurd hf.1 (by decide)
  unfold splitLabel?
  split
  · rw [List.span_eq_takeWhile_dropWhile]
    dsimp only
    split
    · rename_i hrest
      rw [hrest] at hcolon
      exact absurd rfl hcolon
    · rfl
  · rfl

/-! ## Statements -/

/-- A text that is read as a statement, and as nothing else. -/
structure IsStatement (text : List Char) : Prop where
  ne_nil : text ≠ []
  trimmed : Trimmed text
  noLabel : splitLabel? text = none
  noFeed : '\n' ∉ text
  noComment : stripComment false false text = text

/-- The name of an opcode has word characters only. -/
theorem isWordChar_of_mem_mnemonic {op : Opcode} {c : Char} (h : c ∈ op.mnemonic.toList) :
    IsWordChar c :=
  isWordChar_of_isNameChar (Opcode.isNameChar_of_mem h)

/-- The name of an opcode alone may be a statement. -/
theorem isStatement_mnemonic (op : Opcode) : IsStatement op.mnemonic.toList where
  ne_nil := op.mnemonic_ne_nil
  trimmed := trimmed_of_words fun _ => isWordChar_of_mem_mnemonic
  noLabel := by
    have hname : ∀ c ∈ op.mnemonic.toList, Opcode.isNameChar c = true :=
      fun _ => Opcode.isNameChar_of_mem
    have hlabel := splitLabel?_eq_none hname (Or.inl rfl)
    rwa [List.append_nil] at hlabel
  noFeed := feed_not_mem fun _ => isWordChar_of_mem_mnemonic
  noComment := stripComment_words fun _ => isWordChar_of_mem_mnemonic

/-- The name of an opcode may be followed by a blank and an operand. -/
theorem isStatement_operand (op : Opcode) {operand : List Char} (h : IsOperandText operand) :
    IsStatement (op.mnemonic.toList ++ ' ' :: operand) where
  ne_nil hn := op.mnemonic_ne_nil (List.append_eq_nil_iff.mp hn).1
  trimmed := by
    obtain ⟨first, rest, hname⟩ := List.exists_cons_of_ne_nil op.mnemonic_ne_nil
    refine ⟨?_, ?_⟩
    · rw [hname]
      rintro c ⟨⟩
      exact (isWordChar_of_mem_mnemonic (hname ▸ List.mem_cons_self)).1
    · intro c hc
      have hlast : (op.mnemonic.toList ++ ' ' :: operand).getLast? = operand.getLast? := by
        rw [List.append_cons, List.getLast?_append,
          List.getLast?_eq_some_getLast h.ne_nil, Option.some_or]
      exact h.trimmed.2 c (hlast ▸ hc)
  noLabel := splitLabel?_eq_none (fun c => Opcode.isNameChar_of_mem) (Or.inr ⟨operand, rfl, h⟩)
  noFeed := by
    rw [List.mem_append, List.mem_cons, not_or, not_or]
    exact ⟨feed_not_mem fun _ => isWordChar_of_mem_mnemonic, by decide, h.noFeed⟩
  noComment := by
    have hname : ∀ c ∈ op.mnemonic.toList, c ≠ '"' ∧ c ≠ '/' :=
      fun _ hc => (isWordChar_of_mem_mnemonic hc).2
    have hblank : stripComment false false (' ' :: operand) = ' ' :: operand := by
      rw [← List.singleton_append, stripComment_append (by simp), h.noComment]
    rw [stripComment_append hname, hblank]

end Source

/-! ## Lines -/

namespace Instruction

/-- There is no operand or a plain one. -/
def isPlain (inst : Instruction) : Bool := inst.operand.all Operand.isPlain

/-- The text of the operand, empty if there is none. -/
def operandText (inst : Instruction) : List Char :=
  match inst.operand with
  | none => []
  | some operand => operand.text.toList

/-- The listing line without its label. -/
def statement (inst : Instruction) : List Char :=
  match inst.operand with
  | none => inst.opcode.mnemonic.toList
  | some operand => inst.opcode.mnemonic.toList ++ ' ' :: operand.text.toList

/-- A line of a listing is its label, a colon, a blank and the statement. -/
theorem toList_text (inst : Instruction) :
    inst.text.toList = (listingLabel inst.offset).toList ++ ':' :: ' ' :: inst.statement := by
  unfold text statement
  cases inst.operand with
  | none => simp
  | some operand => simp

/-- What a listing writes for a plain instruction may be a statement. -/
theorem isStatement {inst : Instruction} (h : inst.isPlain = true) :
    Source.IsStatement inst.statement := by
  unfold isPlain at h
  unfold statement
  split
  · exact Source.isStatement_mnemonic inst.opcode
  · rename_i operand ho
    rw [ho, Option.all_some] at h
    exact Source.isStatement_operand inst.opcode (Operand.isOperandText h)

/-- The statement of a listing line is divided into its mnemonic and its operand. -/
theorem splitStatement_statement {inst : Instruction} (h : inst.isPlain = true) :
    Source.splitStatement inst.statement = (inst.opcode.mnemonic.toList, inst.operandText) := by
  have hname : ∀ c ∈ inst.opcode.mnemonic.toList, isBlank c = false :=
    fun _ hc => (Source.isWordChar_of_mem_mnemonic hc).1
  unfold isPlain at h
  unfold Source.splitStatement statement operandText
  cases ho : inst.operand with
  | none => simp only [splitFirst?_eq_none hname]
  | some operand =>
    rw [ho, Option.all_some] at h
    have hblank : isBlank ' ' = true := by decide
    simp only [splitFirst?_append hname hblank, (Operand.isOperandText h).trimmed.trim]

/-- A label of a listing is written as `IL_` and the offset. -/
theorem toList_listingLabel (offset : UInt32) :
    (listingLabel offset).toList = "IL_".toList ++ (offsetText offset).toList :=
  String.toList_append

/-- A label of a listing has characters of labels only. -/
theorem isLabelChar_listingLabel {offset : UInt32} {c : Char}
    (h : c ∈ (listingLabel offset).toList) : Source.isLabelChar c = true := by
  rw [toList_listingLabel, List.mem_append] at h
  rcases h with h | h
  · have hfront : c = 'I' ∨ c = 'L' ∨ c = '_' := by simpa using h
    rcases hfront with rfl | rfl | rfl <;> rfl
  · have hdigit := Operand.isDigit_offsetText h
    simp [Source.isLabelChar, Char.isAlphanum, hdigit]

private theorem stripComment_text {inst : Instruction} (h : inst.isPlain = true) :
    Source.stripComment false false inst.text.toList = inst.text.toList := by
  have hlabel : ∀ c ∈ (listingLabel inst.offset).toList, c ≠ '"' ∧ c ≠ '/' :=
    fun _ hc => (Source.isWordChar_of_isLabelChar (isLabelChar_listingLabel hc)).2
  have hcolon : ∀ c ∈ [':', ' '], c ≠ '"' ∧ c ≠ '/' := by simp
  have hrest := Source.stripComment_append hcolon inst.statement
  rw [(isStatement h).noComment] at hrest
  rw [toList_text, Source.stripComment_append hlabel]
  exact congrArg _ hrest

private theorem trimmed_text {inst : Instruction} (h : inst.isPlain = true) :
    Trimmed inst.text.toList := by
  have hs := isStatement h
  rw [toList_text, toList_listingLabel]
  refine ⟨?_, ?_⟩
  · rintro c ⟨⟩
    decide
  · intro c hc
    rw [List.append_cons, List.append_cons, List.getLast?_append,
      List.getLast?_eq_some_getLast hs.ne_nil, Option.some_or] at hc
    rw [← List.getLast?_eq_some_getLast hs.ne_nil] at hc
    exact hs.trimmed.2 c hc

/-- A listing line is a line of its own. -/
theorem isLine_text {inst : Instruction} (h : inst.isPlain = true) : IsLine inst.text.toList where
  ne_nil := by
    rw [toList_text, toList_listingLabel]
    exact List.cons_ne_nil _ _
  noFeed := by
    have hlabel := Source.feed_not_mem fun c (hc : c ∈ (listingLabel inst.offset).toList) =>
      Source.isWordChar_of_isLabelChar (isLabelChar_listingLabel hc)
    rw [toList_text, List.mem_append, List.mem_cons, List.mem_cons, not_or, not_or, not_or]
    exact ⟨hlabel, by decide, by decide, (isStatement h).noFeed⟩
  noReturn hc := absurd ((trimmed_text h).2 '\r' hc) (by decide)

/-- A statement of a listing has no label in front of it. -/
theorem splitLabels_statement {inst : Instruction} (h : inst.isPlain = true) (rounds : Nat) :
    Source.splitLabels rounds inst.statement = ([], inst.statement) := by
  cases rounds with
  | zero => rfl
  | succ rounds => rw [Source.splitLabels, (isStatement h).noLabel]

/-- A listing line has one label and its statement. -/
theorem splitLine_text {inst : Instruction} (h : inst.isPlain = true) :
    Source.splitLine inst.text.toList =
      ([(listingLabel inst.offset).toList], inst.statement) := by
  have hlabel : Source.splitLabel? inst.text.toList =
      some ((listingLabel inst.offset).toList, ' ' :: inst.statement) := by
    rw [toList_text]
    refine Source.splitLabel?_append ?_ (fun _ => isLabelChar_listingLabel) _
    rw [toList_listingLabel]
    rfl
  unfold Source.splitLine
  rw [stripComment_text h, (trimmed_text h).trim]
  dsimp only
  have hne : inst.text.toList.length ≠ 0 :=
    fun hzero => (isLine_text h).ne_nil (List.length_eq_zero_iff.mp hzero)
  obtain ⟨rounds, hrounds⟩ := Nat.exists_eq_succ_of_ne_zero hne
  rw [hrounds, Source.splitLabels, hlabel]
  simp only [(isStatement h).trimmed.trim_blank_cons, splitLabels_statement h]

end Instruction

namespace Source.Layout

/-- A listing line adds its label and its statement at the end of the layout. -/
theorem addLine_text {inst : Instruction} (h : inst.isPlain = true) {width : Nat}
    (hw : operandWidth inst.opcode inst.operandText = .ok width) (layout : Layout) (line : Nat) :
    layout.addLine line inst.text.toList =
      .ok ⟨(listingLabel inst.offset, layout.size) :: layout.labels,
        ⟨line, inst.opcode, inst.operandText, layout.size⟩ :: layout.statements,
        layout.size + inst.opcode.size + width⟩ := by
  have hdefine : layout.define (listingLabel inst.offset).toList =
      .ok ⟨(listingLabel inst.offset, layout.size) :: layout.labels, layout.statements,
        layout.size⟩ := by
    have hlisting : isListingLabel (listingLabel inst.offset).toList = true := by
      rw [Instruction.toList_listingLabel]
      rfl
    simp [define, hlisting]
  have hne := (Instruction.isStatement h).ne_nil
  unfold addLine
  rw [Instruction.splitLine_text h]
  simp only [List.foldlM_cons, List.foldlM_nil, hdefine, bind, Except.bind, pure, Except.pure,
    List.isEmpty_iff, hne, if_false]
  simp [addStatement, Instruction.splitStatement_statement h, Opcode.ofMnemonic?_mnemonic, hw,
    bind, Except.bind, pure, Except.pure]

end Source.Layout

end ManagedCode
