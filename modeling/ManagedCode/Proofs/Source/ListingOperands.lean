import ManagedCode.Proofs.Source.ListingLines
import ManagedCode.Proofs.Source.Literals

/-!
# Operand texts as operand bytes

A listing shows the number, the targets or the string that the operand bytes of an instruction stand
for. Assembling that text at the same offset gives the bytes back, except that a string gets the
token of its place in the string table.
-/

namespace ManagedCode.Source

open Text

/-! ## Targets -/

/-- All labels are those of listing lines. -/
def FromListing (labels : Labels) : Prop :=
  ∀ entry ∈ labels, ∃ offset, entry.1 = listingLabel offset

private theorem offsetText_ne_listingLabel (offset other : UInt32) :
    offsetText offset ≠ listingLabel other := by
  intro h
  have hmem : 'I' ∈ (offsetText offset).toList := by
    rw [h, Instruction.toList_listingLabel]
    exact List.mem_cons_self
  exact absurd (Operand.isDigit_offsetText hmem) (by decide)

/-- An offset is read as a number, since it is none of the labels. -/
theorem readTarget_offsetText {labels : Labels} (hl : FromListing labels) (offset : UInt32) :
    readTarget labels (offsetText offset).toList = .ok offset.toNat := by
  have hlookup : labels.lookup (offsetText offset) = none := by
    rw [List.lookup_eq_none_iff]
    intro entry hm
    obtain ⟨other, hother⟩ := hl entry hm
    rw [hother]
    exact bne_iff_ne.mpr (offsetText_ne_listingLabel offset other)
  have hlt := offset.toNat_lt
  have hread : readWithin (.unsigned 32) (offsetText offset).toList = .ok offset.toNat := by
    refine readWithin_of_readInteger (readInteger_paddedText 4 (by omega)) ?_
    have hlow : (IntRange.unsigned 32).low = 0 := rfl
    have hhigh : (IntRange.unsigned 32).high = 2 ^ 32 - 1 := rfl
    rw [hlow, hhigh]
    omega
  rw [readTarget, String.ofList_toList, hlookup, hread]

private theorem toNat_target {target : Int} (h : 0 ≤ target ∧ target < 2 ^ 32) :
    (target.toNat.toUInt32.toNat : Int) = target := by
  have hlt : target.toNat < 2 ^ 32 := by omega
  rw [Nat.toUInt32_eq, UInt32.toNat_ofNat_of_lt' hlt]
  exact Int.toNat_of_nonneg h.1

/-- The displacement to a target is the one that led there. -/
theorem displacement_offsetText {labels : Labels} (hl : FromListing labels) {base : Nat}
    {word : List UInt8} (hw : word.length = 4)
    (hr : 0 ≤ base + Bytes.signed word ∧ base + Bytes.signed word < 2 ^ 32) :
    displacement labels base (offsetText (base + Bytes.signed word).toNat.toUInt32).toList =
      .ok word := by
  have hback : (base + Bytes.signed word : Int) - base = Bytes.signed word := by omega
  have hword := Bytes.ofInt_signed word
  rw [hw] at hword
  simp only [displacement, readTarget_offsetText hl, bind, Except.bind, pure, Except.pure,
    toNat_target hr, hback, hword]

/-- The displacement to a written offset is the one that led there. -/
theorem shortDisplacement_offsetText {labels : Labels} (hl : FromListing labels) {base : Nat}
    {word : List UInt8} (hw : word.length = 1)
    (hr : 0 ≤ base + Bytes.signed word ∧ base + Bytes.signed word < 2 ^ 32) :
    shortDisplacement labels base (offsetText (base + Bytes.signed word).toNat.toUInt32).toList =
      .ok word := by
  have hback : (base + Bytes.signed word : Int) - base = Bytes.signed word := by omega
  have hcontains : (IntRange.signed 8).contains (Bytes.signed word) = true := by
    obtain ⟨hlow, hhigh⟩ := Bytes.signed_mem hw (show 256 ^ 1 = 2 * 2 ^ 7 from rfl)
    exact IntRange.contains_iff.mpr ⟨hlow, Int.le_sub_one_of_lt hhigh⟩
  have hword := Bytes.ofInt_signed word
  rw [hw] at hword
  simp only [shortDisplacement, readTarget_offsetText hl, bind, Except.bind, pure, Except.pure,
    toNat_target hr, hback, hcontains, if_true, hword]

/-! ## Tables -/

/-- The texts in a table are those of its targets. -/
theorem splitTargets_switch (offsets : List UInt32) :
    splitTargets (Operand.switch offsets).text.toList =
      .ok (offsets.map fun offset => (offsetText offset).toList) := by
  have hsplit : ((splitAll (· == ',')
      ([','].intercalate (offsets.map fun offset => (offsetText offset).toList))).map trim).filter
        (!·.isEmpty) = offsets.map fun offset => (offsetText offset).toList := by
    by_cases hn : offsets = []
    · subst hn
      rfl
    · have hcomma : ∀ piece ∈ offsets.map fun offset => (offsetText offset).toList,
          ',' ∉ piece := by
        intro piece hm hc
        obtain ⟨offset, _, rfl⟩ := List.mem_map.mp hm
        exact absurd (Operand.isDigit_offsetText hc) (by decide)
      have hword : ∀ piece ∈ offsets.map fun offset => (offsetText offset).toList,
          trim piece = piece ∧ (!piece.isEmpty) = true := by
        intro piece hm
        obtain ⟨offset, _, rfl⟩ := List.mem_map.mp hm
        refine ⟨(trimmed_of_words fun c hc => ?_).trim, ?_⟩
        · exact isWordChar_of_isDigit (Operand.isDigit_offsetText hc)
        · simpa using Operand.offsetText_ne_nil offset
      rw [splitAll_intercalate (fun h => hn (List.map_eq_nil_iff.mp h)) hcomma,
        List.map_congr_left fun piece hm => (hword piece hm).1, List.map_id',
        List.filter_eq_self.mpr fun piece hm => (hword piece hm).2]
  rw [Operand.toList_switch, splitTargets]
  simp only [List.reverse_append, List.reverse_singleton, List.singleton_append,
    List.reverse_reverse, hsplit]

private theorem mapM_displacement {labels : Labels} (hl : FromListing labels) {base : Nat}
    {words : List (List UInt8)} (hw : ∀ word ∈ words, word.length = 4)
    (hr : ∀ word ∈ words, 0 ≤ base + Bytes.signed word ∧ base + Bytes.signed word < 2 ^ 32) :
    (words.map fun word => (offsetText (base + Bytes.signed word).toNat.toUInt32).toList).mapM
      (displacement labels base) = .ok words := by
  induction words with
  | nil => rfl
  | cons word words ih =>
    rw [List.forall_mem_cons] at hw hr
    rw [List.map_cons, List.mapM_cons, displacement_offsetText hl hw.1 hr.1, ih hw.2 hr.2]
    rfl

/-- The operand that a table stands for. -/
def tableOperand (base : Nat) (table : List UInt8) : Operand :=
  .switch ((OperandKind.switch.targets base table).map fun target => target.toNat.toUInt32)

private theorem splitTargets_table {front table : List UInt8} (hf : front.length = 4)
    (base : Nat) :
    splitTargets (tableOperand base (front ++ table)).text.toList =
      .ok ((Bytes.group 4 (Bytes.toNat front) table).map fun word =>
        (offsetText (base + Bytes.signed word).toNat.toUInt32).toList) := by
  rw [tableOperand, splitTargets_switch, OperandKind.targets_switch hf, List.map_map, List.map_map]
  rfl

/-- A table is as long as its text says. -/
theorem length_splitTargets {operand : List UInt8} (hs : OperandKind.switch.Sized operand)
    (base : Nat) :
    ∃ targets, splitTargets (tableOperand base operand).text.toList = .ok targets ∧
      4 + 4 * targets.length = operand.length := by
  obtain ⟨front, table, rfl, hfront, htable⟩ := OperandKind.sized_switch_iff.mp hs
  refine ⟨_, splitTargets_table hfront base, ?_⟩
  rw [List.length_map, Bytes.length_group, List.length_append, hfront, htable]

/-- Assembling the text of a table gives its bytes. -/
theorem switchTable_text {labels : Labels} (hl : FromListing labels) {start base : Nat}
    {operand : List UInt8} (hs : OperandKind.switch.Sized operand)
    (hb : base = start + operand.length) (hr : OperandKind.switch.InReach base operand) :
    switchTable labels start (tableOperand base operand).text.toList = .ok operand := by
  obtain ⟨front, table, rfl, hfront, htable⟩ := OperandKind.sized_switch_iff.mp hs
  rw [OperandKind.InReach, OperandKind.targets_switch hfront, List.forall_mem_map] at hr
  have hbase : start + 4 + 4 * Bytes.toNat front = base := by
    rw [hb, List.length_append, hfront, htable, Nat.add_assoc]
  have hmap := mapM_displacement hl (fun _ => Bytes.length_of_mem_group htable) hr
  have hcount := Bytes.ofNat_toNat front
  rw [hfront] at hcount
  simp only [switchTable, splitTargets_table hfront, bind, Except.bind, List.length_map,
    Bytes.length_group, hbase, hmap, pure, Except.pure, hcount, Bytes.flatten_group htable]

/-! ## Numbers -/

private theorem ofInt_readWithin {range : IntRange} {text : List Char} {n : Int} {width : Nat}
    {operand : List UInt8} (ht : readInteger text = .ok n) (hr : range.low ≤ n ∧ n ≤ range.high)
    (ho : Bytes.ofInt width n = operand) :
    Bytes.ofInt width <$> readWithin range text = .ok operand :=
  map_eq_ok_iff.mpr ⟨n, readWithin_of_readInteger ht hr, ho⟩

private theorem ofInt_variable {operand : List UInt8} {width : Nat} (hw : operand.length = width)
    (h2 : width ≤ 2) {range : IntRange} (hl : range.low = 0)
    (hh : range.high = (256 ^ width : Nat) - 1) :
    Bytes.ofInt width <$>
      readWithin range (Operand.variable (Bytes.toNat operand).toUInt16).text.toList =
        .ok operand := by
  subst hw
  have hlt := Bytes.toNat_lt operand
  have hbound : 256 ^ operand.length ≤ 2 ^ 16 := Nat.pow_le_pow_right (by decide) h2
  have hsmall : Bytes.toNat operand < 2 ^ 16 := Nat.lt_of_lt_of_le hlt hbound
  have hvalue : (Bytes.toNat operand).toUInt16.toNat = Bytes.toNat operand := by
    rw [Nat.toUInt16_eq, UInt16.toNat_ofNat_of_lt' hsmall]
  rw [Operand.text, hvalue]
  refine ofInt_readWithin (readInteger_natText (by omega)) ?_ (Bytes.ofInt_toNat operand)
  rw [hl, hh]
  omega

/-- The text of the signed number in some bytes is written as these bytes. -/
private theorem ofInt_number {operand : List UInt8} {width bits : Nat}
    (hw : operand.length = width) (hb : 256 ^ width = 2 * 2 ^ bits) (hbits : bits < 127)
    {range : IntRange} (hl : range.low ≤ -2 ^ bits) (hh : 2 ^ bits - 1 ≤ range.high) :
    Bytes.ofInt width <$> readWithin range (intText (Bytes.signed operand)).toList =
      .ok operand := by
  obtain ⟨hlow, hhigh⟩ := Bytes.signed_mem hw hb
  subst hw
  have hbound : (2 : Int) ^ bits < 2 ^ 127 := by
    exact_mod_cast Nat.pow_lt_pow_right (by decide) hbits
  refine ofInt_readWithin (readInteger_intText ?_ ?_) ?_ (Bytes.ofInt_signed operand)
  · omega
  · omega
  · omega

private theorem text_int32 {operand : List UInt8} {width bits : Nat}
    (hw : operand.length = width) (hb : 256 ^ width = 2 * 2 ^ bits) (hbits : bits ≤ 31) :
    (Operand.int32 (Int32.ofInt (Bytes.signed operand))).text =
      intText (Bytes.signed operand) := by
  obtain ⟨hlow, hhigh⟩ := Bytes.signed_mem hw hb
  have hbound : (2 : Int) ^ bits ≤ 2 ^ 31 := by
    exact_mod_cast Nat.pow_le_pow_right (by decide) hbits
  rw [Operand.text, Int32.toInt_ofInt_of_le (by omega) (by omega)]

private theorem text_int64 {operand : List UInt8} (hw : operand.length = 8) :
    (Operand.int64 (Int64.ofInt (Bytes.signed operand))).text =
      intText (Bytes.signed operand) := by
  obtain ⟨hlow, hhigh⟩ := Bytes.signed_mem hw (show 256 ^ 8 = 2 * 2 ^ 63 from rfl)
  rw [Operand.text, Int64.toInt_ofInt_of_le hlow hhigh]

/-! ## Operands -/

private theorem not_isPlain_ofToken {α : Type} {token : Token} {found : Except ResolveError α}
    {make : α → Operand} (hm : ∀ a, (make a).isPlain = false) :
    (Operand.ofToken token (make <$> found)).isPlain = false := by
  cases found with
  | error e => rfl
  | ok a => exact hm a

/-- Assembling the text of an operand other than a string gives its bytes. -/
theorem plainOperand_text {resolver : Resolver} {piece : Piece} {offset : Nat}
    (hs : piece.Sized) (hr : ∀ target ∈ piece.targets offset, 0 ≤ target ∧ target < 2 ^ 32)
    (hk : piece.opcode.kind ≠ .string) {operand : Operand}
    (ho : piece.operandAt resolver offset = some operand) (hp : operand.isPlain = true)
    {labels : Labels} (hl : FromListing labels) :
    plainOperand piece.opcode.kind labels (offset + piece.opcode.size) operand.text.toList =
      .ok piece.operand := by
  have hbase : offset + piece.size = offset + piece.opcode.size + piece.operand.length := by
    rw [Piece.size_eq, Nat.add_assoc]
  unfold Piece.Sized at hs
  unfold Piece.operandAt at ho
  unfold Piece.targets at hr ho
  rw [hbase] at ho hr
  -- Only the kind and the place of the operand matter from here on.
  generalize piece.opcode.kind = kind at *
  generalize offset + piece.opcode.size = start at *
  cases kind with
  | none => cases ho
  | string => exact absurd rfl hk
  | shortVariable =>
    cases ho
    have hw : piece.operand.length = 1 := hs
    exact ofInt_variable hw (by decide) rfl rfl
  | «variable» =>
    cases ho
    have hw : piece.operand.length = 2 := hs
    exact ofInt_variable hw (by decide) rfl rfl
  | shortInt32 =>
    cases ho
    have hb : 256 ^ 1 = 2 * 2 ^ 7 := rfl
    rw [text_int32 hs hb (by decide)]
    exact ofInt_number hs hb (by decide) (by decide) (by decide)
  | int32 =>
    cases ho
    have hb : 256 ^ 4 = 2 * 2 ^ 31 := rfl
    rw [text_int32 hs hb (by decide)]
    exact ofInt_number hs hb (by decide) (by decide) (by decide)
  | int64 =>
    cases ho
    rw [text_int64 hs]
    exact ofInt_number hs (show 256 ^ 8 = 2 * 2 ^ 63 from rfl) (by decide) (by decide) (by decide)
  | shortTarget =>
    cases ho
    have hw : piece.operand.length = 1 := hs
    rw [hw] at hr ⊢
    exact shortDisplacement_offsetText hl hs (hr _ (List.mem_singleton_self _))
  | target =>
    cases ho
    have hw : piece.operand.length = 4 := hs
    rw [hw] at hr ⊢
    exact displacement_offsetText hl hs (hr _ (List.mem_singleton_self _))
  | switch =>
    cases ho
    exact switchTable_text hl hs rfl hr
  | float32 | float64 | signature =>
    cases ho
    cases hp
  | field | method | type | token =>
    cases ho
    rw [not_isPlain_ofToken fun _ => rfl] at hp
    cases hp

private theorem eq_switch_of_width? {kind : OperandKind} (h : kind.width? = none) :
    kind = .switch := by
  cases kind with
  | switch => rfl
  | _ => cases h

/-- The text of an operand tells how many bytes the operand has. -/
theorem operandWidth_text {resolver : Resolver} {piece : Piece} {offset : Nat} (hs : piece.Sized) :
    operandWidth piece.opcode (piece.instruction resolver offset).operandText =
      .ok piece.operand.length := by
  unfold Piece.Sized OperandKind.Sized at hs
  unfold operandWidth
  cases hk : piece.opcode.kind.width? with
  | some width => rw [hs, hk, Option.getD_some]
  | none =>
    have hkind : piece.opcode.kind = .switch := eq_switch_of_width? hk
    obtain ⟨targets, htargets, hlength⟩ := length_splitTargets (hkind ▸ hs) (offset + piece.size)
    have htext : (piece.instruction resolver offset).operandText =
        (tableOperand (offset + piece.size) piece.operand).text.toList := by
      simp only [Instruction.operandText, Piece.instruction, Piece.operandAt, Piece.targets, hkind]
      rfl
    simp only [htext, htargets, bind, Except.bind, pure, Except.pure, hlength]

/-- The statement that a listing line gives for a piece at an offset. -/
def ofPiece (resolver : Resolver) (line : Nat) (piece : Piece) (offset : Nat) : Statement :=
  ⟨line, piece.opcode, (piece.instruction resolver offset).operandText, offset⟩

private theorem operandAt_eq_none {resolver : Resolver} {piece : Piece} {offset : Nat}
    (ho : piece.operandAt resolver offset = none) : piece.opcode.kind = .none := by
  unfold Piece.operandAt at ho
  cases hk : piece.opcode.kind with
  | none => rfl
  | _ =>
    rw [hk] at ho
    cases ho

/-- The statement of a piece without a string is assembled into the operand of the piece. -/
theorem operandBytes_ofPiece {resolver : Resolver} {piece : Piece} {offset : Nat}
    (hs : piece.Sized) (hr : ∀ target ∈ piece.targets offset, 0 ≤ target ∧ target < 2 ^ 32)
    (hp : (piece.instruction resolver offset).isPlain = true) (hk : piece.opcode.kind ≠ .string)
    {labels : Labels} (hl : FromListing labels) (line : Nat) (literals : Literals) :
    operandBytes labels (ofPiece resolver line piece offset) literals =
      .ok piece.operand literals := by
  unfold operandBytes ofPiece Instruction.operandText Piece.instruction
  unfold Instruction.isPlain Piece.instruction at hp
  cases ho : piece.operandAt resolver offset with
  | none =>
    have hkind := operandAt_eq_none ho
    have hempty : piece.operand = [] := by
      unfold Piece.Sized at hs
      rw [hkind] at hs
      exact List.length_eq_zero_iff.mp hs
    rw [if_pos hkind, hempty]
    rfl
  | some operand =>
    rw [ho, Option.all_some] at hp
    have hkind : piece.opcode.kind ≠ .none := by
      intro hnone
      rw [Piece.operandAt, hnone] at ho
      cases ho
    have htext : operand.text.toList.isEmpty = false :=
      List.isEmpty_eq_false_iff.mpr (Operand.isOperandText hp).ne_nil
    have hplain := plainOperand_text hs hr hk ho hp hl
    simp only [if_neg hkind, htext, hk, false_and, if_false, hplain, Bool.false_eq_true]
    rfl

/-- A written string is read back. -/
theorem readLiteral_text (text : String) :
    readLiteral (Operand.string text).text.toList = .ok text := by
  rw [Operand.toList_string, readLiteral]
  simp only [List.reverse_append, List.reverse_singleton, List.singleton_append,
    List.reverse_reverse, unescape_escape, String.ofList_toList]

/-- A plain operand of a string opcode is the string of its token. -/
theorem operandAt_string {resolver : Resolver} {piece : Piece} {offset : Nat}
    (hp : (piece.instruction resolver offset).isPlain = true) (hk : piece.opcode.kind = .string) :
    ∃ text, resolver.string ⟨(Bytes.toNat piece.operand).toUInt32⟩ = .ok text ∧
      piece.operandAt resolver offset = some (.string text) := by
  have hoperand : piece.operandAt resolver offset =
      some (.ofToken ⟨(Bytes.toNat piece.operand).toUInt32⟩
        (.string <$> resolver.string ⟨(Bytes.toNat piece.operand).toUInt32⟩)) := by
    rw [Piece.operandAt, hk]
  rw [Instruction.isPlain, Piece.instruction, hoperand, Option.all_some] at hp
  cases hstring : resolver.string ⟨(Bytes.toNat piece.operand).toUInt32⟩ with
  | error e =>
    rw [hstring] at hp
    cases hp
  | ok text =>
    rw [hstring] at hoperand
    exact ⟨text, rfl, hoperand⟩

/-- The statement of a piece with a string interns the string. -/
theorem operandBytes_ofPiece_string {resolver : Resolver} {piece : Piece} {offset : Nat}
    {text : String} (hk : piece.opcode.kind = .string)
    (ho : piece.operandAt resolver offset = some (.string text)) (labels : Labels) (line : Nat)
    (literals : Literals) :
    operandBytes labels (ofPiece resolver line piece offset) literals =
      .ok (Bytes.ofNat 4 (literals.intern text).1.value.toNat) (literals.intern text).2 := by
  have htext : (piece.instruction resolver offset).operandText =
      (Operand.string text).text.toList := by
    rw [Instruction.operandText, Piece.instruction, ho]
  have hread := readLiteral_text text
  rw [Operand.toList_string] at htext hread
  unfold operandBytes ofPiece
  rw [htext, hk]
  simp only [reduceCtorEq, if_false, List.isEmpty_cons, Bool.false_eq_true, List.head?_cons,
    true_and, if_true, hread]
  rfl

end ManagedCode.Source
