import ManagedCode.Instruction.Immediate
import ManagedCode.Proofs.Bytes

/-!
# Operands by kind

What an operand of each kind looks like and means, apart from how it is read: its width, the
displacements in it, and the immediate that it stands for. Reading an operand off the front of some
bytes succeeds exactly if they start with one of the right width whose targets are offsets, and
gives what it means.
-/

namespace ManagedCode

/-- A sequence succeeds exactly if both its parts do. -/
theorem bind_eq_ok_iff {ε α β : Type} {x : Except ε α} {f : α → Except ε β} {b : β} :
    (x >>= f) = .ok b ↔ ∃ a, x = .ok a ∧ f a = .ok b := by
  cases x with
  | error e => simp [bind, Except.bind]
  | ok a => simp [bind, Except.bind]

/-- What is made of a result is there exactly if the result is. -/
theorem map_eq_ok_iff {ε α β : Type} {x : Except ε α} {f : α → β} {b : β} :
    f <$> x = .ok b ↔ ∃ a, x = .ok a ∧ f a = b := by
  cases x with
  | error e => simp [Functor.map, Except.map]
  | ok a => simp [Functor.map, Except.map]

namespace OperandKind

/-- The operand has exactly the width of its kind; that of a table is given by the count in its
front. -/
def Sized (kind : OperandKind) (operand : List UInt8) : Prop :=
  operand.length = kind.width?.getD (4 + 4 * Bytes.toNat (operand.take 4))

/-- The displacements of a branch or a table. -/
def displacements (kind : OperandKind) (operand : List UInt8) : List Int :=
  match kind with
  | .shortTarget | .target => [Bytes.signed operand]
  | .switch =>
    (Bytes.group 4 (Bytes.toNat (operand.take 4)) (operand.drop 4)).map Bytes.signed
  | _ => []

/-- Where the displacements lead from the end `base` of the instruction. -/
def targets (kind : OperandKind) (base : Nat) (operand : List UInt8) : List Int :=
  (kind.displacements operand).map fun displacement => base + displacement

/-- All targets are byte offsets of 32 bits. -/
def InReach (kind : OperandKind) (base : Nat) (operand : List UInt8) : Prop :=
  ∀ target ∈ kind.targets base operand, 0 ≤ target ∧ target < 2 ^ 32

/-- The immediate that an operand stands for in an instruction with the end `base`. -/
def immediate (kind : OperandKind) (base : Nat) (operand : List UInt8) : Immediate :=
  let n := Bytes.toNat operand
  match kind with
  | .none => .none
  | .shortVariable | .variable => .variable n.toUInt16
  | .shortInt32 | .int32 => .int32 (Int32.ofInt (Bytes.signed operand))
  | .int64 => .int64 (Int64.ofInt (Bytes.signed operand))
  | .float32 => .float32 n.toUInt32
  | .float64 => .float64 n.toUInt64
  | .shortTarget | .target => .target (base + Bytes.signed operand).toNat.toUInt32
  | .switch => .switch ((kind.targets base operand).map fun target => target.toNat.toUInt32)
  | .string | .field | .method | .type | .token | .signature => .token ⟨n.toUInt32⟩

/-- A table is a count of four bytes and that many displacements of four bytes. -/
theorem sized_switch_iff {operand : List UInt8} :
    switch.Sized operand ↔ ∃ front table, operand = front ++ table ∧
      front.length = 4 ∧ table.length = 4 * Bytes.toNat front := by
  constructor
  · intro h
    have hl : operand.length = 4 + 4 * Bytes.toNat (operand.take 4) := h
    refine ⟨operand.take 4, operand.drop 4, (List.take_append_drop 4 operand).symm, ?_, ?_⟩
    · rw [List.length_take]
      omega
    · rw [List.length_drop]
      omega
  · rintro ⟨front, table, rfl, hfront, htable⟩
    show (front ++ table).length = 4 + 4 * Bytes.toNat ((front ++ table).take 4)
    rw [List.take_left' hfront, List.length_append, hfront, htable]

/-- The targets of a switch table are its words counted from the end of the table. -/
theorem targets_switch {front : List UInt8} (hf : front.length = 4) (base : Nat)
    (table : List UInt8) :
    switch.targets base (front ++ table) =
      (Bytes.group 4 (Bytes.toNat front) table).map fun word => base + Bytes.signed word := by
  simp only [targets, displacements, List.take_left' hf,
    List.drop_left' hf, List.map_map]
  rfl

end OperandKind

namespace Immediate

/-- A word is read exactly if there are enough bytes. -/
theorem readWord_eq_ok_iff {width start n : Nat} {bytes rest : List UInt8} :
    readWord width start bytes = .ok (n, rest) ↔
      ∃ operand, operand.length = width ∧ bytes = operand ++ rest ∧ n = Bytes.toNat operand := by
  rw [← Bytes.take?_eq_some_iff]
  unfold readWord
  cases Bytes.take? width bytes <;> simp

/-- A displacement gives a target exactly if the target is a byte offset of 32 bits. -/
theorem absolute_eq_ok_iff {start base : Nat} {displacement : Int} {target : UInt32} :
    absolute start base displacement = .ok target ↔
      (0 ≤ base + displacement ∧ base + displacement < 2 ^ 32) ∧
        target = (base + displacement).toNat.toUInt32 := by
  have hrange : (IntRange.unsigned 32).contains (base + displacement) = true ↔
      0 ≤ base + displacement ∧ base + displacement < 2 ^ 32 := by
    rw [IntRange.contains_iff]
    exact and_congr_right fun _ => Int.le_sub_one_iff
  unfold absolute
  dsimp only
  split
  · rename_i h
    rw [Except.ok.injEq, and_iff_right (hrange.mp h), eq_comm]
  · rename_i h
    simp only [reduceCtorEq, false_iff, not_and]
    exact fun hr => absurd (hrange.mpr hr) h

private theorem word_eq_ok_iff {width start : Nat} {make : Nat → Except DecodeError Immediate}
    {bytes rest : List UInt8} {immediate : Immediate} :
    (do
      let (n, rest) ← readWord width start bytes
      return (← make n, rest)) = Except.ok (immediate, rest) ↔
      ∃ operand, operand.length = width ∧ bytes = operand ++ rest ∧
        make (Bytes.toNat operand) = .ok immediate := by
  constructor
  · intro h
    obtain ⟨⟨n, behind⟩, hw, hmake⟩ := bind_eq_ok_iff.mp h
    obtain ⟨made, hm, hresult⟩ := bind_eq_ok_iff.mp hmake
    obtain ⟨operand, hl, rfl, rfl⟩ := readWord_eq_ok_iff.mp hw
    cases hresult
    exact ⟨operand, hl, rfl, hm⟩
  · rintro ⟨operand, hl, rfl, hm⟩
    have hw : readWord width start (operand ++ rest) = .ok (Bytes.toNat operand, rest) :=
      readWord_eq_ok_iff.mpr ⟨operand, hl, rfl, rfl⟩
    exact bind_eq_ok_iff.mpr ⟨_, hw, bind_eq_ok_iff.mpr ⟨_, hm, rfl⟩⟩

/-! ## Words as signed numbers -/

/-- One byte read with its sign is a number of 8 bits. -/
theorem toInt_toInt8 {operand : List UInt8} (hl : operand.length = 1) :
    (Bytes.toNat operand).toInt8.toInt = Bytes.signed operand := by
  rw [Bytes.signed, hl]
  exact Int8.toInt_ofNat'

/-- Four bytes read with their sign are a number of 32 bits. -/
theorem toInt_toInt32 {operand : List UInt8} (hl : operand.length = 4) :
    (Bytes.toNat operand).toInt32.toInt = Bytes.signed operand := by
  rw [Bytes.signed, hl]
  exact Int32.toInt_ofNat'

/-- Eight bytes read with their sign are a number of 64 bits. -/
theorem toInt_toInt64 {operand : List UInt8} (hl : operand.length = 8) :
    (Bytes.toNat operand).toInt64.toInt = Bytes.signed operand := by
  rw [Bytes.signed, hl]
  exact Int64.toInt_ofNat'

/-! ## Tables -/

private theorem mapM_absolute_eq_ok_iff {start base : Nat} {words : List (List UInt8)}
    (hw : ∀ word ∈ words, word.length = 4) {offsets : List UInt32} :
    (words.map Bytes.toNat).mapM (fun word => absolute start base word.toInt32.toInt) =
        Except.ok offsets ↔
      (∀ word ∈ words, 0 ≤ base + Bytes.signed word ∧ base + Bytes.signed word < 2 ^ 32) ∧
        offsets = words.map fun word => (base + Bytes.signed word).toNat.toUInt32 := by
  induction words generalizing offsets with
  | nil => simp [pure, Except.pure, eq_comm]
  | cons word words ih =>
    have hword := toInt_toInt32 (hw word List.mem_cons_self)
    have hrest : ∀ word ∈ words, word.length = 4 := fun w h => hw w (List.mem_cons_of_mem _ h)
    rw [List.map_cons, List.mapM_cons, hword, List.forall_mem_cons, List.map_cons]
    constructor
    · intro h
      obtain ⟨offset, ha, h⟩ := bind_eq_ok_iff.mp h
      obtain ⟨more, hm, h⟩ := bind_eq_ok_iff.mp h
      obtain ⟨hreach, rfl⟩ := absolute_eq_ok_iff.mp ha
      obtain ⟨hreaches, rfl⟩ := (ih hrest).mp hm
      cases h
      exact ⟨⟨hreach, hreaches⟩, rfl⟩
    · rintro ⟨⟨hreach, hreaches⟩, rfl⟩
      have ha : absolute start base (Bytes.signed word) = .ok _ :=
        absolute_eq_ok_iff.mpr ⟨hreach, rfl⟩
      exact bind_eq_ok_iff.mpr ⟨_, ha, bind_eq_ok_iff.mpr ⟨_, (ih hrest).mpr ⟨hreaches, rfl⟩, rfl⟩⟩

/-- A table is read exactly if it is complete and all its targets are byte offsets. -/
theorem readTable_eq_ok_iff {start : Nat} {bytes rest : List UInt8} {immediate : Immediate} :
    readTable start bytes = .ok (immediate, rest) ↔
      ∃ operand, OperandKind.switch.Sized operand ∧ bytes = operand ++ rest ∧
        OperandKind.switch.InReach (start + operand.length) operand ∧
        immediate = OperandKind.switch.immediate (start + operand.length) operand := by
  constructor
  · intro h
    obtain ⟨⟨count, behind⟩, hw, htable⟩ := bind_eq_ok_iff.mp h
    obtain ⟨front, hfront, rfl, rfl⟩ := readWord_eq_ok_iff.mp hw
    dsimp only at htable
    split at htable
    · cases htable
    · rename_i words behind' hmany
      obtain ⟨offsets, hoffsets, hresult⟩ := bind_eq_ok_iff.mp htable
      obtain ⟨table, htaken, rfl, rfl⟩ := Bytes.takeMany?_eq_some_iff.mp hmany
      cases hresult
      rw [mapM_absolute_eq_ok_iff fun _ => Bytes.length_of_mem_group htaken] at hoffsets
      obtain ⟨hreach, rfl⟩ := hoffsets
      -- Targets count from behind the whole table.
      have hbase : start + 4 + 4 * Bytes.toNat front = start + (front ++ table).length := by
        rw [List.length_append, hfront, htaken, Nat.add_assoc]
      rw [hbase] at hreach ⊢
      have hsized := OperandKind.sized_switch_iff.mpr ⟨front, table, rfl, hfront, htaken⟩
      refine ⟨front ++ table, hsized, (List.append_assoc ..).symm, ?_, ?_⟩
      · rwa [OperandKind.InReach, OperandKind.targets_switch hfront, List.forall_mem_map]
      · rw [OperandKind.immediate, OperandKind.targets_switch hfront, List.map_map]
        rfl
  · rintro ⟨operand, hsized, rfl, hreach, rfl⟩
    obtain ⟨front, table, rfl, hfront, htaken⟩ := OperandKind.sized_switch_iff.mp hsized
    have hw : readWord 4 start (front ++ table ++ rest) =
        .ok (Bytes.toNat front, table ++ rest) :=
      readWord_eq_ok_iff.mpr ⟨front, hfront, List.append_assoc .., rfl⟩
    have hmany : Bytes.takeMany? 4 (Bytes.toNat front) (table ++ rest) =
        some ((Bytes.group 4 (Bytes.toNat front) table).map Bytes.toNat, rest) :=
      Bytes.takeMany?_eq_some_iff.mpr ⟨table, htaken, rfl, rfl⟩
    have hbase : start + 4 + 4 * Bytes.toNat front = start + (front ++ table).length := by
      rw [List.length_append, hfront, htaken, Nat.add_assoc]
    rw [OperandKind.InReach, OperandKind.targets_switch hfront, List.forall_mem_map] at hreach
    refine bind_eq_ok_iff.mpr ⟨_, hw, ?_⟩
    simp only [hmany, hbase]
    refine bind_eq_ok_iff.mpr ⟨_, (mapM_absolute_eq_ok_iff ?_).mpr ⟨hreach, rfl⟩, ?_⟩
    · exact fun _ => Bytes.length_of_mem_group htaken
    rw [OperandKind.immediate, OperandKind.targets_switch hfront, List.map_map]
    rfl

/-! ## Reading an operand -/

private theorem ofInt_signed_short {operand : List UInt8} (hl : operand.length = 1) :
    (Bytes.toNat operand).toInt8.toInt32 = Int32.ofInt (Bytes.signed operand) := by
  rw [← toInt_toInt8 hl]
  exact (Int32.ofInt_int8ToInt _).symm

/-- What is made of the number in an operand of fixed width. -/
private def make (kind : OperandKind) (start n : Nat) : Except DecodeError Immediate :=
  match kind with
  | .none | .switch => .ok .none
  | .shortVariable | .variable => .ok (.variable n.toUInt16)
  | .shortInt32 => .ok (.int32 n.toInt8.toInt32)
  | .int32 => .ok (.int32 n.toInt32)
  | .int64 => .ok (.int64 n.toInt64)
  | .float32 => .ok (.float32 n.toUInt32)
  | .float64 => .ok (.float64 n.toUInt64)
  | .shortTarget => .target <$> absolute start (start + 1) n.toInt8.toInt
  | .target => .target <$> absolute start (start + 4) n.toInt32.toInt
  | .string | .field | .method | .type | .token | .signature => .ok (.token ⟨n.toUInt32⟩)

private theorem read_eq_word {kind : OperandKind} {width : Nat} (hk : kind.width? = some width)
    (start : Nat) (bytes : List UInt8) :
    read kind start bytes = do
      let (n, rest) ← readWord width start bytes
      return (← make kind start n, rest) := by
  cases kind <;> cases hk <;> rfl

private theorem make_plain_iff {kind : OperandKind} {base : Nat} {operand : List UInt8}
    {made immediate : Immediate} (hk : kind.displacements operand = [])
    (hm : made = kind.immediate base operand) :
    (Except.ok made : Except DecodeError Immediate) = .ok immediate ↔
      kind.InReach base operand ∧ immediate = kind.immediate base operand := by
  have hreach : kind.InReach base operand := by
    intro target ht
    rw [OperandKind.targets, hk] at ht
    cases ht
  rw [and_iff_right hreach, Except.ok.injEq, hm, eq_comm]

private theorem make_target_iff {kind : OperandKind} {start base : Nat} {operand : List UInt8}
    {immediate : Immediate} (hk : kind.displacements operand = [Bytes.signed operand])
    (hm : kind.immediate base operand = .target (base + Bytes.signed operand).toNat.toUInt32) :
    Immediate.target <$> absolute start base (Bytes.signed operand) = .ok immediate ↔
      kind.InReach base operand ∧ immediate = kind.immediate base operand := by
  have hreach : kind.InReach base operand ↔
      0 ≤ base + Bytes.signed operand ∧ base + Bytes.signed operand < 2 ^ 32 := by
    rw [OperandKind.InReach, OperandKind.targets, hk, List.map_singleton, List.forall_mem_singleton]
  rw [map_eq_ok_iff, hreach, hm]
  simp only [absolute_eq_ok_iff]
  constructor
  · rintro ⟨target, ⟨hr, rfl⟩, rfl⟩
    exact ⟨hr, rfl⟩
  · rintro ⟨hr, rfl⟩
    exact ⟨_, ⟨hr, rfl⟩, rfl⟩

private theorem make_eq_ok_iff {kind : OperandKind} {start : Nat} {operand : List UInt8}
    {immediate : Immediate} (hk : kind.width? = some operand.length) :
    make kind start (Bytes.toNat operand) = .ok immediate ↔
      kind.InReach (start + operand.length) operand ∧
        immediate = kind.immediate (start + operand.length) operand := by
  have hl : operand.length = kind.width?.getD 0 := by rw [hk, Option.getD_some]
  cases kind with
  | switch => cases hk
  | shortTarget =>
    rw [make, toInt_toInt8 hl, hl]
    exact make_target_iff rfl rfl
  | target =>
    rw [make, toInt_toInt32 hl, hl]
    exact make_target_iff rfl rfl
  | shortInt32 =>
    rw [make, ofInt_signed_short hl]
    exact make_plain_iff rfl rfl
  | int32 =>
    rw [make, ← Int32.ofInt_toInt (Bytes.toNat operand).toInt32, toInt_toInt32 hl]
    exact make_plain_iff rfl rfl
  | int64 =>
    rw [make, ← Int64.ofInt_toInt (Bytes.toNat operand).toInt64, toInt_toInt64 hl]
    exact make_plain_iff rfl rfl
  | _ => exact make_plain_iff rfl rfl

/-- An operand is read off the front exactly if the bytes start with one of the width of its kind
whose targets are byte offsets. -/
theorem read_eq_ok_iff {kind : OperandKind} {start : Nat} {bytes rest : List UInt8}
    {immediate : Immediate} :
    read kind start bytes = .ok (immediate, rest) ↔
      ∃ operand, kind.Sized operand ∧ bytes = operand ++ rest ∧
        kind.InReach (start + operand.length) operand ∧
        immediate = kind.immediate (start + operand.length) operand := by
  cases hk : kind.width? with
  | none =>
    cases kind <;> cases hk
    exact readTable_eq_ok_iff
  | some width =>
    rw [read_eq_word hk, word_eq_ok_iff]
    refine exists_congr fun operand => ?_
    rw [OperandKind.Sized, hk, Option.getD_some]
    refine and_congr_right fun hl => and_congr_right fun _ => ?_
    exact make_eq_ok_iff (hl ▸ hk)

end Immediate

end ManagedCode
