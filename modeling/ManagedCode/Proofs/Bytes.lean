import Mathlib.Algebra.Group.Int.Defs
import Mathlib.Algebra.Group.Nat.Defs
import ManagedCode.Bytes

/-!
# Numbers in byte sequences

A byte sequence of a given length stands for one number below the power of 256, and the reverse.
Reading numbers off the front of a sequence splits it there and fails only when it is too short. In
two's complement a sequence stands for the number nearest to zero with that residue.
-/

namespace ManagedCode.Bytes

/-- The number that a byte sequence stands for in two's complement. -/
def signed (bytes : List UInt8) : Int := Int.bmod (toNat bytes) (256 ^ bytes.length)

/-- The first `count` groups of `width` bytes. -/
def group (width : Nat) : (count : Nat) → List UInt8 → List (List UInt8)
  | 0, _ => []
  | count + 1, bytes => bytes.take width :: group width count (bytes.drop width)

/-! ## Numbers and bytes -/

/-- The number of some bytes fits into them. -/
theorem toNat_lt (bytes : List UInt8) : toNat bytes < 256 ^ bytes.length := by
  induction bytes with
  | nil => decide
  | cons byte bytes ih =>
    have hb := byte.toNat_lt
    rw [toNat, List.length_cons, Nat.pow_succ]
    omega

/-- A number is written in the bytes that it is given. -/
@[simp] theorem length_ofNat (width n : Nat) : (ofNat width n).length = width := by
  induction width generalizing n with
  | zero => rfl
  | succ width ih => rw [ofNat, List.length_cons, ih]

/-- Writing the number of some bytes gives the bytes. -/
theorem ofNat_toNat (bytes : List UInt8) : ofNat bytes.length (toNat bytes) = bytes := by
  induction bytes with
  | nil => rfl
  | cons byte bytes ih =>
    have hb := byte.toNat_lt
    have hlow : (toNat (byte :: bytes)).toUInt8 = byte := by
      apply UInt8.toNat_inj.mp
      rw [Nat.toUInt8_eq, UInt8.toNat_ofNat', toNat]
      omega
    have hhigh : toNat (byte :: bytes) / 256 = toNat bytes := by
      rw [toNat]
      omega
    rw [List.length_cons, ofNat, hlow, hhigh, ih]

/-- Reading the written bytes of a number gives its residue. -/
theorem toNat_ofNat (width n : Nat) : toNat (ofNat width n) = n % 256 ^ width := by
  induction width generalizing n with
  | zero => rw [ofNat, toNat, Nat.pow_zero, Nat.mod_one]
  | succ width ih =>
    have hmod : n % 256 ^ (width + 1) = n % 256 + 256 * (n / 256 % 256 ^ width) := by
      rw [Nat.pow_succ', Nat.mod_mul]
    rw [ofNat, toNat, ih, Nat.toUInt8_eq, UInt8.toNat_ofNat', hmod]

private theorem ofInt_eq {bytes : List UInt8} {n : Int}
    (h : n % (256 ^ bytes.length : Nat) = toNat bytes) : ofInt bytes.length n = bytes := by
  have hmod : (n % Nat.pow 256 bytes.length).toNat = toNat bytes :=
    (congrArg Int.toNat h).trans (Int.toNat_natCast _)
  rw [ofInt, hmod, ofNat_toNat]

private theorem toNat_emod (bytes : List UInt8) :
    (toNat bytes : Int) % (256 ^ bytes.length : Nat) = toNat bytes :=
  Int.emod_eq_of_lt (Int.natCast_nonneg _) (Int.ofNat_lt.mpr (toNat_lt bytes))

/-- Writing the number of some bytes gives the bytes. -/
theorem ofInt_toNat (bytes : List UInt8) : ofInt bytes.length (toNat bytes) = bytes :=
  ofInt_eq (toNat_emod bytes)

/-- Writing the signed number of some bytes gives the bytes. -/
theorem ofInt_signed (bytes : List UInt8) : ofInt bytes.length (signed bytes) = bytes := by
  refine ofInt_eq ?_
  rw [signed, Int.bmod_emod, toNat_emod]

/-- A whole number is written in the bytes that it is given. -/
@[simp] theorem length_ofInt (width : Nat) (n : Int) : (ofInt width n).length = width :=
  length_ofNat ..

/-- Reading the written bytes of a whole number gives its residue. -/
theorem toNat_ofInt (width : Nat) (n : Int) :
    (toNat (ofInt width n) : Int) = n % (256 ^ width : Nat) := by
  have hpos : (0 : Int) < (256 ^ width : Nat) := Int.natCast_pos.mpr (Nat.pow_pos (by decide))
  have hlow := Int.emod_nonneg n (Int.ne_of_gt hpos)
  have hhigh := Int.emod_lt_of_pos n hpos
  have hlt : (n % (256 ^ width : Nat)).toNat < 256 ^ width := by omega
  rw [ofInt, toNat_ofNat, Nat.pow_eq, Nat.mod_eq_of_lt hlt, Int.toNat_of_nonneg hlow]

/-- Reading the written bytes with a sign gives the residue around zero. -/
theorem signed_ofInt (width : Nat) (n : Int) : signed (ofInt width n) = n.bmod (256 ^ width) := by
  rw [signed, length_ofInt, toNat_ofInt, Int.emod_bmod]

/-- A number in the range of the bits comes back. -/
theorem signed_ofInt_of_mem {width bits : Nat} (hb : 256 ^ width = 2 * 2 ^ bits) {n : Int}
    (hl : -2 ^ bits ≤ n) (hh : n < 2 ^ bits) : signed (ofInt width n) = n := by
  rw [signed_ofInt, hb]
  apply Int.bmod_eq_of_le
  · push_cast
    omega
  · push_cast
    omega

/-- The signed number of some bytes is in the range of their bits. -/
theorem signed_mem {bytes : List UInt8} {width bits : Nat} (hw : bytes.length = width)
    (hb : 256 ^ width = 2 * 2 ^ bits) : -2 ^ bits ≤ signed bytes ∧ signed bytes < 2 ^ bits := by
  have hpos : 0 < 2 * 2 ^ bits := Nat.mul_pos (by decide) (Nat.two_pow_pos bits)
  have hlow := @Int.le_bmod (toNat bytes) _ hpos
  have hhigh := @Int.bmod_lt (toNat bytes) _ hpos
  rw [signed, hw, hb]
  push_cast at hlow hhigh ⊢
  omega

/-! ## Reading off the front -/

/-- A number is read off the front exactly if there are enough bytes. -/
theorem take?_eq_some_iff {width n : Nat} {bytes rest : List UInt8} :
    take? width bytes = some (n, rest) ↔
      ∃ taken, taken.length = width ∧ bytes = taken ++ rest ∧ n = toNat taken := by
  induction width generalizing n bytes with
  | zero =>
    simp only [take?, Option.some.injEq, Prod.mk.injEq, List.length_eq_zero_iff]
    constructor
    · rintro ⟨rfl, rfl⟩
      exact ⟨[], rfl, rfl, rfl⟩
    · rintro ⟨_, rfl, rfl, rfl⟩
      exact ⟨rfl, rfl⟩
  | succ width ih =>
    cases bytes with
    | nil =>
      simp only [take?, reduceCtorEq, false_iff]
      rintro ⟨taken, hl, ht, _⟩
      rw [(List.append_eq_nil_iff.mp ht.symm).1] at hl
      cases hl
    | cons byte bytes =>
      constructor
      · intro h
        obtain ⟨⟨low, behind⟩, htake, hresult⟩ := Option.bind_eq_some_iff.mp h
        cases hresult
        obtain ⟨taken, hl, rfl, rfl⟩ := ih.mp htake
        exact ⟨byte :: taken, congrArg (· + 1) hl, rfl, rfl⟩
      · rintro ⟨taken, hl, ht, rfl⟩
        cases taken with
        | nil => cases hl
        | cons first taken =>
          rw [List.cons_append, List.cons.injEq] at ht
          obtain ⟨rfl, ht⟩ := ht
          have htake := ih.mpr ⟨taken, Nat.succ.inj hl, ht, rfl⟩
          exact Option.bind_eq_some_iff.mpr ⟨_, htake, rfl⟩

/-- There are as many groups as were asked for. -/
theorem length_group (width count : Nat) (bytes : List UInt8) :
    (group width count bytes).length = count := by
  induction count generalizing bytes with
  | zero => rfl
  | succ count ih => rw [group, List.length_cons, ih]

/-- Each group has the width that was asked for. -/
theorem length_of_mem_group {width count : Nat} {bytes : List UInt8}
    (hl : bytes.length = width * count) {word : List UInt8} (hw : word ∈ group width count bytes) :
    word.length = width := by
  induction count generalizing bytes with
  | zero => cases hw
  | succ count ih =>
    rw [Nat.mul_succ] at hl
    rcases List.mem_cons.mp hw with rfl | hw
    · rw [List.length_take]
      omega
    · exact ih (by rw [List.length_drop]; omega) hw

/-- The groups in sequence are the bytes. -/
theorem flatten_group {width count : Nat} {bytes : List UInt8}
    (hl : bytes.length = width * count) : (group width count bytes).flatten = bytes := by
  induction count generalizing bytes with
  | zero => exact (List.length_eq_zero_iff.mp hl).symm
  | succ count ih =>
    rw [Nat.mul_succ] at hl
    rw [group, List.flatten_cons, ih (by rw [List.length_drop]; omega), List.take_append_drop]

/-- Words in sequence are grouped into the words. -/
theorem group_flatten {width : Nat} {words : List (List UInt8)}
    (h : ∀ word ∈ words, word.length = width) : group width words.length words.flatten = words := by
  induction words with
  | nil => rfl
  | cons word words ih =>
    rw [List.forall_mem_cons] at h
    rw [List.flatten_cons, List.length_cons, group, List.take_left' h.1, List.drop_left' h.1,
      ih h.2]

/-- Several numbers are read off the front exactly if there are enough bytes. -/
theorem takeMany?_eq_some_iff {width count : Nat} {ns : List Nat} {bytes rest : List UInt8} :
    takeMany? width count bytes = some (ns, rest) ↔
      ∃ taken, taken.length = width * count ∧ bytes = taken ++ rest ∧
        ns = (group width count taken).map toNat := by
  induction count generalizing ns bytes with
  | zero =>
    simp only [takeMany?, Option.some.injEq, Prod.mk.injEq, Nat.mul_zero, List.length_eq_zero_iff,
      group, List.map_nil]
    constructor
    · rintro ⟨rfl, rfl⟩
      exact ⟨[], rfl, rfl, rfl⟩
    · rintro ⟨_, rfl, rfl, rfl⟩
      exact ⟨rfl, rfl⟩
  | succ count ih =>
    constructor
    · intro h
      obtain ⟨⟨n, behind⟩, htake, h⟩ := Option.bind_eq_some_iff.mp h
      obtain ⟨⟨more, behind'⟩, hmany, hresult⟩ := Option.bind_eq_some_iff.mp h
      cases hresult
      obtain ⟨first, hfirst, rfl, rfl⟩ := take?_eq_some_iff.mp htake
      obtain ⟨taken, hl, rfl, rfl⟩ := ih.mp hmany
      refine ⟨first ++ taken, ?_, (List.append_assoc ..).symm, ?_⟩
      · rw [List.length_append, hfirst, hl, Nat.mul_succ, Nat.add_comm]
      · rw [group, List.take_left' hfirst, List.drop_left' hfirst, List.map_cons]
    · rintro ⟨taken, hl, rfl, rfl⟩
      have hwidth : (taken.take width).length = width := by
        rw [List.length_take, hl, Nat.mul_succ]
        omega
      have hrest : (taken.drop width).length = width * count := by
        rw [List.length_drop, hl, Nat.mul_succ, Nat.add_sub_cancel]
      have htake : take? width (taken ++ rest) =
          some (toNat (taken.take width), taken.drop width ++ rest) :=
        take?_eq_some_iff.mpr ⟨_, hwidth, by rw [← List.append_assoc, List.take_append_drop], rfl⟩
      have hmany := ih.mpr ⟨taken.drop width, hrest, rfl, rfl⟩
      exact Option.bind_eq_some_iff.mpr ⟨_, htake, Option.bind_eq_some_iff.mpr ⟨_, hmany, rfl⟩⟩

end ManagedCode.Bytes
