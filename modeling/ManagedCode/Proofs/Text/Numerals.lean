import Mathlib.Algebra.Group.Int.Defs
import Mathlib.Algebra.Group.Nat.Defs
import ManagedCode.Source.Assembling

/-!
# Reading written numbers

Decimal digits, with any zeros in front, are read as the number that they were written for, as long
as it is in the range of the reader. So are the numbers of operands, with their sign.
-/

namespace ManagedCode.Text

/-- The value of a digit is its distance from zero. -/
theorem digit?_of_isDigit {c : Char} (h : c.isDigit = true) :
    digit? 10 c = some (c.toNat - '0'.toNat) := by
  have hc : '0' ≤ c ∧ c ≤ '9' := by
    simpa [Char.isDigit, Char.le_def] using h
  have hlt : c.toNat - '0'.toNat < 10 := by
    have h9 : c.toNat ≤ '9'.toNat := hc.2
    have h0 : '0'.toNat = 48 := rfl
    have h9' : '9'.toNat = 57 := rfl
    omega
  simp only [digit?, if_pos hc, Option.filter_some, decide_eq_true hlt, if_true]

private theorem le_ofDigitChars (digits : List Char) (n : Nat) :
    n ≤ Nat.ofDigitChars 10 digits n := by
  induction digits generalizing n with
  | nil => exact Nat.le_refl n
  | cons c digits ih =>
    rw [Nat.ofDigitChars_cons]
    have h := ih (10 * n + (c.toNat - '0'.toNat))
    omega

/-- Digits are read as their number if that is not above the bound: no number on the way is. -/
theorem readUp_digits {digits : List Char} (hd : ∀ c ∈ digits, c.isDigit = true) {n : Nat}
    {high : Int} (hh : (Nat.ofDigitChars 10 digits n : Int) ≤ high) :
    readUp 10 high n digits = .ok (Nat.ofDigitChars 10 digits n) := by
  induction digits generalizing n with
  | nil =>
    rw [Nat.ofDigitChars_nil]
    rfl
  | cons c digits ih =>
    rw [List.forall_mem_cons] at hd
    rw [Nat.ofDigitChars_cons] at hh ⊢
    have hle := le_ofDigitChars digits (10 * n + (c.toNat - '0'.toNat))
    have hnext : (n : Int) * (10 : Nat) + ((c.toNat - '0'.toNat : Nat) : Int) =
        ((10 * n + (c.toNat - '0'.toNat) : Nat) : Int) := by
      omega
    rw [readUp, digit?_of_isDigit hd.1]
    simp only [hnext]
    rw [if_pos (by omega)]
    exact ih hd.2 hh

/-- A number is written in digits. -/
theorem isDigit_toDigits {n : Nat} {c : Char} (h : c ∈ Nat.toDigits 10 n) : c.isDigit = true :=
  Nat.isDigit_of_mem_toDigits (by decide) (by decide) h

/-- A number that is padded with zeros is written in digits. -/
theorem isDigit_padZeros {width n : Nat} {c : Char}
    (h : c ∈ padZeros width (Nat.toDigits 10 n)) : c.isDigit = true := by
  rcases List.mem_append.mp h with hz | hd
  · rw [List.eq_of_mem_replicate hz]
    rfl
  · exact isDigit_toDigits hd

/-- Zeros in front do not change the number. -/
theorem ofDigitChars_padZeros (width n : Nat) :
    Nat.ofDigitChars 10 (padZeros width (Nat.toDigits 10 n)) 0 = n := by
  rw [padZeros]
  induction width - (Nat.toDigits 10 n).length with
  | zero => exact Nat.ofDigitChars_ten_toDigits
  | succ zeros ih =>
    rw [List.replicate_succ, List.cons_append, Nat.ofDigitChars_cons]
    exact ih

/-- A number that is padded with zeros is written in one digit at least. -/
theorem padZeros_ne_nil (width n : Nat) : padZeros width (Nat.toDigits 10 n) ≠ [] := by
  intro h
  exact Nat.toDigits_ne_nil (List.append_eq_nil_iff.mp h).2

/-- Digits without a sign are a numeral of their number. -/
theorem readInt_digits {digits : List Char} (hd : ∀ c ∈ digits, c.isDigit = true)
    (hn : digits ≠ []) {range : IntRange} (hh : (Nat.ofDigitChars 10 digits 0 : Int) ≤ range.high) :
    readInt 10 range digits = .ok (Nat.ofDigitChars 10 digits 0) := by
  have hplus : ∀ rest, digits ≠ '+' :: rest := by
    rintro rest rfl
    exact absurd (hd '+' List.mem_cons_self) (by decide)
  have hminus : ∀ rest, digits ≠ '-' :: rest := by
    rintro rest rfl
    exact absurd (hd '-' List.mem_cons_self) (by decide)
  unfold readInt
  split
  · exact absurd rfl hn
  · exact absurd rfl (hplus _)
  · exact absurd rfl (hminus _)
  · exact absurd rfl (hplus _)
  · exact absurd rfl (hminus _)
  · exact readUp_digits hd hh

end ManagedCode.Text

namespace ManagedCode.Source

open ManagedCode.Text

private theorem not_hexadecimal {digits : List Char} (hd : ∀ c ∈ digits, c.isDigit = true)
    {c : Char} (hc : c = 'x' ∨ c = 'X') (rest : List Char) : digits ≠ '0' :: c :: rest := by
  rintro rfl
  have hdigit := hd c (by simp)
  rcases hc with rfl | rfl <;> exact absurd hdigit (by decide)

private theorem readInt_signed {digits : List Char} (hd : ∀ c ∈ digits, c.isDigit = true)
    (hn : digits ≠ []) (hh : Nat.ofDigitChars 10 digits 0 < 2 ^ 127) :
    readInt 10 (.signed 128) digits = .ok (Nat.ofDigitChars 10 digits 0) := by
  refine readInt_digits hd hn ?_
  have hhigh : (IntRange.signed 128).high = 2 ^ 127 - 1 := rfl
  rw [hhigh]
  omega

/-- Digits, with or without a minus sign in front, are read as their number. -/
theorem readInteger_digits {digits : List Char} (hd : ∀ c ∈ digits, c.isDigit = true)
    (hn : digits ≠ []) (hh : Nat.ofDigitChars 10 digits 0 < 2 ^ 127) (negative : Bool) :
    readInteger (if negative then '-' :: digits else digits) =
      .ok (if negative then -(Nat.ofDigitChars 10 digits 0 : Int)
        else Nat.ofDigitChars 10 digits 0) := by
  have hread := readInt_signed hd hn hh
  unfold readInteger
  split
  rename_i sign rest hsign
  -- No digit is a minus, so the sign that is split off is the one that was put in front.
  have hsplit : sign = negative ∧ rest = digits := by
    split at hsign
    · rename_i hminus
      cases negative
      · have hmem : '-' ∈ digits := by
          rw [show digits = '-' :: _ from hminus]
          exact List.mem_cons_self
        exact absurd (hd '-' hmem) (by decide)
      · cases hminus
        cases hsign
        exact ⟨rfl, rfl⟩
    · rename_i hminus
      cases negative
      · cases hsign
        exact ⟨rfl, rfl⟩
      · exact absurd rfl (hminus digits)
  obtain ⟨rfl, rfl⟩ := hsplit
  dsimp only
  split
  · rename_i n hvalue
    split at hvalue
    · exact absurd rfl (not_hexadecimal hd (Or.inl rfl) _)
    · exact absurd rfl (not_hexadecimal hd (Or.inr rfl) _)
    · rw [hread] at hvalue
      cases hvalue
      rfl
  · rename_i hvalue
    split at hvalue
    · exact absurd rfl (not_hexadecimal hd (Or.inl rfl) _)
    · exact absurd rfl (not_hexadecimal hd (Or.inr rfl) _)
    · rw [hread] at hvalue
      cases hvalue

/-- A written number below 2 ^ 127 is read back. -/
theorem readInteger_natText {n : Nat} (h : n < 2 ^ 127) :
    readInteger (natText n).toList = .ok n := by
  have hn : Nat.ofDigitChars 10 (Nat.toDigits 10 n) 0 = n := Nat.ofDigitChars_ten_toDigits
  have hread := readInteger_digits (fun _ => isDigit_toDigits) Nat.toDigits_ne_nil
    (by rwa [hn]) false
  rw [hn] at hread
  rwa [natText, String.toList_ofList]

/-- A whole number is read as it was written. -/
theorem readInteger_intText {n : Int} (hlow : -2 ^ 127 < n) (hhigh : n < 2 ^ 127) :
    readInteger (intText n).toList = .ok n := by
  cases n with
  | ofNat n => exact readInteger_natText (Int.ofNat_lt.mp hhigh)
  | negSucc n =>
    have hn : Nat.ofDigitChars 10 (Nat.toDigits 10 (n + 1)) 0 = n + 1 :=
      Nat.ofDigitChars_ten_toDigits
    have hread := readInteger_digits (fun _ => isDigit_toDigits) Nat.toDigits_ne_nil
      (by rw [hn]; omega) true
    have htext : (intText (.negSucc n)).toList = '-' :: Nat.toDigits 10 (n + 1) := by
      simp [intText, natText]
    rw [hn] at hread
    rwa [htext]

/-- A number filled up with zeros is read as it was written. -/
theorem readInteger_paddedText (width : Nat) {n : Nat} (hn : n < 2 ^ 127) :
    readInteger (paddedText width n).toList = .ok n := by
  have hvalue := ofDigitChars_padZeros width n
  have hread := readInteger_digits (fun _ => isDigit_padZeros) (padZeros_ne_nil width n)
    (by rwa [hvalue]) false
  rw [hvalue] at hread
  rwa [paddedText, String.toList_ofList]

/-- A number of the range is read as it was written. -/
theorem readWithin_of_readInteger {range : IntRange} {text : List Char} {n : Int}
    (h : readInteger text = .ok n) (hr : range.low ≤ n ∧ n ≤ range.high) :
    readWithin range text = .ok n := by
  have hcontains : range.contains n = true := IntRange.contains_iff.mpr hr
  rw [readWithin, h]
  simp [bind, Except.bind, hcontains, pure, Except.pure]

end ManagedCode.Source
