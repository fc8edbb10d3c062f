import ManagedCode.Floating.Format
import ManagedCode.Text.Numeral

/-!
# Reading floating-point numerals

A numeral is an optional sign and either one of the words `inf`, `infinity` and `nan` in any case,
or digits with at most one point among or around them and an optional exponent. The result is the
64-bit pattern nearest to the number that is written.
-/

namespace ManagedCode.Floating

/-- The digits at the front of a text, as characters, and what follows them. -/
def takeDigits (cs : List Char) : List Char × List Char := cs.span Char.isDigit

/-- The number that decimal digits stand for. -/
def digitsValue (cs : List Char) : Nat := cs.foldl (fun n c => n * 10 + (c.toNat - '0'.toNat)) 0

/-- The exponent at the end of a numeral; nothing at all stands for zero. -/
def readExponent? : List Char → Option Int
  | [] => some 0
  | c :: cs =>
    if c = 'e' ∨ c = 'E' then
      let (negative, digits) :=
        match cs with
        | '-' :: digits => (true, digits)
        | '+' :: digits => (false, digits)
        | digits => (false, digits)
      if digits.isEmpty || !digits.all Char.isDigit then none
      else some (if negative then -(digitsValue digits : Int) else digitsValue digits)
    else none

/-- The pattern nearest to `digits * 10 ^ exponent`. A number of more than 400 digits before the
point is beyond the format, and one with more than 400 zeros behind it rounds to zero. -/
def ofDecimal (negative : Bool) (digits : Nat) (exponent : Int) : Nat :=
  let magnitude := Text.digitCount digits + exponent
  if digits = 0 ∨ magnitude < -400 then binary64.signBit negative
  else if 400 < magnitude then binary64.signBit negative + binary64.infinity
  else binary64.nearest negative (digits * Nat.pow 10 exponent.toNat) (Nat.pow 10 (-exponent).toNat)

/-- Reads an unsigned numeral. -/
def readMagnitude? (negative : Bool) (cs : List Char) : Option Nat :=
  let lower := cs.map Char.toLower
  if lower = "inf".toList ∨ lower = "infinity".toList then
    some (binary64.signBit negative + binary64.infinity)
  else if lower = "nan".toList then some (binary64.signBit negative + binary64.quietNan)
  else
    let (whole, rest) := takeDigits cs
    let (fraction, rest) :=
      match rest with
      | '.' :: rest => takeDigits rest
      | rest => ([], rest)
    let digits := whole ++ fraction
    if digits.isEmpty then none
    else (readExponent? rest).map fun exponent =>
      ofDecimal negative (digitsValue digits) (exponent - fraction.length)

/-- Reads a numeral as a 64-bit pattern. -/
def read? : List Char → Option Nat
  | '-' :: cs => readMagnitude? true cs
  | '+' :: cs => readMagnitude? false cs
  | cs => readMagnitude? false cs

end ManagedCode.Floating
