import ManagedCode.Floating.Arithmetic
import ManagedCode.Floating.Numeral
import ManagedCode.Json.Basic

/-!
# JSON numerals

A numeral has an optional sign, digits without needless zeros in front, and optionally a fraction
and a power of ten. One that is read has to be in the range of 64-bit floating-point numbers, where
only as many of its digits count as fit into 64 bits.
-/

namespace ManagedCode.Json

/-- A number as it is written. -/
structure Numeral where
  /-- Whether a minus sign stands in front. -/
  negative : Bool
  /-- The digits before the point. -/
  whole : List Char
  /-- The digits behind the point, if there is one. -/
  fraction : Option (List Char)
  /-- The power of ten, if there is one. -/
  power : Option Int
  deriving DecidableEq, Repr

/-! ## Reading -/

/-- At least one digit. -/
def readDigits (cs : List Char) : Except JsonBreak (List Char × List Char) :=
  match Floating.takeDigits cs with
  | ([], []) => .error .unexpectedEnd
  | ([], _) => .error .malformed
  | (digits, rest) => .ok (digits, rest)

/-- The digits before the point: a zero stands alone. -/
def readWhole (cs : List Char) : Except JsonBreak (List Char × List Char) := do
  let (digits, rest) ← readDigits cs
  if digits.head? = some '0' ∧ 1 < digits.length then throw .malformed
  return (digits, rest)

/-- The digits behind a point, if there is one. -/
def readFraction : List Char → Except JsonBreak (Option (List Char) × List Char)
  | '.' :: cs => do
    let (digits, rest) ← readDigits cs
    return (some digits, rest)
  | cs => .ok (none, cs)

/-- The power of ten, if there is one. -/
def readPower (cs : List Char) : Except JsonBreak (Option Int × List Char) :=
  match cs with
  | c :: rest =>
    if c = 'e' ∨ c = 'E' then do
      let (negative, rest) :=
        match rest with
        | '-' :: rest => (true, rest)
        | '+' :: rest => (false, rest)
        | rest => (false, rest)
      let (digits, rest) ← readDigits rest
      let power : Int := Floating.digitsValue digits
      return (some (if negative then -power else power), rest)
    else .ok (none, cs)
  | [] => .ok (none, cs)

/-- Reads a numeral. -/
def readNumeral (cs : List Char) : Except JsonBreak (Numeral × List Char) := do
  let (negative, cs) :=
    match cs with
    | '-' :: cs => (true, cs)
    | cs => (false, cs)
  let (whole, cs) ← readWhole cs
  let (fraction, cs) ← readFraction cs
  let (power, cs) ← readPower cs
  return (⟨negative, whole, fraction, power⟩, cs)

/-! ## The number -/

/-- Puts digits behind a number of which `count` digits were put already, as long as the number fits
into 64 bits. Gives the number and how many digits were put. -/
def putDigits (number count : Nat) : List Char → Nat × Nat
  | [] => (number, count)
  | c :: cs =>
    let longer := number * 10 + (c.toNat - '0'.toNat)
    if longer < 0x10000000000000000 then putDigits longer (count + 1) cs else (number, count)

namespace Numeral

/-- The digits that fit into 64 bits, as a number, and the power of ten that they are multiplied by.
Digits before the point that do not fit count as zeros, those behind it not at all. -/
def scaled (n : Numeral) : Nat × Int :=
  let (significand, wholeCount) := putDigits 0 0 n.whole
  let (significand, fractionCount) := putDigits significand 0 (n.fraction.getD [])
  (significand, n.power.getD 0 + (n.whole.length - wholeCount : Nat) - fractionCount)

/-- Whether the number is in the range of 64-bit floating-point numbers. A power of ten that is no
fraction has to be in the range itself, and so has the product with it. -/
def isInRange (n : Numeral) : Bool :=
  let (significand, power) := n.scaled
  let nearest (m : Nat) : Floating.Parts :=
    Floating.binary64.parts (Floating.binary64.nearest false m 1)
  significand = 0 || power < 0 || (power ≤ 308 &&
    ((nearest significand).times (nearest (Nat.pow 10 power.toNat))).toBits Floating.binary64 ≠
      Floating.binary64.infinity)

/-- The number that is written. -/
def number (n : Numeral) : JsonNumber :=
  let digits := Floating.digitsValue n.whole
  if n.fraction.isSome || n.power.isSome || (n.negative && digits = 0) then .fraction
  else .integer (if n.negative then -(digits : Int) else digits)

end Numeral

end ManagedCode.Json
