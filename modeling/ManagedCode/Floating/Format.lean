/-!
# Binary floating-point formats

A format gives the widths of the fraction and exponent fields of a bit pattern. `Format.parts` takes
a pattern apart, and `Format.nearest` gives the pattern of the number closest to an exact quotient,
a tie going to the even neighbour. Everything is exact arithmetic on natural numbers.
-/

namespace ManagedCode.Floating

/-- The field widths of a binary interchange format. -/
structure Format where
  /-- Bits of the fraction field. -/
  fractionBits : Nat
  /-- Bits of the exponent field. -/
  exponentBits : Nat
  deriving DecidableEq, Repr

/-- The 64-bit format. -/
def binary64 : Format := ⟨52, 11⟩

/-- The 32-bit format. -/
def binary32 : Format := ⟨23, 8⟩

/-- What a bit pattern stands for. -/
inductive Parts where
  /-- Not a number. -/
  | nan
  /-- An infinity. -/
  | infinite (negative : Bool)
  /-- The number `mantissa * 2 ^ exponent` with a sign, zeros included. -/
  | finite (negative : Bool) (mantissa : Nat) (exponent : Int)
  deriving DecidableEq, Repr

namespace Format

/-- The exponent of the smallest positive number. -/
def minExponent (f : Format) : Int := 2 - Nat.pow 2 (f.exponentBits - 1) - f.fractionBits

/-- The bit pattern of positive infinity. -/
def infinity (f : Format) : Nat := (Nat.pow 2 f.exponentBits - 1) * Nat.pow 2 f.fractionBits

/-- The sign bit alone, if `negative`. -/
def signBit (f : Format) (negative : Bool) : Nat :=
  if negative then Nat.pow 2 (f.exponentBits + f.fractionBits) else 0

/-- The quiet bit pattern that is not a number. -/
def quietNan (f : Format) : Nat := f.infinity + Nat.pow 2 (f.fractionBits - 1)

/-- Takes a bit pattern apart. -/
def parts (f : Format) (bits : Nat) : Parts :=
  let negative := bits.testBit (f.exponentBits + f.fractionBits)
  let field := bits / Nat.pow 2 f.fractionBits % Nat.pow 2 f.exponentBits
  let fraction := bits % Nat.pow 2 f.fractionBits
  if field = Nat.pow 2 f.exponentBits - 1 then
    if fraction = 0 then .infinite negative else .nan
  else if field = 0 then .finite negative fraction f.minExponent
  else .finite negative (Nat.pow 2 f.fractionBits + fraction) (f.minExponent + (field - 1))

end Format

/-- The quotient rounded to the nearest whole number, a half going to the even neighbour. -/
def roundHalfEven (num den : Nat) : Nat :=
  let quotient := num / den
  let rest := num % den
  if 2 * rest < den ∨ (2 * rest = den ∧ quotient % 2 = 0) then quotient else quotient + 1

/-- The greatest `k` with `2 ^ k ≤ num / den`, for positive `num` and `den`. -/
def floorLog2 (num den : Nat) : Int :=
  let k : Int := (num.log2 : Int) - den.log2
  if den * Nat.pow 2 k.toNat ≤ num * Nat.pow 2 (-k).toNat then k else k - 1

/-- The bit pattern nearest to `num / den`, with the given sign. Numbers beyond the greatest finite
one become infinite. -/
def Format.nearest (f : Format) (negative : Bool) (num den : Nat) : Nat :=
  let magnitude :=
    if num = 0 then 0
    else
      let exponent := max f.minExponent (floorLog2 num den - f.fractionBits)
      let mantissa :=
        roundHalfEven (num * Nat.pow 2 (-exponent).toNat) (den * Nat.pow 2 exponent.toNat)
      min f.infinity ((exponent - f.minExponent).toNat * Nat.pow 2 f.fractionBits + mantissa)
  f.signBit negative + magnitude

/-- The bit pattern in format `f` nearest to what `p` stands for. -/
def Parts.toBits (f : Format) : Parts → Nat
  | .nan => f.quietNan
  | .infinite negative => f.signBit negative + f.infinity
  | .finite negative mantissa exponent =>
    f.nearest negative (mantissa * Nat.pow 2 exponent.toNat) (Nat.pow 2 (-exponent).toNat)

end ManagedCode.Floating
