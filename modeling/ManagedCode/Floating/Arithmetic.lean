import ManagedCode.Floating.Format
import ManagedCode.IntRange

/-!
# Exact operations on floating-point patterns

Narrowing to the 32-bit format, cutting off the fraction, the product, and the remainder of a
division whose quotient is cut off. All four are exact functions of the bit pattern.
-/

namespace ManagedCode.Floating

/-- The 32-bit pattern nearest to a 64-bit one. A pattern that is not a number keeps its sign. -/
def narrow (bits : Nat) : Nat :=
  match binary64.parts bits with
  | .nan => binary32.signBit (bits.testBit 63) + binary32.quietNan
  | number => number.toBits binary32

/-- The whole part of a number, or the nearest number of the range; zero for what is no number. -/
def Parts.truncate (range : IntRange) : Parts → Int
  | .nan => 0
  | .infinite negative => if negative then range.low else range.high
  | .finite negative mantissa exponent =>
    let magnitude : Int := mantissa * Nat.pow 2 exponent.toNat / Nat.pow 2 (-exponent).toNat
    range.clamp (if negative then -magnitude else magnitude)

/-- The product of two numbers; no number if one of them is infinite and the other zero. -/
def Parts.times : Parts → Parts → Parts
  | .nan, _ | _, .nan => .nan
  | .infinite s, .infinite t => .infinite (s != t)
  | .infinite s, .finite t m _ | .finite s m _, .infinite t =>
    if m = 0 then .nan else .infinite (s != t)
  | .finite s m e, .finite t n f => .finite (s != t) (m * n) (e + f)

/-- The remainder of `x` by `y` with the sign of `x`; no number if `x` is infinite or `y` zero. -/
def Parts.remainder : Parts → Parts → Parts
  | .nan, _ | _, .nan | .infinite _, _ => .nan
  | x, .infinite _ => x
  | .finite negative mx ex, .finite _ my ey =>
    if my = 0 then .nan
    else
      let exponent := min ex ey
      let x := mx * Nat.pow 2 (ex - exponent).toNat
      let y := my * Nat.pow 2 (ey - exponent).toNat
      .finite negative (x % y) exponent

end ManagedCode.Floating
