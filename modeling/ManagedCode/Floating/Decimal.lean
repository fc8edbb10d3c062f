import ManagedCode.Floating.Format
import ManagedCode.Text.Numeral

/-!
# Shortest decimal text of a floating-point number

A finite number is written with the fewest significant digits that read back as the same number.
For each digit count the two decimals next to the number are tried; the first count with a decimal
inside the interval of reals that round to the number wins, of two such decimals the nearer, and of
two equally near the greater. The digits are then laid out positionally, whatever the magnitude.
-/

namespace ManagedCode.Floating

/-- A decimal number `digits * 10 ^ exponent`. -/
structure Decimal where
  /-- The significant digits as one number. -/
  digits : Nat
  /-- The power of ten. -/
  exponent : Int
  deriving DecidableEq, Repr

/-- The greatest `k` with `10 ^ k ≤ num / den`, for positive `num` and `den`. -/
def floorLog10 (num den : Nat) : Int :=
  let k : Int := (Text.digitCount num : Int) - Text.digitCount den
  if den * Nat.pow 10 k.toNat ≤ num * Nat.pow 10 (-k).toNat then k else k - 1

/-- The reals that round to a number, all over one denominator. -/
structure Neighbourhood where
  /-- The lower end. -/
  low : Nat
  /-- The number itself. -/
  value : Nat
  /-- The upper end. -/
  high : Nat
  /-- The common denominator. -/
  den : Nat
  /-- Whether the ends belong to the interval. -/
  closed : Bool

/-- The reals that round to `mantissa * 2 ^ exponent`. The gap below a power of two is half the gap
above it, except at the least exponent. -/
def Format.neighbourhood (f : Format) (mantissa : Nat) (exponent : Int) : Neighbourhood :=
  let scale := Nat.pow 2 exponent.toNat
  let below := if mantissa = Nat.pow 2 f.fractionBits ∧ f.minExponent < exponent then 1 else 2
  { low := (4 * mantissa - below) * scale
    value := 4 * mantissa * scale
    high := (4 * mantissa + 2) * scale
    den := 4 * Nat.pow 2 (-exponent).toNat
    closed := mantissa % 2 = 0 }

/-- Whether `digits * 10 ^ exponent` lies in the interval. -/
def Neighbourhood.contains (n : Neighbourhood) (digits : Nat) (exponent : Int) : Bool :=
  let scaled := digits * Nat.pow 10 exponent.toNat * n.den
  let unit := Nat.pow 10 (-exponent).toNat
  let low := n.low * unit
  let high := n.high * unit
  if n.closed then low ≤ scaled && scaled ≤ high else low < scaled && scaled < high

/-- The decimal on the grid of step `10 ^ exponent` that the interval offers, if any. -/
def Neighbourhood.onGrid? (n : Neighbourhood) (exponent : Int) : Option Decimal :=
  let num := n.value * Nat.pow 10 (-exponent).toNat
  let den := n.den * Nat.pow 10 exponent.toNat
  let floor := num / den
  let below := n.contains floor exponent
  let above := n.contains (floor + 1) exponent
  if above && (!below || den ≤ 2 * (num % den)) then some ⟨floor + 1, exponent⟩
  else if below then some ⟨floor, exponent⟩
  else none

/-- Tries the digit counts from `count` on. -/
def Neighbourhood.search (n : Neighbourhood) (top : Int) : (count fuel : Nat) → Option Decimal
  | _, 0 => none
  | count, fuel + 1 =>
    match n.onGrid? (top + 1 - count) with
    | some decimal => some decimal
    | none => n.search top (count + 1) fuel

/-- The shortest decimal that rounds to `mantissa * 2 ^ exponent`, for a positive mantissa.
Seventeen digits always suffice. -/
def Format.shortest (f : Format) (mantissa : Nat) (exponent : Int) : Decimal :=
  let n := f.neighbourhood mantissa exponent
  (n.search (floorLog10 n.value n.den) 1 17).getD ⟨0, 0⟩

/-- A positive decimal without an exponent, and without zeros at the end of its fraction. -/
def Decimal.positional (d : Decimal) : List Char :=
  let digits := Nat.toDigits 10 d.digits
  if 0 ≤ d.exponent then digits ++ List.replicate d.exponent.toNat '0'
  else
    let places := (-d.exponent).toNat
    let filled := Text.padZeros (places + 1) digits
    let whole := filled.take (filled.length - places)
    let fraction := (filled.drop (filled.length - places)).reverse.dropWhile (· == '0')
    if fraction.isEmpty then whole else whole ++ '.' :: fraction.reverse

/-- The text of a bit pattern. -/
def Format.text (f : Format) (bits : Nat) : String :=
  let signed (negative : Bool) (text : List Char) :=
    String.ofList (if negative then '-' :: text else text)
  match f.parts bits with
  | .nan => "NaN"
  | .infinite negative => signed negative ['i', 'n', 'f']
  | .finite negative 0 _ => signed negative ['0']
  | .finite negative mantissa exponent =>
    signed negative (f.shortest mantissa exponent).positional

end ManagedCode.Floating
