import ManagedCode.IntRange

/-!
# Numerals

Reading and writing whole numbers as text. A numeral is an optional sign and at least one digit. A
reader is given the range of the numbers it may return; a minus sign is a sign only where
negative numbers are allowed. Digits are read from the left, and the first character at which
something is wrong decides the error.
-/

namespace ManagedCode.Text

/-- Why a text is no numeral of the wanted range. -/
inductive NumeralError where
  /-- There is no character at all. -/
  | empty
  /-- A character is not a digit, or there is only a sign. -/
  | invalidDigit
  /-- The number is above the range. -/
  | tooLarge
  /-- The number is below the range. -/
  | tooSmall
  deriving DecidableEq, Repr

/-- The wording of the error. -/
def NumeralError.message : NumeralError → String
  | .empty => "cannot parse integer from empty string"
  | .invalidDigit => "invalid digit found in string"
  | .tooLarge => "number too large to fit in target type"
  | .tooSmall => "number too small to fit in target type"

/-- The value of a digit; letters count from ten on, in either case. -/
def digit? (radix : Nat) (c : Char) : Option Nat :=
  let value? :=
    if '0' ≤ c ∧ c ≤ '9' then some (c.toNat - '0'.toNat)
    else if 'a' ≤ c ∧ c ≤ 'z' then some (c.toNat - 'a'.toNat + 10)
    else if 'A' ≤ c ∧ c ≤ 'Z' then some (c.toNat - 'A'.toNat + 10)
    else none
  value?.filter (· < radix)

/-- Reads digits behind a non-negative number, up to `high`. -/
def readUp (radix : Nat) (high : Int) (acc : Int) : List Char → Except NumeralError Int
  | [] => .ok acc
  | c :: cs =>
    match digit? radix c with
    | none => .error .invalidDigit
    | some d =>
      let next := acc * radix + d
      if next ≤ high then readUp radix high next cs else .error .tooLarge

/-- Reads digits behind a negative number, down to `low`. -/
def readDown (radix : Nat) (low : Int) (acc : Int) : List Char → Except NumeralError Int
  | [] => .ok acc
  | c :: cs =>
    match digit? radix c with
    | none => .error .invalidDigit
    | some d =>
      let next := acc * radix - d
      if low ≤ next then readDown radix low next cs else .error .tooSmall

/-- Reads a numeral of a range that contains zero. -/
def readInt (radix : Nat) (range : IntRange) : List Char → Except NumeralError Int
  | [] => .error .empty
  | ['+'] | ['-'] => .error .invalidDigit
  | '+' :: digits => readUp radix range.high 0 digits
  | '-' :: digits =>
    if range.low < 0 then readDown radix range.low 0 digits else .error .invalidDigit
  | digits => readUp radix range.high 0 digits

/-- Reads a numeral that fits into a word of `bits` bits. -/
def readNat? (radix bits : Nat) (cs : List Char) : Option Nat :=
  match readInt radix (.unsigned bits) cs with
  | .ok n => some n.toNat
  | .error _ => none

/-- Digits filled up with zeros at the front to `width`. -/
def padZeros (width : Nat) (digits : List Char) : List Char :=
  List.replicate (width - digits.length) '0' ++ digits

/-- A natural number in decimal with at least `width` digits. -/
def paddedText (width n : Nat) : String := String.ofList (padZeros width (Nat.toDigits 10 n))

/-- A natural number in upper-case hexadecimal with at least `width` digits. -/
def hexText (width n : Nat) : String :=
  String.ofList (padZeros width ((Nat.toDigits 16 n).map Char.toUpper))

/-- The number of decimal digits of `n`. -/
def digitCount (n : Nat) : Nat := (Nat.toDigits 10 n).length

/-- A natural number in decimal. -/
def natText (n : Nat) : String := String.ofList (Nat.toDigits 10 n)

/-- A whole number in decimal. -/
def intText : Int → String
  | .ofNat n => natText n
  | .negSucc n => "-" ++ natText (n + 1)

end ManagedCode.Text
