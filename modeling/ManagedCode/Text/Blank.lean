/-!
# Blank characters

The characters with the Unicode property `White_Space`, and the two things the text formats do with
them: cutting them off the ends of a text and dividing a text at one of them. All functions work on
the list of characters of a text.
-/

namespace ManagedCode.Text

/-- The code points with the property `White_Space`, as inclusive ranges in ascending order. -/
def blankRanges : List (Nat × Nat) :=
  [(0x09, 0x0D), (0x20, 0x20), (0x85, 0x85), (0xA0, 0xA0), (0x1680, 0x1680), (0x2000, 0x200A),
    (0x2028, 0x2029), (0x202F, 0x202F), (0x205F, 0x205F), (0x3000, 0x3000)]

/-- Whether `c` is white space. -/
def isBlank (c : Char) : Bool :=
  blankRanges.any fun (low, high) => low ≤ c.toNat && c.toNat ≤ high

/-- Drops the characters at the end that satisfy `p`. -/
def dropEndWhile (p : Char → Bool) (cs : List Char) : List Char :=
  (cs.reverse.dropWhile p).reverse

/-- Drops the blanks at both ends. -/
def trim (cs : List Char) : List Char :=
  dropEndWhile isBlank (cs.dropWhile isBlank)

/-- The parts before and after the first character that satisfies `p`. -/
def splitFirst? (p : Char → Bool) : List Char → Option (List Char × List Char)
  | [] => none
  | c :: cs =>
    if p c then some ([], cs)
    else (splitFirst? p cs).map fun (before, after) => (c :: before, after)

/-- The parts before and after the last character that satisfies `p`. -/
def splitLast? (p : Char → Bool) (cs : List Char) : Option (List Char × List Char) :=
  (splitFirst? p cs.reverse).map fun (after, before) => (before.reverse, after.reverse)

/-- The pieces between the characters that satisfy `p`, empty pieces included. -/
def splitAll (p : Char → Bool) : List Char → List (List Char)
  | [] => [[]]
  | c :: cs =>
    if p c then [] :: splitAll p cs
    else
      match splitAll p cs with
      | [] => [[c]]
      | piece :: pieces => (c :: piece) :: pieces

/-- The text without `front`, if it starts with it. -/
def dropFront? (front : List Char) (cs : List Char) : Option (List Char) :=
  if front.isPrefixOf cs then some (cs.drop front.length) else none

end ManagedCode.Text
