import ManagedCode.Json.Content
import ManagedCode.Json.Numeral

/-!
# Reading JSON

A reader for the characters of a document. Each part returns what it read and the characters behind
it, or no characters if the text broke off.
-/

namespace ManagedCode.Json

/-- Whether a character may stand between the parts of a document. -/
def isSpace (c : Char) : Bool := c == ' ' || c == '\n' || c == '\t' || c == '\r'

/-- The text without the space at its front. -/
def skipSpace (cs : List Char) : List Char := cs.dropWhile isSpace

/-! ## Words, strings and numbers -/

/-- Reads the rest of a word. -/
def readWord : (word : List Char) → List Char → Except JsonBreak (List Char)
  | [], cs => .ok cs
  | _ :: _, [] => .error .unexpectedEnd
  | w :: word, c :: cs => if w = c then readWord word cs else .error .malformed

/-- Reads the rest of a word that stands for a value. -/
def readConstant (value : Json) (word : String) (cs : List Char) : Json × Option (List Char) :=
  match readWord word.toList cs with
  | .ok rest => (value, some rest)
  | .error b => (.flawed b (some b), none)

/-- Reads a string behind its opening quote. -/
def readString (cs : List Char) : Json × Option (List Char) :=
  match readQuoted cs with
  | .text s rest => (.text s, some rest)
  | .flawed b (.ok rest) => (.flawed b none, some rest)
  | .flawed b (.error passing) => (.flawed b (some passing), none)

/-- Reads a number. To pass over digits that are missing is never to meet the end of the text. -/
def readNumber (cs : List Char) : Json × Option (List Char) :=
  match readNumeral cs with
  | .ok (n, rest) =>
    if n.isInRange then (.number n.number, some rest) else (.flawed .malformed none, some rest)
  | .error b => (.flawed b (some .malformed), none)

/-- Reads a value that is neither an array nor an object. -/
def readScalar (cs : List Char) : Json × Option (List Char) :=
  match cs with
  | [] => (.flawed .unexpectedEnd (some .unexpectedEnd), none)
  | '"' :: cs => readString cs
  | 'n' :: cs => readConstant .null "ull" cs
  | 't' :: cs => readConstant (.bool true) "rue" cs
  | 'f' :: cs => readConstant (.bool false) "alse" cs
  | c :: _ =>
    if c = '-' ∨ c.isDigit then readNumber cs
    else (.flawed .malformed (some .malformed), none)

/-! ## Arrays and objects -/

/-- How a text breaks off where something else was expected. -/
def breakAt : List Char → JsonBreak
  | [] => .unexpectedEnd
  | _ :: _ => .malformed

mutual

/-- Reads a value, at most `rounds` parts deep and long. -/
def readValue : (rounds : Nat) → List Char → Json × Option (List Char)
  | 0, _ => (.flawed .malformed (some .malformed), none)
  | rounds + 1, cs =>
    match skipSpace cs with
    | '[' :: cs =>
      match skipSpace cs with
      | ']' :: cs => (.array [] none, some cs)
      | cs =>
        let (items, ending, rest) := readItems rounds cs
        (.array items ending, rest)
    | '{' :: cs =>
      match skipSpace cs with
      | '}' :: cs => (.object [] none, some cs)
      | cs =>
        let (members, ending, rest) := readMembers rounds cs
        (.object members ending, rest)
    | cs => readScalar cs

/-- Reads the items of an array from an item on. Where an item is missing it breaks off. -/
def readItems : (rounds : Nat) → List Char → List Json × Option JsonBreak × Option (List Char)
  | 0, _ => ([], some .malformed, none)
  | rounds + 1, cs =>
    match readValue rounds cs with
    | (item, none) => ([item], none, none)
    | (item, some rest) =>
      match skipSpace rest with
      | ']' :: rest => ([item], none, some rest)
      | ',' :: rest =>
        let (items, ending, rest) := readItems rounds rest
        (item :: items, ending, rest)
      | rest => ([item], some (breakAt rest), none)

/-- Reads the members of an object from a key on. -/
def readMembers : (rounds : Nat) → List Char →
    List (JsonKey × Json) × Option JsonBreak × Option (List Char)
  | 0, _ => ([], some .malformed, none)
  | rounds + 1, cs =>
    match skipSpace cs with
    | '"' :: cs =>
      match readQuoted cs with
      | .text key rest => readMember rounds (.ok key) rest
      | .flawed b (.ok rest) => readMember rounds (.error b) rest
      | .flawed b (.error passing) => ([(.error b, .flawed b (some passing))], none, none)
    | rest => ([], some (breakAt rest), none)

/-- Reads a member behind its key, and the members behind it. -/
def readMember : (rounds : Nat) → JsonKey → List Char →
    List (JsonKey × Json) × Option JsonBreak × Option (List Char)
  | 0, _, _ => ([], some .malformed, none)
  | rounds + 1, key, cs =>
    match skipSpace cs with
    | ':' :: rest =>
      match readValue rounds rest with
      | (value, none) => ([(key, value)], none, none)
      | (value, some rest) =>
        match skipSpace rest with
        | '}' :: rest => ([(key, value)], none, some rest)
        | ',' :: rest =>
          let (members, ending, rest) := readMembers rounds rest
          ((key, value) :: members, ending, rest)
        | rest => ([(key, value)], some (breakAt rest), none)
    | rest => ([(key, .flawed (breakAt rest) (some (breakAt rest)))], none, none)

end

/-- Reads a document. The second part says whether anything but space follows it. -/
def read (cs : List Char) : Json × Bool :=
  match readValue (2 * cs.length + 1) cs with
  | (value, none) => (value, false)
  | (value, some rest) => (value, !(skipSpace rest).isEmpty)

end ManagedCode.Json
