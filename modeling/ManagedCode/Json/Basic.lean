/-!
# JSON documents

A document that may break off. Reading a text gives a tree in which every value that was complete
stands in its place, and the place where the text stopped being JSON is marked by how it broke off.
So whoever looks for a certain shape meets what is wrong with the text in the order in which it is
written, whether it is the shape or the text itself.

Who passes over a value asks less of it than who reads it: a number may have any size then, and an
escape may stand for half a character. A value that cannot be read stands in the tree as `flawed`,
with how the text breaks off for whoever passes over it, or that it goes on.
-/

namespace ManagedCode

/-- How a text stops being JSON. -/
inductive JsonBreak where
  /-- It ends too early. -/
  | unexpectedEnd
  /-- It goes on with something else. -/
  | malformed
  deriving DecidableEq, Repr

/-- A number of a document. -/
inductive JsonNumber where
  /-- A whole number without fraction and exponent. Negative zero is none. -/
  | integer (n : Int)
  /-- Any other number of the range of 64-bit floating-point numbers. -/
  | fraction
  deriving DecidableEq, Repr

/-- The key of a member, or how reading it fails. -/
abbrev JsonKey := Except JsonBreak String

/-- A document or the part of one before it breaks off. -/
inductive Json where
  | null
  | bool (b : Bool)
  | number (n : JsonNumber)
  | text (s : String)
  /-- The items of an array, and how it breaks off behind them, if it does. -/
  | array (items : List Json) (ending : Option JsonBreak)
  /-- The members of an object, and how it breaks off behind them, if it does. -/
  | object (members : List (JsonKey × Json)) (ending : Option JsonBreak)
  /-- A value that fails when it is read, and how the text breaks off when it is passed over; if it
  does not, the text goes on behind the value. -/
  | flawed (reading : JsonBreak) (passing : Option JsonBreak)
  deriving Inhabited

/-- Why a document is not what was wanted. -/
inductive JsonError where
  /-- The text is not JSON. -/
  | text (b : JsonBreak)
  /-- The document has another shape. -/
  | shape
  deriving DecidableEq, Repr

/-- The wording of the error. -/
def JsonError.message : JsonError → String
  | .text .unexpectedEnd => "the document ends too early"
  | .text .malformed => "the text is not a document"
  | .shape => "the document has another shape"

namespace Json

/-- An array that is complete. -/
def list (items : List Json) : Json := .array items none

/-- An object that is complete. -/
def record (members : List (String × Json)) : Json :=
  .object (members.map fun (key, value) => (.ok key, value)) none

/-- The members of an object whose keys can be read. -/
def members : Json → List (String × Json)
  | .object members _ => members.filterMap fun (key, value) => key.toOption.map (·, value)
  | _ => []

/-- A natural number. -/
def nat (n : Nat) : Json := .number (.integer n)

mutual

/-- How a value breaks off, if it is only passed over. -/
def break? : Json → Option JsonBreak
  | .flawed _ passing => passing
  | .array items ending => breakItems? items ending
  | .object members ending => breakMembers? members ending
  | _ => none

/-- How the items of an array break off, or the array behind them. -/
def breakItems? : List Json → Option JsonBreak → Option JsonBreak
  | [], ending => ending
  | item :: items, ending =>
    match item.break? with
    | some b => some b
    | none => breakItems? items ending

/-- How the members of an object break off, or the object behind them. -/
def breakMembers? : List (JsonKey × Json) → Option JsonBreak → Option JsonBreak
  | [], ending => ending
  | (_, value) :: members, ending =>
    match value.break? with
    | some b => some b
    | none => breakMembers? members ending

end

end Json

end ManagedCode
