import ManagedCode.Json.Basic
import ManagedCode.Text.Numeral

/-!
# Writing JSON

The layout of written documents: one item or member a line, two blanks of indent a level, empty
arrays and objects on one line. In strings the quote, the backslash and the controls are escaped,
everything else stands for itself.
-/

namespace ManagedCode.Json

/-- One character inside a string. -/
def writeChar (c : Char) : List Char :=
  match c with
  | '"' => ['\\', '"']
  | '\\' => ['\\', '\\']
  | '\x08' => ['\\', 'b']
  | '\x0c' => ['\\', 'f']
  | '\n' => ['\\', 'n']
  | '\r' => ['\\', 'r']
  | '\t' => ['\\', 't']
  | c =>
    if c.toNat < 0x20 then ['\\', 'u'] ++ Text.padZeros 4 (Nat.toDigits 16 c.toNat) else [c]

/-- A string. -/
def writeString (s : String) : List Char := '"' :: s.toList.flatMap writeChar ++ ['"']

/-- A line break and the indent of a level. -/
def lineBreak (level : Nat) : List Char := '\n' :: List.replicate (2 * level) ' '

mutual

/-- A document at a level of indent. What is not JSON is written as null. -/
def write (level : Nat) : Json → List Char
  | .null | .flawed .. => ['n', 'u', 'l', 'l']
  | .bool b => if b then ['t', 'r', 'u', 'e'] else ['f', 'a', 'l', 's', 'e']
  | .number (.integer n) => (Text.intText n).toList
  | .number .fraction => ['n', 'u', 'l', 'l']
  | .text s => writeString s
  | .array [] _ => ['[', ']']
  | .array (item :: items) _ =>
    '[' :: lineBreak (level + 1) ++ write (level + 1) item ++ writeItems level items
  | .object [] _ => ['\x7b', '\x7d']
  | .object ((key, value) :: members) _ =>
    '\x7b' :: lineBreak (level + 1) ++ writeString (key.toOption.getD "") ++ [':', ' '] ++
      write (level + 1) value ++ writeMembers level members

/-- The items of an array behind the first one. -/
def writeItems (level : Nat) : List Json → List Char
  | [] => lineBreak level ++ [']']
  | item :: items =>
    ',' :: lineBreak (level + 1) ++ write (level + 1) item ++ writeItems level items

/-- The members of an object behind the first one. -/
def writeMembers (level : Nat) : List (JsonKey × Json) → List Char
  | [] => lineBreak level ++ ['\x7d']
  | (key, value) :: members =>
    ',' :: lineBreak (level + 1) ++ writeString (key.toOption.getD "") ++ [':', ' '] ++
      write (level + 1) value ++ writeMembers level members

end

/-- The text of a document. -/
def render (doc : Json) : String := String.ofList (write 0 doc)

end ManagedCode.Json
