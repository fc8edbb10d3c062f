/-!
# String literals of listings

Six characters are written as a backslash and a letter or sign; every other character stands for
itself. `escape` writes a text in that form and `unescape` reads it back, so that reading what was
written gives the text again.
-/

namespace ManagedCode.Text

/-- The sign behind the backslash for a character that is escaped. -/
def escapeSign? : Char → Option Char
  | '\r' => some 'r'
  | '\n' => some 'n'
  | '\t' => some 't'
  | '\x00' => some '0'
  | '"' => some '"'
  | '\\' => some '\\'
  | _ => none

/-- The character that a sign behind a backslash stands for. -/
def unescapeSign? : Char → Option Char
  | 'r' => some '\r'
  | 'n' => some '\n'
  | 't' => some '\t'
  | '0' => some '\x00'
  | '"' => some '"'
  | '\\' => some '\\'
  | _ => none

/-- The inside of the literal of a text. -/
def escape : List Char → List Char
  | [] => []
  | c :: cs =>
    match escapeSign? c with
    | some sign => '\\' :: sign :: escape cs
    | none => c :: escape cs

/-- Reads the inside of a literal. The error is the sign behind a backslash that stands for no
character, a blank at the end of the literal. -/
def unescape : List Char → Except Char (List Char)
  | [] => .ok []
  | '\\' :: [] => .error ' '
  | '\\' :: sign :: cs =>
    match unescapeSign? sign with
    | some c => (unescape cs).map (c :: ·)
    | none => .error sign
  | c :: cs => (unescape cs).map (c :: ·)

end ManagedCode.Text
