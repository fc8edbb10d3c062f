import ManagedCode.Json.Basic
import ManagedCode.Text.Numeral

/-!
# The content of JSON strings

A string is read by `readContent`, which wants every escape to stand for a character, alone or with
the escape behind it, and passed over by `passContent`, which takes any four hexadecimal digits.
`readQuoted` reads a string and finds out where the text goes on if that fails.
-/

namespace ManagedCode.Json

/-- The character behind a backslash, for the one-character escapes. -/
def shortEscape? : Char → Option Char
  | '"' => some '"'
  | '\\' => some '\\'
  | '/' => some '/'
  | 'b' => some '\x08'
  | 'f' => some '\x0c'
  | 'n' => some '\n'
  | 'r' => some '\r'
  | 't' => some '\t'
  | _ => none

/-- The number of four hexadecimal digits. -/
def hexUnit? (a b c d : Char) : Option Nat := do
  let digits ← [a, b, c, d].mapM (Text.digit? 16)
  return digits.foldl (fun n digit => n * 16 + digit) 0

/-- Whether a 16-bit unit is the first half of a character. -/
def isLeading (n : Nat) : Bool := 0xD800 ≤ n && n ≤ 0xDBFF

/-- Whether a 16-bit unit is the second half of a character. -/
def isTrailing (n : Nat) : Bool := 0xDC00 ≤ n && n ≤ 0xDFFF

/-- The character of two halves. -/
def joinHalves (leading trailing : Nat) : Char :=
  Char.ofNat (0x10000 + (leading - 0xD800) * 0x400 + (trailing - 0xDC00))

/-- Whether a character has to be escaped in a string. -/
def isControl (c : Char) : Bool := c.toNat < 0x20

/-- How a text breaks off where fewer than four characters are left for the digits of an escape. The
digits take four bytes, and they are not looked at before the bytes are there. -/
def breakAtDigits (cs : List Char) : JsonBreak :=
  if cs.foldl (fun bytes c => bytes + c.utf8Size) 0 < 4 then .unexpectedEnd else .malformed

/-- How a text breaks off behind the first half of a character, where no escape with four characters
for its digits follows. -/
def breakAtHalf : List Char → JsonBreak
  | [] => .unexpectedEnd
  | ['\\'] => .unexpectedEnd
  | '\\' :: 'u' :: cs => breakAtDigits cs
  | _ => .malformed

/-- Reads the content of a string behind the characters in `done`, the last one first. Gives all
characters and the text behind the closing quote. -/
def readContent (done : List Char) : List Char → Except JsonBreak (List Char × List Char)
  | [] => .error .unexpectedEnd
  | '"' :: cs => .ok (done.reverse, cs)
  | '\\' :: 'u' :: a :: b :: c :: d :: cs =>
    match hexUnit? a b c d with
    | none => .error .malformed
    | some n =>
      if isTrailing n then .error .malformed
      else if isLeading n then
        match cs with
        | '\\' :: 'u' :: a :: b :: c :: d :: cs =>
          match hexUnit? a b c d with
          | none => .error .malformed
          | some m =>
            if isTrailing m then readContent (joinHalves n m :: done) cs else .error .malformed
        | cs => .error (breakAtHalf cs)
      else readContent (Char.ofNat n :: done) cs
  | '\\' :: 'u' :: cs => .error (breakAtDigits cs)
  | ['\\'] => .error .unexpectedEnd
  | '\\' :: sign :: cs =>
    match shortEscape? sign with
    | none => .error .malformed
    | some c => readContent (c :: done) cs
  | c :: cs => if isControl c then .error .malformed else readContent (c :: done) cs

/-- Passes over the content of a string. Gives the text behind the closing quote. -/
def passContent : List Char → Except JsonBreak (List Char)
  | [] => .error .unexpectedEnd
  | '"' :: cs => .ok cs
  | '\\' :: 'u' :: a :: b :: c :: d :: cs =>
    if (hexUnit? a b c d).isSome then passContent cs else .error .malformed
  | '\\' :: 'u' :: cs => .error (breakAtDigits cs)
  | ['\\'] => .error .unexpectedEnd
  | '\\' :: sign :: cs => if (shortEscape? sign).isSome then passContent cs else .error .malformed
  | c :: cs => if isControl c then .error .malformed else passContent cs

/-- What stands behind an opening quote. -/
inductive Quoted where
  /-- A string, and the text behind it. -/
  | text (s : String) (rest : List Char)
  /-- How reading a string fails, and what passing over it gives. -/
  | flawed (reading : JsonBreak) (passing : Except JsonBreak (List Char))

/-- Reads a string behind its opening quote. -/
def readQuoted (cs : List Char) : Quoted :=
  match readContent [] cs with
  | .ok (s, rest) => .text (String.ofList s) rest
  | .error b => .flawed b (passContent cs)

end ManagedCode.Json
