import ManagedCode.Text.Hidden

/-!
# Quoted text

The form in which a message quotes a text that it was given: between double quotes, with the usual
short escapes, and with characters that have no visible form shown by their number in hexadecimal.
-/

namespace ManagedCode.Text

/-- One character as a quoted text shows it. -/
def quotedChar (c : Char) : List Char :=
  match c with
  | '\x00' => ['\\', '0']
  | '\t' => ['\\', 't']
  | '\r' => ['\\', 'r']
  | '\n' => ['\\', 'n']
  | '"' => ['\\', '"']
  | '\\' => ['\\', '\\']
  | c =>
    if isHidden c then ['\\', 'u', '\x7b'] ++ Nat.toDigits 16 c.toNat ++ ['\x7d'] else [c]

/-- A text between double quotes. -/
def quoted (cs : List Char) : List Char :=
  '"' :: cs.flatMap quotedChar ++ ['"']

end ManagedCode.Text
