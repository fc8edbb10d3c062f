import ManagedCode.Text.Blank

/-!
# Lines

A line ends at a line feed, and a carriage return right before that line feed belongs to the line
end. Text behind the last line feed is a line of its own if it is not empty, and there a carriage
return at the end stays.
-/

namespace ManagedCode.Text

/-- The line without the carriage return that belongs to its line end. -/
def dropReturn (line : List Char) : List Char :=
  match line.reverse with
  | '\r' :: rest => rest.reverse
  | _ => line

/-- The lines of a text. -/
def lines (cs : List Char) : List (List Char) :=
  let pieces := splitAll (· == '\n') cs
  let ended := pieces.dropLast.map dropReturn
  match pieces.getLast? with
  | none | some [] => ended
  | some rest => ended ++ [rest]

end ManagedCode.Text
