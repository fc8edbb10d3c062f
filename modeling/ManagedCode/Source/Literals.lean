import ManagedCode.Token.Map

/-!
# The string table of an assembly run

String literals get consecutive tokens in the order in which they are first met, and equal literals
share a token. An assembler keeps the table as a map from tokens and the token that comes next. The
literals alone decide both: the token of a literal is its place, so the table is the list of the
distinct literals.
-/

namespace ManagedCode.Source

/-- The distinct literals met so far, the first one first. -/
structure Literals where
  /-- The literals. -/
  texts : List String
  deriving DecidableEq, Repr

namespace Literals

/-- The table without literals. -/
def empty : Literals := ⟨[]⟩

/-- The token of the first literal. -/
def firstToken : Nat := 0x70000001

/-- The token of the literal at a position. -/
def tokenAt (position : Nat) : Token := ⟨(firstToken + position).toUInt32⟩

/-- The token of a literal, and the table that has it. -/
def intern (literals : Literals) (text : String) : Token × Literals :=
  match literals.texts.findIdx? (· == text) with
  | some position => (tokenAt position, literals)
  | none => (tokenAt literals.texts.length, ⟨literals.texts ++ [text]⟩)

/-- The table as a map. -/
def toMap (literals : Literals) : TokenMap String :=
  TokenMap.ofList (literals.texts.mapIdx fun position text => (tokenAt position, text))

end Literals

/-- The string table as an assembler keeps it. -/
structure StringTable where
  /-- The texts of the tokens that were given out. -/
  strings : TokenMap String
  /-- The token that the next new literal gets. -/
  next : Token
  deriving DecidableEq

namespace StringTable

/-- The table without literals. -/
def empty : StringTable := ⟨.empty, Literals.tokenAt 0⟩

/-- The token of a literal, and the table that has it. The tokens are searched in ascending order,
and the number of the next token wraps around. -/
def intern (table : StringTable) (text : String) : Token × StringTable :=
  match table.strings.entries.find? fun entry => entry.2 == text with
  | some entry => (entry.1, table)
  | none => (table.next, ⟨table.strings.insert table.next text, ⟨table.next.value + 1⟩⟩)

end StringTable

/-- The table as an assembler keeps it. -/
def Literals.toTable (literals : Literals) : StringTable :=
  ⟨literals.toMap, tokenAt literals.texts.length⟩

end ManagedCode.Source
