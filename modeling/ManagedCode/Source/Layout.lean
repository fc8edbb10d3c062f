import ManagedCode.Opcode.Encoding
import ManagedCode.Source.Error
import ManagedCode.Text.Lines

/-!
# The layout of source text

A line holds any number of labels, then at most one statement, then at most one comment. The layout
of a source is its statements with the byte offsets at which they will start, and the offsets of its
labels. It depends on the mnemonics and on the lengths of switch tables only, so it is known before
any operand is read.
-/

namespace ManagedCode.Source

/-- The line without its comment. A comment starts at two slashes outside a string literal. -/
def stripComment (inString escaped : Bool) : List Char → List Char
  | [] => []
  | c :: cs =>
    if escaped then c :: stripComment inString false cs
    else if c = '\\' ∧ inString then c :: stripComment inString true cs
    else if c = '"' then c :: stripComment (!inString) false cs
    else if c = '/' ∧ !inString ∧ cs.head? = some '/' then []
    else c :: stripComment inString false cs

/-- Whether a label may start with the character. -/
def isLabelStart (c : Char) : Bool := c.isAlpha || c == '_'

/-- Whether a label may go on with the character. -/
def isLabelChar (c : Char) : Bool := c.isAlphanum || c == '_' || c == '$'

/-- The label at the front of a text, and the text behind its colon. -/
def splitLabel? (cs : List Char) : Option (List Char × List Char) :=
  if cs.head?.any isLabelStart then
    let (name, rest) := cs.span isLabelChar
    match rest.dropWhile Text.isBlank with
    | ':' :: rest => some (name, rest)
    | _ => none
  else none

/-- The labels at the front of a text, at most `rounds` of them, and the text behind them. -/
def splitLabels : (rounds : Nat) → List Char → List (List Char) × List Char
  | 0, cs => ([], cs)
  | rounds + 1, cs =>
    match splitLabel? cs with
    | none => ([], cs)
    | some (name, rest) =>
      let (names, rest) := splitLabels rounds (Text.trim rest)
      (name :: names, rest)

/-- The labels of a line and the text of its statement. -/
def splitLine (line : List Char) : List (List Char) × List Char :=
  let text := Text.trim (stripComment false false line)
  splitLabels text.length text

/-- The mnemonic and the operand of a statement. -/
def splitStatement (text : List Char) : List Char × List Char :=
  match Text.splitFirst? Text.isBlank text with
  | some (mnemonic, operand) => (mnemonic, Text.trim operand)
  | none => (text, [])

/-- The labels defined so far with their offsets, the latest first. -/
abbrev Labels := List (String × Nat)

/-- A statement with the offset at which its bytes will start. -/
structure Statement where
  /-- The number of its line. -/
  line : Nat
  /-- What it does. -/
  opcode : Opcode
  /-- The text of its operand, empty if there is none. -/
  operand : List Char
  /-- The offset of its first byte. -/
  offset : Nat
  deriving DecidableEq, Repr

/-- The texts in a list of switch targets. -/
def splitTargets (text : List Char) : Except Cause (List (List Char)) :=
  match text with
  | '(' :: rest =>
    match rest.reverse with
    | ')' :: inner =>
      .ok (((Text.splitAll (· == ',') inner.reverse).map Text.trim).filter (!·.isEmpty))
    | _ => .error (.notTargets (String.ofList text))
  | _ => .error (.notTargets (String.ofList text))

/-- The number of operand bytes of a statement. -/
def operandWidth (opcode : Opcode) (operand : List Char) : Except Cause Nat :=
  match opcode.kind.width? with
  | some width => .ok width
  | none => do
    let targets ← splitTargets operand
    return 4 + 4 * targets.length

/-- The layout of the lines read so far. -/
structure Layout where
  /-- The labels with their offsets, the latest first. -/
  labels : Labels
  /-- The statements, the latest first. -/
  statements : List Statement
  /-- The number of bytes of the statements. -/
  size : Nat
  deriving DecidableEq, Repr

namespace Layout

/-- The layout of no lines. -/
def empty : Layout := ⟨[], [], 0⟩

/-- Whether a label may be defined again: those that a listing puts in front of its lines. -/
def isListingLabel (name : List Char) : Bool := "IL_".toList.isPrefixOf name

/-- Defines a label at the current offset. -/
def define (layout : Layout) (name : List Char) : Except Cause Layout :=
  let label := String.ofList name
  if (layout.labels.lookup label).isSome && !isListingLabel name then .error (.labelTwice label)
  else .ok { layout with labels := (label, layout.size) :: layout.labels }

/-- Adds a statement, given as its text. -/
def addStatement (layout : Layout) (line : Nat) (text : List Char) : Except Cause Layout := do
  let (mnemonic, operand) := splitStatement text
  match Opcode.ofMnemonic? (String.ofList mnemonic) with
  | none => throw (.unknownMnemonic (String.ofList mnemonic))
  | some opcode =>
    let width ← operandWidth opcode operand
    return { layout with
      statements := ⟨line, opcode, operand, layout.size⟩ :: layout.statements
      size := layout.size + opcode.size + width }

/-- Adds a line. -/
def addLine (layout : Layout) (line : Nat) (text : List Char) : Except Cause Layout := do
  let (names, statement) := splitLine text
  let layout ← names.foldlM define layout
  if statement.isEmpty then return layout else layout.addStatement line statement

/-- Adds lines, the first of which has the number `line`. -/
def addLines (layout : Layout) (line : Nat) : List (List Char) → Except Error Layout
  | [] => .ok layout
  | text :: rest =>
    match layout.addLine line text with
    | .ok layout => layout.addLines (line + 1) rest
    | .error cause => .error ⟨line, cause⟩

/-- The layout of a source text. -/
def ofSource (source : List Char) : Except Error Layout :=
  empty.addLines 1 (Text.lines source)

end Layout

end ManagedCode.Source
