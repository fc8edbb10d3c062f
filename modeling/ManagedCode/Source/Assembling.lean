import ManagedCode.Bytes
import ManagedCode.Floating.Arithmetic
import ManagedCode.Floating.Numeral
import ManagedCode.Source.Layout
import ManagedCode.Source.Literals
import ManagedCode.Text.Literal

/-!
# Assembling

The layout of a source is computed first; then every statement is written as its opcode and operand
bytes. A branch operand names a label or an absolute offset, a member operand is a token written
`@0x0A000001`, and a string literal is interned into the string table. Literals interned before a
statement fails stay in the table.
-/

namespace ManagedCode.Source

/-- A whole number: an optional minus sign, then a decimal numeral or a hexadecimal one behind `0x`.
The numeral may have a sign of its own and fits into 128 bits. -/
def readInteger (text : List Char) : Except Cause Int :=
  let (negative, rest) :=
    match text with
    | '-' :: rest => (true, rest)
    | rest => (false, rest)
  let value :=
    match rest with
    | '0' :: 'x' :: digits | '0' :: 'X' :: digits =>
      Text.readInt 16 (.signed 128) digits
    | digits => Text.readInt 10 (.signed 128) digits
  match value with
  | .ok n => .ok (if negative then -n else n)
  | .error _ => .error (.notInteger (String.ofList text))

/-- A whole number of a range. -/
def readWithin (range : IntRange) (text : List Char) : Except Cause Int := do
  let n ← readInteger text
  if range.contains n then return n else throw (.outOfRange (String.ofList text))

/-- The offset that a branch operand names. -/
def readTarget (labels : Labels) (text : List Char) : Except Cause Int :=
  match labels.lookup (String.ofList text) with
  | some offset => .ok offset
  | none =>
    match readWithin (.unsigned 32) text with
    | .ok n => .ok n
    | .error _ => .error (.unknownLabel (String.ofList text))

/-- The displacement in one byte from `base` to a target. -/
def shortDisplacement (labels : Labels) (base : Nat) (text : List Char) :
    Except Cause (List UInt8) := do
  let displacement := (← readTarget labels text) - base
  if (IntRange.signed 8).contains displacement then return Bytes.ofInt 1 displacement
  else throw (.outOfShortRange (String.ofList text))

/-- The displacement in four bytes from `base` to a target. -/
def displacement (labels : Labels) (base : Nat) (text : List Char) : Except Cause (List UInt8) := do
  return Bytes.ofInt 4 ((← readTarget labels text) - base)

/-- A switch table at the offset `start`. -/
def switchTable (labels : Labels) (start : Nat) (text : List Char) : Except Cause (List UInt8) := do
  let targets ← splitTargets text
  let base := start + 4 + 4 * targets.length
  let displacements ← targets.mapM (displacement labels base)
  return Bytes.ofNat 4 targets.length ++ displacements.flatten

/-- The text of a string literal. -/
def readLiteral (text : List Char) : Except Cause String :=
  match text with
  | '"' :: rest =>
    match rest.reverse with
    | '"' :: inner =>
      match Text.unescape inner.reverse with
      | .ok cs => .ok (String.ofList cs)
      | .error sign => .error (.badEscape sign)
    | _ => .error (.unterminated (String.ofList text))
  | _ => .error (.unterminated (String.ofList text))

/-- A token behind an at sign. -/
def readToken (text : List Char) : Except Cause Token :=
  match text with
  | '@' :: rest =>
    match Token.parse? rest with
    | some token => .ok token
    | none => .error (.notToken (String.ofList text))
  | _ => .error (.notToken (String.ofList text))

/-- The bits of a floating-point number. -/
def readFloat (text : List Char) : Except Cause Nat :=
  match Floating.read? text with
  | some bits => .ok bits
  | none => .error (.notNumber (String.ofList text))

/-- The bytes of an operand that is no string literal. The operand starts at the offset `start`. -/
def plainOperand (kind : OperandKind) (labels : Labels) (start : Nat) (text : List Char) :
    Except Cause (List UInt8) :=
  match kind with
  | .none => .ok []
  | .shortVariable => Bytes.ofInt 1 <$> readWithin (.unsigned 8) text
  | .variable => Bytes.ofInt 2 <$> readWithin (.unsigned 16) text
  | .shortInt32 => Bytes.ofInt 1 <$> readWithin (.signed 8) text
  | .int32 =>
    Bytes.ofInt 4 <$> readWithin ⟨(IntRange.signed 32).low, (IntRange.unsigned 32).high⟩ text
  | .int64 => Bytes.ofInt 8 <$> readWithin (.signed 64) text
  | .float32 => (Bytes.ofNat 4 ∘ Floating.narrow) <$> readFloat text
  | .float64 => Bytes.ofNat 8 <$> readFloat text
  | .shortTarget => shortDisplacement labels (start + 1) text
  | .target => displacement labels (start + 4) text
  | .switch => switchTable labels start text
  | .string | .field | .method | .type | .token | .signature =>
    (fun token => Bytes.ofNat 4 token.value.toNat) <$> readToken text

/-- Assembling with a string table, which is kept when a statement fails. -/
abbrev Assembly := EStateM Error Literals

/-- The result of reading something in a line. -/
def located {α : Type} (line : Nat) : Except Cause α → Assembly α
  | .ok a => pure a
  | .error cause => throw ⟨line, cause⟩

/-- The operand bytes of a statement. -/
def operandBytes (labels : Labels) (s : Statement) : Assembly (List UInt8) :=
  if s.opcode.kind = .none then
    if s.operand.isEmpty then pure [] else throw ⟨s.line, .unexpectedOperand s.opcode⟩
  else if s.operand.isEmpty then throw ⟨s.line, .missingOperand s.opcode⟩
  else if s.opcode.kind = .string ∧ s.operand.head? = some '"' then do
    let text ← located s.line (readLiteral s.operand)
    let token ← modifyGet fun literals => literals.intern text
    return Bytes.ofNat 4 token.value.toNat
  else
    located s.line (plainOperand s.opcode.kind labels (s.offset + s.opcode.size) s.operand)

/-- The bytes of statements. -/
def statementBytes (labels : Labels) : List Statement → Assembly (List UInt8)
  | [] => pure []
  | s :: rest => do
    let operand ← operandBytes labels s
    let more ← statementBytes labels rest
    return s.opcode.encode ++ operand ++ more

/-- Assembles a source text. -/
def assemble (source : String) : Assembly (List UInt8) :=
  match Layout.ofSource source.toList with
  | .error e => throw e
  | .ok layout => statementBytes layout.labels layout.statements.reverse

end ManagedCode.Source
