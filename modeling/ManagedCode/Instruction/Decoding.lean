import ManagedCode.Instruction.Immediate

/-!
# Decoding

Bytes become instructions one after the other, and each token is resolved as its instruction is
read. In strict mode a token of a string, field, method or type that does not resolve is an error;
in listing mode the instruction keeps the bare token. The token of `ldtoken` is kept bare in both
modes when it names no type.
-/

namespace ManagedCode

/-- What the tokens of some code stand for. -/
structure Resolver where
  /-- The text of a user string. -/
  string : Token → Except ResolveError String
  /-- A field. -/
  field : Token → Except ResolveError FieldRef
  /-- A method that is no constructor. -/
  method : Token → Except ResolveError MethodRef
  /-- A method or constructor. -/
  member : Token → Except ResolveError MethodRef
  /-- A type. -/
  type : Token → Except ResolveError TypeRef

/-- The resolver that knows no token. -/
def Resolver.unknown : Resolver where
  string token := .error (.unknownToken token)
  field token := .error (.unknownToken token)
  method token := .error (.unknownToken token)
  member token := .error (.unknownToken token)
  type token := .error (.unknownToken token)

/-- What happens to a token that does not resolve. -/
inductive DecodeMode where
  /-- It is an error. -/
  | strict
  /-- The instruction keeps the token. -/
  | listing
  deriving DecidableEq, Repr

/-- The operand for a token, given what the resolver says about it. -/
def DecodeMode.settle (mode : DecodeMode) (token : Token) (found : Except ResolveError Operand) :
    Except DecodeError Operand :=
  match found, mode with
  | .ok operand, _ => .ok operand
  | .error _, .listing => .ok (.unresolved token)
  | .error error, .strict => .error (.resolve error)

namespace Resolver

/-- A method, or failing that a constructor. -/
def callable (resolver : Resolver) (token : Token) : Except ResolveError MethodRef :=
  match resolver.method token with
  | .ok ref => .ok ref
  | .error _ => resolver.member token

/-- The operand that a token stands for under an operand kind. -/
def operand (resolver : Resolver) (mode : DecodeMode) (kind : OperandKind) (token : Token) :
    Except DecodeError Operand :=
  match kind with
  | .string => mode.settle token (.string <$> resolver.string token)
  | .field => mode.settle token (.field <$> resolver.field token)
  | .method => mode.settle token (.method <$> resolver.callable token)
  | .type => mode.settle token (.type <$> resolver.type token)
  | .token => DecodeMode.listing.settle token (.type <$> resolver.type token)
  | _ => .ok (.signature token)

end Resolver

/-- The instruction with its token resolved. -/
def Encoded.resolve (resolver : Resolver) (mode : DecodeMode) (encoded : Encoded) :
    Except DecodeError Instruction := do
  let operand ← match encoded.immediate with
    | .none => pure none
    | .variable index => pure (some (.variable index))
    | .int32 value => pure (some (.int32 value))
    | .int64 value => pure (some (.int64 value))
    | .float32 bits => pure (some (.float32 bits))
    | .float64 bits => pure (some (.float64 bits))
    | .target offset => pure (some (.target offset))
    | .switch offsets => pure (some (.switch offsets))
    | .token token => some <$> resolver.operand mode encoded.opcode.kind token
  return ⟨encoded.opcode, encoded.offset.toUInt32, operand⟩

/-- Decodes the bytes from the offset `offset` on. An instruction takes at least one byte, so as
many rounds as there are bytes are enough. -/
def decodeFrom (resolver : Resolver) (mode : DecodeMode) :
    (rounds offset : Nat) → List UInt8 → Except DecodeError (List Instruction)
  | _, _, [] => .ok []
  | 0, _, _ :: _ => .ok []
  | rounds + 1, offset, bytes => do
    let (encoded, rest) ← Encoded.read offset bytes
    let inst ← encoded.resolve resolver mode
    let more ← decodeFrom resolver mode rounds (offset + encoded.size) rest
    return inst :: more

/-- Decodes a byte sequence as consecutive instructions. -/
def decode (resolver : Resolver) (mode : DecodeMode) (code : List UInt8) :
    Except DecodeError (List Instruction) :=
  decodeFrom resolver mode code.length 0 code

/-- Decodes a byte sequence as the body of a method. -/
def Body.decode (resolver : Resolver) (mode : DecodeMode) (code : List UInt8) :
    Except DecodeError Body :=
  (ManagedCode.decode resolver mode code).map fun instructions => ⟨instructions.toArray⟩

/-- The listing of a byte sequence. -/
def disassemble (resolver : Resolver) (code : List UInt8) : Except DecodeError String :=
  (decode resolver .listing code).map listing

end ManagedCode
