import ManagedCode.Handle
import ManagedCode.Opcode.Basic
import ManagedCode.Token.Basic

/-!
# Faults

Everything that can go wrong while code is decoded, references are resolved and programs run. Each
type lists causes; the wording stands in one `message` function per type. A fault ends the run: no
program observes one.
-/

namespace ManagedCode

/-- What a metadata token is expected to name. -/
inductive MemberKind where
  | field
  | method
  | type
  deriving DecidableEq, Repr

/-- The word for it in messages. -/
def MemberKind.word : MemberKind → String
  | .field => "field"
  | .method => "method"
  | .type => "type"

/-- A token, type, member or native behaviour could not be found. -/
inductive ResolveError where
  /-- The module has no entry for the token. -/
  | unknownToken (token : Token)
  /-- The entry of the token is of another kind. -/
  | wrongTokenKind (token : Token) (expected : MemberKind)
  /-- No assembly of that name is loaded. -/
  | unknownAssembly (name : String)
  /-- The assembly has no such type. -/
  | unknownType (assembly name : String)
  /-- The type has no such member. -/
  | unknownMember (typeName member : String)
  /-- A member without a body has no native behaviour either. -/
  | noNative (typeName member : String) (arity : Nat)
  /-- The text of a type or signature is malformed. -/
  | malformedSignature (text : String)
  /-- Following the base types of the type leads back to a type already met. -/
  | cyclicInheritance (typeName : String)
  deriving DecidableEq, Repr

/-- The wording of the error. -/
def ResolveError.message : ResolveError → String
  | .unknownToken token => "metadata token " ++ token.text ++ " is not defined"
  | .wrongTokenKind token expected =>
    "metadata token " ++ token.text ++ " does not name a " ++ expected.word
  | .unknownAssembly name => "assembly " ++ name ++ " is not supported"
  | .unknownType assembly name =>
    "type " ++ name ++ " in assembly " ++ assembly ++ " is not supported"
  | .unknownMember typeName member =>
    "member " ++ member ++ " of type " ++ typeName ++ " is not supported"
  | .noNative typeName member arity =>
    "no native implementation registered for " ++ typeName ++ "::" ++ member ++ "/" ++
      Text.natText arity
  | .malformedSignature text => "malformed signature `" ++ text ++ "`"
  | .cyclicInheritance typeName => "type " ++ typeName ++ " inherits from itself"

/-- Bytes are no instruction sequence. -/
inductive DecodeError where
  /-- A byte is no one-byte opcode. -/
  | unknownOpcode (offset : Nat) (value : UInt8)
  /-- A byte behind the extension byte is no second byte of an opcode. -/
  | unknownExtendedOpcode (offset : Nat) (value : UInt8)
  /-- The bytes end inside an instruction. -/
  | truncated (offset : Nat)
  /-- A branch goes to no 32-bit offset. -/
  | badBranchTarget (offset : Nat) (target : Int)
  /-- A token could not be resolved. -/
  | resolve (error : ResolveError)
  deriving DecidableEq, Repr

/-- The wording of the error. -/
def DecodeError.message : DecodeError → String
  | .unknownOpcode offset value =>
    "unknown opcode 0x" ++ Text.hexText 2 value.toNat ++ " at offset " ++ Text.natText offset
  | .unknownExtendedOpcode offset value =>
    "unknown extended opcode 0xFE 0x" ++ Text.hexText 2 value.toNat ++ " at offset " ++
      Text.natText offset
  | .truncated offset => "instruction stream truncated at offset " ++ Text.natText offset
  | .badBranchTarget offset target =>
    "branch target " ++ Text.intText target ++ " at offset " ++ Text.natText offset ++
      " is outside the method body"
  | .resolve error => error.message

/-- The heap could not serve a request. -/
inductive HeapError where
  /-- As many objects as the heap may hold are live. -/
  | full (capacity : Nat)
  /-- The handle names no live object. -/
  | notFound (handle : Handle)
  /-- The type of an object has no field of that name. -/
  | unknownField (typeName field : String)
  /-- An array would have too many elements. -/
  | arrayTooLarge (length : Int) (limit : Nat)
  /-- A slot does not hold what is expected of it. -/
  | slotKind (handle : Handle) (field expected : String)
  deriving DecidableEq, Repr

/-- The wording of the error. -/
def HeapError.message : HeapError → String
  | .full capacity => "heap is full (" ++ Text.natText capacity ++ " objects)"
  | .notFound handle =>
    "object " ++ handle.text ++ " is not on the heap; this is an internal consistency fault"
  | .unknownField typeName field => "field " ++ field ++ " does not exist on type " ++ typeName
  | .arrayTooLarge length limit =>
    "array of " ++ Text.intText length ++ " elements exceeds the limit of " ++ Text.natText limit
  | .slotKind handle field expected =>
    "object " ++ handle.text ++ " has no " ++ expected ++ " in slot " ++ field

/-- A file could not be read or written. -/
inductive FileError where
  /-- There is no such file or directory. -/
  | notFound
  /-- A directory stands where a file is expected. -/
  | isDirectory
  /-- A file stands where a directory is expected. -/
  | notDirectory
  /-- The bytes of the file are no text. -/
  | invalidText
  /-- A name or the whole path is too long. -/
  | nameTooLong
  /-- The path has a zero character in it. -/
  | zeroInPath
  deriving DecidableEq, Repr

/-- The wording of the error. -/
def FileError.message : FileError → String
  | .notFound => "No such file or directory (os error 2)"
  | .isDirectory => "Is a directory (os error 21)"
  | .notDirectory => "Not a directory (os error 20)"
  | .invalidText => "stream did not contain valid UTF-8"
  | .nameTooLong => "File name too long (os error 36)"
  | .zeroInPath => "file name contained an unexpected NUL byte"

/-- What an index is an index into. -/
inductive Indexed where
  | array
  | list
  | argument
  | variable
  deriving DecidableEq, Repr

/-- The word for it in messages. -/
def Indexed.word : Indexed → String
  | .array => "array"
  | .list => "list"
  | .argument => "argument"
  | .variable => "local"

/-- A run has failed. -/
inductive Fault where
  /-- A method body could not be decoded. -/
  | decode (error : DecodeError)
  /-- A reference could not be resolved. -/
  | resolve (error : ResolveError)
  /-- The heap could not serve a request. -/
  | heap (error : HeapError)
  /-- The instruction has no meaning here. -/
  | unsupported (offset : UInt32) (opcode : Opcode)
  /-- A call would nest too deeply. -/
  | stackOverflow (depth limit : Nat)
  /-- A method took more values from its evaluation stack than it had put there. -/
  | stackUnderflow (method : String)
  /-- A method that returns a value ended with an empty evaluation stack. -/
  | invalidReturn (method : String)
  /-- A value is of the wrong kind. -/
  | typeMismatch (expected found : String)
  /-- An instruction lacks the operand that its opcode requires. -/
  | missingOperand (offset : UInt32) (opcode : Opcode)
  /-- No instruction starts at the target of a branch. -/
  | badBranchTarget (target : UInt32)
  /-- An index is outside its range. -/
  | indexOutOfRange (kind : Indexed) (index : Int) (length : Nat)
  /-- An integer was divided by zero. -/
  | divisionByZero
  /-- A result has no representation. -/
  | overflow (operation : String)
  /-- An object is not of the type it is cast to. -/
  | invalidCast (source target : String)
  /-- No module has a static `Main`. -/
  | noEntryPoint
  /-- A native behaviour has failed. -/
  | native (method message : String)
  /-- A file could not be read or written. -/
  | file (path : String) (error : FileError)
  deriving DecidableEq, Repr

/-- The wording of the fault. -/
def Fault.message : Fault → String
  | .decode error => error.message
  | .resolve error => error.message
  | .heap error => error.message
  | .unsupported offset opcode =>
    "IL_" ++ Text.paddedText 4 offset.toNat ++ ": " ++ opcode.mnemonic ++ " is not supported"
  | .stackOverflow depth limit =>
    "stack overflow: call depth " ++ Text.natText depth ++ " exceeds the limit of " ++
      Text.natText limit
  | .stackUnderflow method => "evaluation stack underflow in " ++ method
  | .invalidReturn method =>
    method ++ " returns a value but left its evaluation stack empty"
  | .typeMismatch expected found =>
    "type mismatch: expected " ++ expected ++ ", found " ++ found
  | .missingOperand offset opcode =>
    "IL_" ++ Text.paddedText 4 offset.toNat ++ ": " ++ opcode.mnemonic ++ " is missing its operand"
  | .badBranchTarget target =>
    "no instruction starts at branch target " ++ Text.paddedText 4 target.toNat
  | .indexOutOfRange kind index length =>
    kind.word ++ " index " ++ Text.intText index ++ " is out of range (length " ++
      Text.natText length ++ ")"
  | .divisionByZero => "arithmetic fault: division by zero"
  | .overflow operation => "arithmetic overflow in " ++ operation
  | .invalidCast source target => "cannot cast an instance of " ++ source ++ " to " ++ target
  | .noEntryPoint => "no loaded assembly contains a static Main method"
  | .native method message => method ++ ": " ++ message
  | .file _ error => error.message

end ManagedCode
