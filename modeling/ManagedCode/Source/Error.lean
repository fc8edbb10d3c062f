import ManagedCode.Opcode.Basic
import ManagedCode.Text.Numeral

/-!
# Errors of source text

What can be wrong with a line of assembler source.
-/

namespace ManagedCode.Source

/-- What is wrong with a line. -/
inductive Cause where
  /-- The label was already defined, and it is not one of a listing. -/
  | labelTwice (name : String)
  /-- No opcode has this name. -/
  | unknownMnemonic (name : String)
  /-- The opcode stands alone. -/
  | unexpectedOperand (opcode : Opcode)
  /-- The opcode does not stand alone. -/
  | missingOperand (opcode : Opcode)
  /-- The operand is no whole number. -/
  | notInteger (text : String)
  /-- The operand is no number. -/
  | notNumber (text : String)
  /-- The operand does not fit into its bytes. -/
  | outOfRange (text : String)
  /-- The operand is neither a label nor an offset. -/
  | unknownLabel (text : String)
  /-- The target is too far away for one byte. -/
  | outOfShortRange (text : String)
  /-- The operand is no list of targets. -/
  | notTargets (text : String)
  /-- The operand is no token. -/
  | notToken (text : String)
  /-- The string literal has no closing quote. -/
  | unterminated (text : String)
  /-- The character behind a backslash stands for nothing. -/
  | badEscape (sign : Char)
  deriving DecidableEq, Repr

/-- The wording of the cause. -/
def Cause.message : Cause → String
  | .labelTwice name => "label `" ++ name ++ "` defined twice"
  | .unknownMnemonic name => "unknown mnemonic `" ++ name ++ "`"
  | .unexpectedOperand opcode => opcode.mnemonic ++ " takes no operand"
  | .missingOperand opcode => opcode.mnemonic ++ " needs an operand"
  | .notInteger text => "`" ++ text ++ "` is not an integer"
  | .notNumber text => "`" ++ text ++ "` is not a number"
  | .outOfRange text => "`" ++ text ++ "` is out of range"
  | .unknownLabel text => "unknown label `" ++ text ++ "`"
  | .outOfShortRange text => "branch to `" ++ text ++ "` is out of short range"
  | .notTargets text => "expected `(target, ...)`, found `" ++ text ++ "`"
  | .notToken text => "expected a token such as @0x0A000001, found `" ++ text ++ "`"
  | .unterminated text => "unterminated string " ++ text
  | .badEscape sign => "bad escape `\\" ++ sign.toString ++ "`"

/-- A line that could not be assembled. -/
structure Error where
  /-- The number of the line, from one on. -/
  line : Nat
  /-- What is wrong with it. -/
  cause : Cause
  deriving DecidableEq, Repr

/-- The wording of the error. -/
def Error.message (e : Error) : String := "line " ++ Text.natText e.line ++ ": " ++ e.cause.message

end ManagedCode.Source
