import ManagedCode.Machine.Basic
import ManagedCode.Text.Numeral

/-!
# Commands

What the words of a command line ask for. The first word names the command. A word that starts with
a dash is an option, unless it is a single dash or stands behind `--`; every other word is an
operand. Options may stand anywhere between the operands, each of them once at most.
-/

namespace ManagedCode

/-- A limit of the machine that an option sets. -/
inductive Limit where
  | callDepth
  | heapCapacity
  | arrayLength
  deriving DecidableEq, Repr

namespace Limit

/-- The word of the option. -/
def word : Limit → String
  | .callDepth => "--max-depth"
  | .heapCapacity => "--heap-capacity"
  | .arrayLength => "--max-array-length"

/-- The limit whose option is a given word. -/
def ofWord? (word : String) : Option Limit :=
  [callDepth, heapCapacity, arrayLength].find? (·.word == word)

/-- The number that is given for a limit, of 64 bits. -/
def value? (text : String) : Option Nat := Text.readNat? 10 64 text.toList

end Limit

/-- What a command line asks for. -/
inductive Command where
  /-- To run the program in the module at a path. -/
  | run (options : Options) (path : String) (arguments : List String)
  /-- To list the methods of the module at a path. -/
  | list (path : String)
  deriving DecidableEq, Repr

namespace Command

/-- The word of the option that keeps arguments in the order of pushing. -/
def pushedOrderWord : String := "--strict-arguments"

/-- The options and operands of a command line. -/
structure Words where
  /-- The limits that were given. -/
  limits : List (Limit × Nat) := []
  /-- Whether arguments keep the order of pushing. -/
  keepsOrder : Bool := false
  /-- The operands in order. -/
  operands : List String := []
  deriving DecidableEq, Repr

namespace Words

/-- With a limit, unless it is malformed or was given before. -/
def setLimit? (words : Words) (limit : Limit) (text : String) : Option Words :=
  match Limit.value? text, words.limits.lookup limit with
  | some value, none => some { words with limits := (limit, value) :: words.limits }
  | _, _ => none

/-- With one more operand. -/
def addOperand (words : Words) (word : String) : Words :=
  { words with operands := words.operands ++ [word] }

/-- Whether a word is an option. -/
def isOption (word : String) : Bool :=
  match word.toList with
  | '-' :: _ :: _ => true
  | _ => false

/-- Sorts the words of a command line. A limit is the next word or follows an equals sign. -/
def read? (words : Words) : List String → Option Words
  | [] => some words
  | "--" :: rest => some { words with operands := words.operands ++ rest }
  | word :: rest =>
    if !isOption word then (words.addOperand word).read? rest
    else if word == pushedOrderWord then
      if words.keepsOrder then none else { words with keepsOrder := true : Words }.read? rest
    else
      match Limit.ofWord? word, rest with
      | some limit, value :: rest => (words.setLimit? limit value).bind (·.read? rest)
      | some _, [] => none
      | none, rest => do
        let (name, value) ← Text.splitFirst? (· == '=') word.toList
        let limit ← Limit.ofWord? (String.ofList name)
        (← words.setLimit? limit (String.ofList value)).read? rest

/-- The options of the machine. -/
def options (words : Words) : Options :=
  let defaults : Options := {}
  { defaults with
    maxCallDepth := (words.limits.lookup .callDepth).getD defaults.maxCallDepth
    heapCapacity := (words.limits.lookup .heapCapacity).getD defaults.heapCapacity
    maxArrayLength := (words.limits.lookup .arrayLength).getD defaults.maxArrayLength
    argumentOrder := if words.keepsOrder then .pushed else defaults.argumentOrder }

/-- Whether there are no options. -/
def isPlain (words : Words) : Bool := words.limits.isEmpty && !words.keepsOrder

end Words

/-- What the words of a command line ask for, if they make sense. -/
def ofWords? : List String → Option Command
  | "run" :: rest => do
    let words ← ({} : Words).read? rest
    match words.operands with
    | path :: arguments => if path.isEmpty then none else some (.run words.options path arguments)
    | [] => none
  | "disasm" :: rest => do
    let words ← ({} : Words).read? rest
    match words.operands with
    | [path] => if path.isEmpty || !words.isPlain then none else some (.list path)
    | _ => none
  | _ => none

end Command

end ManagedCode
