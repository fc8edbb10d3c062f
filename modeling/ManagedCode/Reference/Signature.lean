import ManagedCode.Reference.TypeRef

/-!
# Signatures

The calling shape of a method: whether it is static, its parameter types and its return type. The
written form is `static (int32,string)void`; without `static` the method belongs to instances, and
the word `instance` says so too.
-/

namespace ManagedCode

/-- The calling shape of a method. -/
structure Signature where
  /-- Whether the method takes no receiver. -/
  isStatic : Bool
  /-- The parameter types, without the receiver. -/
  parameters : List TypeRef
  /-- The return type. -/
  returnType : TypeRef
  deriving DecidableEq, Repr, Inhabited

namespace Signature

/-- The text behind a leading word and at least one blank. -/
def dropWord? (word : String) (cs : List Char) : Option (List Char) :=
  match Text.dropFront? word.toList cs with
  | some (c :: rest) => if Text.isBlank c then some (rest.dropWhile Text.isBlank) else none
  | _ => none

/-- Whether the text starts with the word `static`, and what follows the leading word, if any. -/
def splitCallingWord (cs : List Char) : Bool × List Char :=
  match dropWord? "static" cs with
  | some rest => (true, rest)
  | none => (false, (dropWord? "instance" cs).getD cs)

/-- The three parts of a signature text: whether it is static, the text between the parentheses and
the text of the return type. -/
def split? (cs : List Char) : Option (Bool × List Char × List Char) :=
  match splitCallingWord (cs.dropWhile Text.isBlank) with
  | (isStatic, '(' :: rest) => do
    let (parameters, rest) ← Text.splitFirst? (· == ')') rest
    let result := Text.trim rest
    if result.isEmpty || result.any Text.isBlank then none else some (isStatic, parameters, result)
  | _ => none

/-- The parts of a text between commas, without blanks around them; empty parts do not count. -/
def splitList (cs : List Char) : List (List Char) :=
  ((Text.splitAll (· == ',') cs).map Text.trim).filter (!·.isEmpty)

/-- Reads a signature text. Type names without an assembly belong to the assembly `home`. -/
def parse (home : String) (text : String) : Except ResolveError Signature :=
  match split? text.toList with
  | none => .error (.malformedSignature text)
  | some (isStatic, parameters, result) => do
    let parameters ← (splitList parameters).mapM fun p => TypeRef.parse home (String.ofList p)
    let returnType ← TypeRef.parse home (String.ofList result)
    return { isStatic, parameters, returnType }

end Signature

end ManagedCode
