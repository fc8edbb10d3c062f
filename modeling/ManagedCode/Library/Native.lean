import ManagedCode.Machine.Exec
import ManagedCode.Text.Lines
import ManagedCode.Text.Quoted

/-!
# Native behaviours

What the methods of the built-in types do. A native behaviour reads the arguments of the running
frame and pushes its result, if it has one, onto that frame's evaluation stack. Arguments are looked
at in a fixed order, and the first one that is missing or unfit decides the fault.
-/

namespace ManagedCode

/-- The native behaviours. -/
inductive Native where
  | objectConstruct | objectToString | objectEquals
  | stringConcat | stringFormat | stringJoin | stringSplit | stringLength | stringEquality
  | int32Parse
  | listConstruct | listAdd | listAddRange | listCount | listGetItem | listSetItem | listGetRange
  | listIndexOf | listContains | listInsert | listRemoveAt | listRemoveRange | listClear
  | fileReadAllLines | fileWriteAllText
  | consoleWriteLine | consoleWrite
  | environmentNewLine
  deriving DecidableEq, Repr

namespace Native

open Exec

/-- An argument of the running method. -/
def argument (index : Nat) : Exec Value := query (·.argument index)

/-- The text of an argument that is a string. -/
def textArgument (index : Nat) : Exec String := do
  let value ← argument index
  query (·.textOf value)

/-- The text of an argument on the console. -/
def displayArgument (index : Nat) : Exec String := do
  let value ← argument index
  query (·.display value)

/-- The receiver. -/
def receiver : Exec Handle := do
  let value ← argument 0
  check value.toHandle

/-- The receiver and its items, if it is a list. -/
def receiverItems : Exec (Handle × Array Value) := do
  let handle ← receiver
  return (handle, ← query (·.listOf handle))

/-- Makes a string object and pushes it. -/
def pushText (text : String) : Exec Unit := do
  push (← allocString text)

/-- Makes an array of string objects and pushes it. -/
def pushTexts (texts : List (List Char)) : Exec Unit := do
  let strings ← texts.mapM fun text => allocString (String.ofList text)
  push (← allocArray ⟨.any, strings.toArray⟩)

/-! ## Strings and numbers -/

/-- The template with each placeholder `{0}` replaced by a text. -/
def fillTemplate (text : List Char) : List Char → List Char
  | '{' :: '0' :: '}' :: template => text ++ fillTemplate text template
  | c :: template => c :: fillTemplate text template
  | [] => []

/-- The characters that an argument list gives as separators: the code points in an array or list
that is its second argument. -/
def separators : Exec (List Char) := do
  let arguments ← query Machine.arguments
  match arguments with
  | _ :: .ref handle :: _ =>
    let values ← query (·.elements (.ref handle))
    return values.filterMap fun
      | .int32 v =>
        let n := v.toUInt32.toNat
        if n.isValidChar then some (Char.ofNat n) else none
      | _ => none
  | _ => return []

/-- The pieces of a text between separators, or between blanks if there are no separators. -/
def splitText (separators : List Char) (text : List Char) : List (List Char) :=
  if separators.isEmpty then Text.splitAll Text.isBlank text
  else Text.splitAll separators.contains text

/-- The number of 16-bit units of a text. -/
def units16 (text : List Char) : Nat :=
  text.foldl (fun count c => count + if c.toNat < 0x10000 then 1 else 2) 0

/-- Whether two string arguments are equal; null equals only itself. -/
def equalTexts (a b : Value) : Exec Bool :=
  match a, b with
  | .null, .null => return true
  | .null, _ | _, .null => return false
  | a, b => do
    let x ← query (·.textOf a)
    let y ← query (·.textOf b)
    return x == y

/-- Reads a 32-bit integer from a text. -/
def parseInt32 (text : String) : Exec Unit :=
  match Text.readInt 10 (.signed 32) (Text.trim text.toList) with
  | .ok n => push (.int32 (Int32.ofInt n))
  | .error error =>
    fail ("cannot parse " ++ String.ofList (Text.quoted text.toList) ++ ": " ++ error.message)

/-! ## Lists -/

/-- The position of an index below `limit`. -/
def position (index : Int64) (limit length : Nat) : Except Fault Nat :=
  if 0 ≤ index.toInt ∧ index.toInt < limit then .ok index.toInt.toNat
  else .error (.indexOutOfRange .list index.toInt length)

/-- The position that a value gives in a list, behind its last item too if `inclusive`. -/
def positionOf (value : Value) (length : Nat) (inclusive : Bool) : Exec Nat := check do
  position (← value.toIndex) (if inclusive then length + 1 else length) length

/-- The start and end that the second and third argument give as a position and a count. The end is
the sum of two 64-bit words: where the sum does not fit it wraps around, as an addition without
overflow checks does, and the range is refused. -/
def rangeArguments : Exec (Nat × Nat) := do
  let index ← argument 1
  let count ← argument 2
  let (_, items) ← receiverItems
  let start ← positionOf index items.size true
  let count ← check count.toIndex
  let stop ← check (position (Int64.ofNat start + count) (items.size + 1) items.size)
  if stop < start then
    check (.error (.indexOutOfRange .list count.toInt items.size))
  else return (start, stop)

/-- The position of the first of some values that equals a given one, counted from `start`. -/
def findValue (m : Machine) (wanted : Value) :
    (start : Nat) → List Value → Except Fault (Option Nat)
  | _, [] => .ok none
  | start, value :: values => do
    if ← m.valuesEqual value wanted then return some start
    findValue m wanted (start + 1) values

/-- The position of the second argument in the list or array that is the first. -/
def findArgument : Exec (Option Nat) := do
  let wanted ← argument 1
  let container ← argument 0
  let values ← query (·.elements container)
  query fun m => findValue m wanted 0 values

/-- Checks the capacity that a list is made with, if there is one. -/
def checkCapacity : Exec Unit := do
  let handle ← receiver
  let arguments ← query Machine.arguments
  match arguments with
  | _ :: capacity :: _ =>
    let capacity ← check capacity.toIndex
    if capacity < 0 then fail ("negative capacity " ++ Text.intText capacity.toInt)
    let _ ← query (·.checkArrayLength capacity.toInt)
    let _ ← query (·.listOf handle)
  | _ => return ()

/-- Runs a native behaviour. -/
def run : Native → Exec Unit
  | .objectConstruct => return ()
  | .objectToString => do pushText (← displayArgument 0)
  | .objectEquals => do
    let a ← argument 0
    let b ← argument 1
    push (.ofBool (← query (·.valuesEqual a b)))
  | .stringConcat => do
    let values ← query Machine.arguments
    let texts ← values.mapM fun value => query (·.display value)
    pushText (String.join texts)
  | .stringFormat => do
    let template ← textArgument 0
    let text ← displayArgument 1
    pushText (String.ofList (fillTemplate text.toList template.toList))
  | .stringJoin => do
    let separator ← textArgument 0
    let parts ← argument 1
    let values ← query (·.elements parts)
    let texts ← values.mapM fun value => query (·.display value)
    pushText (separator.intercalate texts)
  | .stringSplit => do
    let text ← textArgument 0
    let separators ← separators
    pushTexts (splitText separators text.toList)
  | .stringLength => do
    let text ← textArgument 0
    push (.int32 (Int32.ofNat (units16 text.toList)))
  | .stringEquality => do
    let a ← argument 0
    let b ← argument 1
    push (.ofBool (← equalTexts a b))
  | .int32Parse => do parseInt32 (← textArgument 0)
  | .listConstruct => checkCapacity
  | .listAdd => do
    let item ← argument 1
    let (handle, items) ← receiverItems
    setItems handle (items.push item)
  | .listAddRange => do
    let range ← argument 1
    let added ← query (·.elements range)
    let (handle, items) ← receiverItems
    setItems handle (items ++ added.toArray)
  | .listCount => do
    let (_, items) ← receiverItems
    push (.int32 (Int32.ofNat items.size))
  | .listGetItem => do
    let index ← argument 1
    let (_, items) ← receiverItems
    let position ← positionOf index items.size false
    push (items.getD position .null)
  | .listSetItem => do
    let index ← argument 1
    let item ← argument 2
    let (handle, items) ← receiverItems
    let position ← positionOf index items.size false
    setItems handle (items.setIfInBounds position item)
  | .listGetRange => do
    let (start, stop) ← rangeArguments
    let (_, items) ← receiverItems
    push (← allocList (items.extract start stop))
  | .listIndexOf => do
    match ← findArgument with
    | some position => push (.int32 (Int32.ofNat position))
    | none => push (.int32 (-1))
  | .listContains => do push (.ofBool (← findArgument).isSome)
  | .listInsert => do
    let index ← argument 1
    let item ← argument 2
    let (handle, items) ← receiverItems
    let position ← positionOf index items.size true
    setItems handle (items.insertIdxIfInBounds position item)
  | .listRemoveAt => do
    let index ← argument 1
    let (handle, items) ← receiverItems
    let position ← positionOf index items.size false
    setItems handle (items.eraseIdxIfInBounds position)
  | .listRemoveRange => do
    let (start, stop) ← rangeArguments
    let (handle, items) ← receiverItems
    setItems handle (items.extract 0 start ++ items.extract stop items.size)
  | .listClear => do
    let (handle, _) ← receiverItems
    setItems handle #[]
  | .fileReadAllLines => do
    let path ← textArgument 0
    let text ← readFile path
    pushTexts (Text.lines text.toList)
  | .fileWriteAllText => do
    let path ← textArgument 0
    let text ← textArgument 1
    writeFile path text
  | .consoleWriteLine => do
    let arguments ← query Machine.arguments
    match arguments with
    | value :: _ => write ((← query (·.display value)) ++ "\n")
    | [] => write "\n"
  | .consoleWrite => do write (← displayArgument 0)
  | .environmentNewLine => pushText "\n"

end Native

end ManagedCode
