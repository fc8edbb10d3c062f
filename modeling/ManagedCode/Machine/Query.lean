import ManagedCode.Machine.Basic

/-!
# Questions to a machine

What can be read off a machine without changing it, each with the fault that says why there is no
answer.
-/

namespace ManagedCode.Machine

/-- The object that a handle names. -/
def object (m : Machine) (handle : Handle) : Except Fault Object :=
  (m.heap.get handle).mapError Fault.heap

/-- The text of a string object; null counts as the empty text. -/
def textOf (m : Machine) : Value → Except Fault String
  | .null => .ok ""
  | .ref handle => do
    match (← m.object handle).text? with
    | some text => return text
    | none => throw (.heap (.slotKind handle "Value" "string"))
  | value => .error (Value.mismatch "string" value)

/-- The text of a value on the console: strings by their text, other objects by their type. -/
def display (m : Machine) : Value → Except Fault String
  | .int32 v => .ok (Text.intText v.toInt)
  | .int64 v => .ok (Text.intText v.toInt)
  | .float64 v => .ok (Value.floatText v)
  | .null => .ok ""
  | .ref handle => do
    let object ← m.object handle
    match object.text? with
    | some text =>
      return if object.type = m.core.string then text else m.catalog.fullName object.type
    | none => return m.catalog.fullName object.type

/-- The elements of an array or list. -/
def elements (m : Machine) (value : Value) : Except Fault (List Value) := do
  let handle ← value.toHandle
  match (← m.object handle).slot? 0 with
  | some (.array elements) => return elements.values.toList
  | some (.list items) => return items.toList
  | _ => throw (.heap (.slotKind handle "Values" "array or list"))

/-- The elements of an array. -/
def arrayOf (m : Machine) (handle : Handle) : Except Fault Elements := do
  match (← m.object handle).elements? with
  | some elements => return elements
  | none => throw (.heap (.slotKind handle "Values" "array"))

/-- The items of a list. -/
def listOf (m : Machine) (handle : Handle) : Except Fault (Array Value) := do
  match (← m.object handle).items? with
  | some items => return items
  | none => throw (.heap (.slotKind handle "Values" "list"))

/-- The slot of a field of an object and the value in it. -/
def fieldOf (m : Machine) (handle : Handle) (name : String) : Except Fault (Nat × Value) := do
  let object ← m.object handle
  let slot ← (m.catalog.fieldSlot object.type name).mapError Fault.heap
  match object.slot? slot with
  | some (.value value) => return (slot, value)
  | _ => throw (.heap (.slotKind handle name "value"))

/-- Whether two values are equal: strings by their text, everything else by value or identity. -/
def valuesEqual (m : Machine) (a b : Value) : Except Fault Bool :=
  match a, b with
  | .ref x, .ref y => do
    let x' ← m.object x
    let y' ← m.object y
    if x'.type = m.core.string ∧ y'.type = m.core.string then return x'.text? == y'.text?
    else return x == y
  | a, b => .ok (a.same b)

/-- The greatest array length, which is that of the options but fits into 32 bits. -/
def arrayLimit (m : Machine) : Nat := min m.options.maxArrayLength (IntRange.signed 32).high.toNat

/-- An array length that is allowed. -/
def checkArrayLength (m : Machine) (length : Int) : Except Fault Nat :=
  if length < 0 then .error (.overflow "newarr")
  else if length ≤ m.arrayLimit then .ok length.toNat
  else .error (.heap (.arrayTooLarge length m.arrayLimit))

/-- The arguments of the running method. -/
def arguments (m : Machine) : Except Fault (List Value) :=
  match m.calls.top? with
  | some frame => .ok frame.arguments
  | none => .error (.stackUnderflow hostName)

/-- An argument of the running method, the receiver being the first. -/
def argument (m : Machine) (index : Nat) : Except Fault Value := do
  match (← m.arguments)[index]? with
  | some value => return value
  | none => throw (.native m.runningMethod ("missing argument " ++ Text.natText index))

/-- The arguments in the order in which the method gets them, given the last one first. They are
reversed unless the first of them is an instance of exactly the declaring type. -/
def orderArguments (m : Machine) (declaring : TypeId) (arguments : List Value) : List Value :=
  let receiverFirst : Bool :=
    match arguments with
    | .ref handle :: _ => (m.heap.get? handle).any fun object => object.type == declaring
    | _ => false
  if receiverFirst then arguments else arguments.reverse

end ManagedCode.Machine
