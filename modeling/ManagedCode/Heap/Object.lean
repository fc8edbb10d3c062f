import ManagedCode.Catalog.Basic
import ManagedCode.Value.Basic

/-!
# Heap objects

An object has a type and one slot for each field of the type. Most slots hold a value; strings,
arrays and lists keep their content in a slot of its own kind. An array stores each element in the
form of its element kind.
-/

namespace ManagedCode

/-- How the elements of an array, or a field, are stored. -/
inductive ElementKind where
  | int32
  | int64
  | float64
  | char
  /-- A value of any kind. -/
  | any
  deriving DecidableEq, Repr

namespace ElementKind

/-- The kind for elements of a type. The primitive types of the namespace `System` have kinds of
their own. -/
def ofType (type : TypeRef) : ElementKind :=
  if type.nameSpace != "System" then .any
  else
    match type.name with
    | "Int32" | "UInt32" | "Int16" | "UInt16" | "SByte" | "Byte" | "Boolean" => .int32
    | "Int64" | "UInt64" => .int64
    | "Single" | "Double" => .float64
    | "Char" => .char
    | _ => .any

/-- The initial value of an element. -/
def zero : ElementKind → Value
  | .int32 | .char => .int32 0
  | .int64 => .int64 0
  | .float64 => .float64 0
  | .any => .null

/-- The code point that a 32-bit integer stands for; the replacement character for what is none. -/
def codePoint (v : Int32) : Int32 := if v.toUInt32.toNat.isValidChar then v else 0xFFFD

/-- The form in which a value is stored, if it can be. -/
def coerce? : ElementKind → Value → Option Value
  | .int32, .int32 v => some (.int32 v)
  | .int32, .int64 v => some (.int32 v.toInt32)
  | .int64, .int64 v => some (.int64 v)
  | .int64, .int32 v => some (.int64 v.toInt64)
  | .float64, .float64 v => some (.float64 v)
  | .float64, .int32 v => some (.float64 v.toFloat)
  | .char, .int32 v => some (.int32 (codePoint v))
  | .any, v => some v
  | _, _ => none

end ElementKind

/-- The initial value of a field or static of a type. -/
def defaultValue (type : Option TypeRef) : Value :=
  match type with
  | some type => (ElementKind.ofType type).zero
  | none => .null

/-- The elements of an array. -/
structure Elements where
  /-- How they are stored. -/
  kind : ElementKind
  /-- The stored values. -/
  values : Array Value
  deriving DecidableEq, Repr

namespace Elements

/-- Elements with their initial value. -/
def zeros (kind : ElementKind) (length : Nat) : Elements := ⟨kind, Array.replicate length kind.zero⟩

/-- The number of elements. -/
def size (elements : Elements) : Nat := elements.values.size

/-- The position of an index that is in range. -/
def position (elements : Elements) (index : Int) : Except Fault Nat :=
  if 0 ≤ index ∧ index < elements.size then .ok index.toNat
  else .error (.indexOutOfRange .array index elements.size)

/-- The element at an index. -/
def get (elements : Elements) (index : Int) : Except Fault Value := do
  let position ← elements.position index
  return elements.values.getD position .null

/-- The elements with a stored value put in place. -/
def put (elements : Elements) (position : Nat) (stored : Value) : Elements :=
  { elements with values := elements.values.setIfInBounds position stored }

/-- Where and in which form a value would be stored at an index. -/
def plan (elements : Elements) (index : Int) (value : Value) : Except Fault (Nat × Value) := do
  let position ← elements.position index
  match elements.kind.coerce? value with
  | some stored => return (position, stored)
  | none => throw (Value.mismatch "array element" value)

/-- The elements with the one at an index replaced. -/
def set (elements : Elements) (index : Int) (value : Value) : Except Fault Elements := do
  let (position, stored) ← elements.plan index value
  return elements.put position stored

end Elements

/-- The content of a slot. -/
inductive Slot where
  /-- A field. -/
  | value (v : Value)
  /-- The text of a string. -/
  | text (s : String)
  /-- The elements of an array. -/
  | array (elements : Elements)
  /-- The items of a list. -/
  | list (items : Array Value)
  deriving DecidableEq, Repr

/-- The handles that a slot holds. -/
def Slot.references : Slot → List Handle
  | .value v => v.handle?.toList
  | .text _ => []
  | .array elements => elements.values.toList.filterMap Value.handle?
  | .list items => items.toList.filterMap Value.handle?

/-- A heap object. -/
structure Object where
  /-- The type. -/
  type : TypeId
  /-- One slot for each field of the type. -/
  slots : List Slot
  deriving DecidableEq, Repr

namespace Object

/-- The content of a slot. -/
def slot? (object : Object) (index : Nat) : Option Slot := object.slots[index]?

/-- The object with the content of a slot replaced. -/
def setSlot (object : Object) (index : Nat) (slot : Slot) : Object :=
  { object with slots := object.slots.set index slot }

/-- The object with the content of a slot changed. -/
def modifySlot (object : Object) (index : Nat) (f : Slot → Slot) : Object :=
  { object with slots := object.slots.modify index f }

/-- The handles that an object holds. -/
def references (object : Object) : List Handle := object.slots.flatMap Slot.references

/-- The text of a string object. -/
def text? (object : Object) : Option String :=
  match object.slot? 0 with
  | some (.text s) => some s
  | _ => none

/-- The elements of an array object. -/
def elements? (object : Object) : Option Elements :=
  match object.slot? 0 with
  | some (.array elements) => some elements
  | _ => none

/-- The items of a list object. -/
def items? (object : Object) : Option (Array Value) :=
  match object.slot? 0 with
  | some (.list items) => some items
  | _ => none

end Object

end ManagedCode
