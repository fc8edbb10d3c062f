import ManagedCode.Catalog.Ancestry
import ManagedCode.Files.Basic
import ManagedCode.Heap.Collection
import ManagedCode.Machine.Frame

/-!
# The machine

The whole state of a run: the catalog, the heap, the call stack, the static fields, the console
output and the files.
-/

namespace ManagedCode

/-- How the arguments of an instance call are taken from the evaluation stack. -/
inductive ArgumentOrder where
  /-- They are taken the last one first, and put into the order of pushing unless the first one
  taken is an instance of exactly the declaring type. -/
  | guessed
  /-- They keep the order in which they were pushed. -/
  | pushed
  deriving DecidableEq, Repr

/-- The limits and conventions of a machine. -/
structure Options where
  /-- The greatest number of nested calls. -/
  maxCallDepth : Nat := 25
  /-- The greatest number of live objects. -/
  heapCapacity : Nat := 65536
  /-- The number of locals of a frame. -/
  locals : Nat := 256
  /-- The greatest number of elements of an array. -/
  maxArrayLength : Nat := 1048576
  /-- How arguments are taken. -/
  argumentOrder : ArgumentOrder := .guessed
  deriving DecidableEq, Repr

/-- The built-in types of which the machine itself makes objects. -/
structure CoreTypes where
  string : TypeId
  array : TypeId
  list : TypeId
  deriving DecidableEq, Repr

/-- The static fields that were stored, by type and name. -/
structure Statics where
  /-- Each field once. -/
  entries : List ((TypeId × String) × Value)
  deriving DecidableEq, Repr

namespace Statics

/-- No field was stored yet. -/
def empty : Statics := ⟨[]⟩

/-- The value of a field that was stored. -/
def get? (statics : Statics) (type : TypeId) (name : String) : Option Value :=
  statics.entries.lookup (type, name)

/-- The fields with one stored. -/
def set (statics : Statics) (type : TypeId) (name : String) (value : Value) : Statics :=
  ⟨((type, name), value) :: statics.entries.filter fun entry => entry.1 != (type, name)⟩

/-- The stored values. -/
def values (statics : Statics) : List Value := statics.entries.map (·.2)

end Statics

/-- The state of a run. -/
structure Machine where
  /-- The loaded types and methods. -/
  catalog : Catalog
  /-- The objects. -/
  heap : Heap
  /-- The calls in progress. -/
  calls : CallStack
  /-- The static fields. -/
  statics : Statics
  /-- The types of strings, arrays and lists. -/
  core : CoreTypes
  /-- The limits and conventions. -/
  options : Options
  /-- The console output. -/
  output : String
  /-- The files. -/
  files : Files
  deriving DecidableEq, Repr

namespace Machine

/-- The name that stands for the running method when none runs. -/
def hostName : String := "<host>"

/-- The name of the running method. -/
def runningMethod (m : Machine) : String :=
  match m.calls.top? with
  | some frame => m.catalog.methodName frame.method
  | none => hostName

/-- The handles from which objects can be reached: those in frames and static fields. -/
def roots (m : Machine) : List Handle :=
  (m.calls.frames.flatMap Frame.values ++ m.statics.values).filterMap Value.handle?

/-- Removes every object that can no longer be reached, and says how many these were. -/
def collectGarbage (m : Machine) : Nat × Machine :=
  let (count, heap) := m.heap.collect m.roots
  (count, { m with heap })

/-- The value of a static field, null until it is stored. -/
def staticField (m : Machine) (type : TypeId) (name : String) : Value :=
  (m.statics.get? type name).getD .null

end Machine

end ManagedCode
