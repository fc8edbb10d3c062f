import ManagedCode.Machine.Query

/-!
# Computations on a machine

`Exec` is a computation on a machine that may fault; the machine at the fault is kept. The
computations here are the only ones that change a machine while a program runs: they change the
running frame, the objects, the static fields, the console output or the files.
-/

namespace ManagedCode

/-- A computation on a machine that may fault. -/
abbrev Exec := EStateM Fault Machine

/-- What an `Exec` gives: a result or a fault, each with the machine afterwards. -/
abbrev Outcome := EStateM.Result Fault Machine

namespace Exec

/-- Asks the machine something without changing it. -/
def query {α : Type} (f : Machine → Except Fault α) : Exec α := fun m =>
  match f m with
  | .ok a => .ok a m
  | .error fault => .error fault m

/-- A result that does not depend on the machine. -/
def check {α : Type} (result : Except Fault α) : Exec α := query fun _ => result

/-- Changes the machine. -/
def update (f : Machine → Machine) : Exec Unit := fun m => .ok () (f m)

/-! ## The running frame -/

/-- Pushes a value onto the evaluation stack of the running method. -/
def push (value : Value) : Exec Unit := fun m =>
  match m.calls.top? with
  | none => .error (.stackUnderflow Machine.hostName) m
  | some _ => .ok () { m with calls := m.calls.modifyTop (·.push value) }

/-- Pops the value on top of the evaluation stack of the running method. -/
def pop : Exec Value := fun m =>
  match m.calls.top?.bind Frame.pop? with
  | none => .error (.stackUnderflow m.runningMethod) m
  | some (value, frame) => .ok value { m with calls := m.calls.modifyTop fun _ => frame }

/-- Pops two values, and gives them in the order in which they were pushed. -/
def popTwo : Exec (Value × Value) := do
  let b ← pop
  let a ← pop
  return (a, b)

/-- The value of an argument of the running method. -/
def loadArgument (index : Nat) : Exec Value := query fun m =>
  match m.calls.top? with
  | none => .error (.stackUnderflow Machine.hostName)
  | some frame =>
    match frame.arguments[index]? with
    | some value => .ok value
    | none => .error (.indexOutOfRange .argument index frame.arguments.length)

/-- Replaces an argument of the running method. -/
def storeArgument (index : Nat) (value : Value) : Exec Unit := do
  let _ ← loadArgument index
  update fun m =>
    { m with calls := m.calls.modifyTop fun frame =>
        { frame with arguments := frame.arguments.set index value } }

/-- The value of a local of the running method. -/
def loadLocal (index : Nat) : Exec Value := query fun m =>
  match m.calls.top? with
  | none => .error (.stackUnderflow Machine.hostName)
  | some frame =>
    match frame.locals[index]? with
    | some value => .ok value
    | none => .error (.indexOutOfRange .variable index frame.locals.size)

/-- Replaces a local of the running method. -/
def storeLocal (index : Nat) (value : Value) : Exec Unit := do
  let _ ← loadLocal index
  update fun m =>
    { m with calls := m.calls.modifyTop fun frame =>
        { frame with locals := frame.locals.setIfInBounds index value } }

/-! ## Objects -/

/-- Stores an object, unless the heap is full. -/
def store (object : Object) : Exec Handle := fun m =>
  if m.heap.isFull then .error (.heap (.full m.heap.capacity)) m
  else
    let (handle, heap) := m.heap.add object
    .ok handle { m with heap }

/-- Changes an object. -/
def modifyObject (handle : Handle) (f : Object → Object) : Exec Unit :=
  update fun m => { m with heap := m.heap.modify handle f }

/-- The slots of a new object of a type. -/
def initialSlots (m : Machine) (type : TypeId) : List Slot :=
  if type = m.core.list then [.list #[]]
  else if type = m.core.string then [.text ""]
  else (m.catalog.type type).fields.map fun field => .value (defaultValue field.fieldType)

/-- Makes an object of a type with initial slots. -/
def instantiate (type : TypeId) : Exec Handle := do
  let slots ← query fun m => .ok (initialSlots m type)
  store ⟨type, slots⟩

/-- Makes a string object. -/
def allocString (text : String) : Exec Value := do
  let type ← query fun m => .ok m.core.string
  return .ref (← store ⟨type, [.text text]⟩)

/-- Makes an array object, which also keeps its length in a field. -/
def allocArray (elements : Elements) : Exec Value := do
  let length ← query (·.checkArrayLength elements.size)
  let type ← query fun m => .ok m.core.array
  return .ref (← store ⟨type, [.array elements, .value (.int32 (Int32.ofNat length))]⟩)

/-- Makes a list object. -/
def allocList (items : Array Value) : Exec Value := do
  let type ← query fun m => .ok m.core.list
  return .ref (← store ⟨type, [.list items]⟩)

/-- Replaces the items of a list. -/
def setItems (handle : Handle) (items : Array Value) : Exec Unit :=
  modifyObject handle (·.setSlot 0 (.list items))

/-- Replaces an element of an array. -/
def setElement (handle : Handle) (index : Int) (value : Value) : Exec Unit := do
  let (position, stored) ← query fun m => do (← m.arrayOf handle).plan index value
  modifyObject handle (·.modifySlot 0 fun
    | .array elements => .array (elements.put position stored)
    | slot => slot)

/-- Replaces the value of a field. -/
def setField (handle : Handle) (name : String) (value : Value) : Exec Unit := do
  let (slot, _) ← query (·.fieldOf handle name)
  modifyObject handle (·.setSlot slot (.value value))

/-- Stores a static field. -/
def setStatic (type : TypeId) (name : String) (value : Value) : Exec Unit :=
  update fun m => { m with statics := m.statics.set type name value }

/-! ## The outside -/

/-- Writes to the console. -/
def write (text : String) : Exec Unit := update fun m => { m with output := m.output ++ text }

/-- Faults in the name of the running method. -/
def fail {α : Type} (message : String) : Exec α :=
  query fun m => .error (.native m.runningMethod message)

/-- Reads the text of a file. -/
def readFile (path : String) : Exec String :=
  query fun m => (m.files.readText path).mapError (Fault.file path)

/-- Writes a text to a file. -/
def writeFile (path text : String) : Exec Unit := fun m =>
  match m.files.writeText path text with
  | .ok files => .ok () { m with files }
  | .error error => .error (.file path error) m

end Exec

end ManagedCode
