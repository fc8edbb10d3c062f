import ManagedCode.Execution.Task
import ManagedCode.Machine.Exec

/-!
# Steps

One instruction, up to the point where another method takes over. `step` changes the running frame
and the objects and says where execution goes on: at the next instruction, at an offset, in a method
that is called, or outside because the method is left.
-/

namespace ManagedCode

/-- Where execution goes on. -/
inductive Flow where
  /-- At the next instruction. -/
  | next
  /-- At the instruction that starts at an offset. -/
  | jump (target : UInt32)
  /-- In another method, then at the next instruction. The result of the call is pushed, and after
  it `created`, the object that is constructed. -/
  | call (method : MethodId) (arguments : List Value) (created : Option Value)
  /-- In the caller. -/
  | leave
  deriving DecidableEq, Repr

namespace Exec

/-- Takes the top values from the evaluation stack of the running method, the top first. -/
def takeTop (count : Nat) : Exec (List Value) := fun m =>
  match m.calls.top? with
  | none => if count = 0 then .ok [] m else .error (.stackUnderflow Machine.hostName) m
  | some frame =>
    if frame.stack.length < count then .error (.stackUnderflow m.runningMethod) m
    else
      .ok (frame.stack.take count)
        { m with calls := m.calls.modifyTop fun frame =>
            { frame with stack := frame.stack.drop count } }

/-- Takes the arguments of a call from the evaluation stack of the running method. -/
def takeArguments (id : MethodId) : Exec (List Value) := do
  let method ← query fun m => .ok (m.catalog.method id)
  let taken ← takeTop method.argumentCount
  query fun m =>
    if m.options.argumentOrder = .pushed ∨ method.isStatic ∨ taken.length ≤ 1 then
      .ok taken.reverse
    else .ok (m.orderArguments method.declaringType taken)

/-- The method that a reference names. -/
def resolveMethod (ref : MethodRef) : Exec MethodId :=
  query fun m => (m.catalog.resolveMethod ref).mapError Fault.resolve

/-- The type that a reference names. -/
def resolveType (ref : TypeRef) : Exec TypeId :=
  query fun m => (m.catalog.resolveType ref).mapError Fault.resolve

/-- The method that runs in place of `id` for the receiver on the evaluation stack. -/
def virtualTarget (id : MethodId) : Exec MethodId := query fun m =>
  let method := m.catalog.method id
  if method.isStatic || !method.isOverridable then .ok id
  else
    match m.calls.top?.bind (·.peek? method.arity) with
    | some (.ref handle) => do
      let object ← m.object handle
      return (m.catalog.findOverride? object.type method.name method.arity).getD id
    | _ => .ok id

/-- Puts a value beneath the top `depth` values of the evaluation stack of the running method. The
fault names the method for which it is done. -/
def insertBeneath (depth : Nat) (value : Value) (method : String) : Exec Unit := fun m =>
  match m.calls.top? with
  | none => .error (.stackUnderflow Machine.hostName) m
  | some frame =>
    if frame.stack.length < depth then .error (.stackUnderflow method) m
    else
      .ok ()
        { m with calls := m.calls.modifyTop fun frame =>
            { frame with stack := frame.stack.take depth ++ value :: frame.stack.drop depth } }

/-- A value checked against a type; only references are checked. -/
def cast (target : TypeRef) (orNull : Bool) (value : Value) : Exec Value := query fun m =>
  match value with
  | .ref handle => do
    let source := (← m.object handle).type
    let type ← (m.catalog.resolveType target).mapError Fault.resolve
    if m.catalog.isAssignable source type then return value
    else if orNull then return .null
    else throw (.invalidCast (m.catalog.fullName source) target.fullName)
  | value => .ok value

/-- Whether a conditional branch is taken. -/
def branches : BranchTest → Exec Bool
  | .isFalse => return (← pop).isFalse
  | .isTrue => return (← pop).isTrue
  | .compares op => do
    let (a, b) ← popTwo
    check (Value.compare op a b)

/-- Pops a reference. -/
def popHandle : Exec Handle := do
  let value ← pop
  check value.toHandle

/-- Pops an index or count. -/
def popIndex : Exec Int := do
  let value ← pop
  return (← check value.toIndex).toInt

/-- Carries out a task that goes on with the next instruction. -/
def perform : Task → Exec Unit
  | .constant value => push value
  | .loadArgument index => do push (← loadArgument index)
  | .storeArgument index => do storeArgument index (← pop)
  | .loadLocal index => do push (← loadLocal index)
  | .storeLocal index => do storeLocal index (← pop)
  | .duplicate => do
    let value ← pop
    push value
    push value
  | .discard => do let _ ← pop
  | .negate => do push (← check (← pop).negate)
  | .complement => do push (← check (← pop).complement)
  | .binary op => do
    let (a, b) ← popTwo
    push (← check (Value.binary op a b))
  | .compare op => do
    let (a, b) ← popTwo
    push (.ofBool (← check (Value.compare op a b)))
  | .convert conversion => do push (← check (Value.convert conversion (← pop)))
  | .loadString text => do push (← allocString text)
  | .loadField field => do
    let handle ← popHandle
    push (← query (·.fieldOf handle field.name)).2
  | .storeField field => do
    let value ← pop
    let handle ← popHandle
    setField handle field.name value
  | .loadStatic field => do
    let type ← resolveType field.declaringType
    push (← query fun m =>
      .ok ((m.statics.get? type field.name).getD (defaultValue field.fieldType)))
  | .storeStatic field => do
    let type ← resolveType field.declaringType
    setStatic type field.name (← pop)
  | .newArray element => do
    let length ← popIndex
    let length ← query (·.checkArrayLength length)
    push (← allocArray (.zeros (.ofType element) length))
  | .arrayLength => do
    let handle ← popHandle
    let elements ← query (·.arrayOf handle)
    push (.int32 (Int32.ofNat elements.size))
  | .loadElement => do
    let index ← popIndex
    let handle ← popHandle
    push (← query fun m => do (← m.arrayOf handle).get index)
  | .storeElement => do
    let value ← pop
    let index ← popIndex
    let handle ← popHandle
    setElement handle index value
  | .cast target orNull => do push (← cast target orNull (← pop))
  | _ => return ()

/-- Starts the construction of an object: makes it, puts it beneath the arguments of its constructor
and takes these. -/
def construct (ref : MethodRef) : Exec Flow := do
  let id ← resolveMethod ref
  let method ← query fun m => .ok (m.catalog.method id)
  let created := Value.ref (← instantiate method.declaringType)
  insertBeneath method.arity created ref.text
  return .call id (← takeArguments id) (some created)

/-- Evaluates one instruction. -/
def step (inst : Instruction) : Exec Flow :=
  match inst.task with
  | .jump target => return .jump target
  | .branch test target => return if ← branches test then .jump target else .next
  | .switch targets => do
    let index ← check (← pop).toInt32
    if index < 0 then return .next
    else return (targets[index.toInt.toNat]?.map Flow.jump).getD .next
  | .call ref => do
    let id ← resolveMethod ref
    return .call id (← takeArguments id) none
  | .callVirtual ref => do
    let id ← virtualTarget (← resolveMethod ref)
    return .call id (← takeArguments id) none
  | .construct ref => construct ref
  | .leave => return .leave
  | .unsupported => throw (.unsupported inst.offset inst.opcode)
  | .missingOperand => throw (.missingOperand inst.offset inst.opcode)
  | task => do
    perform task
    return .next

end Exec

end ManagedCode
