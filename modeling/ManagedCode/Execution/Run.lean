import ManagedCode.Execution.Step
import ManagedCode.Library.Types

/-!
# Runs

A call gets a frame, does its work in it and leaves it again, whether the work succeeds or faults.
The work of a native method is one computation; that of any other method is to step through its
instructions, where each call among them is made in the same way.

A program need not end, so every run takes fuel: `none` says that the fuel ran out, and a run that
ends gives the same outcome with more fuel.
-/

namespace ManagedCode

namespace Exec

/-- Starts a frame for a call of `id` by the running method. -/
def enter (id : MethodId) (arguments : List Value) : Exec Unit := fun m =>
  let caller := m.calls.top?.map (·.method)
  match m.calls.push (.start caller id arguments m.options.locals) with
  | .ok calls => .ok () { m with calls }
  | .error fault => .error fault m

/-- Takes the result of `id`, whose frame was left last, from the evaluation stack of that frame. -/
def takeResult (id : MethodId) : Exec (Option Value) := fun m =>
  if (m.catalog.method id).returnsValue then
    match m.calls.lastExited.bind Frame.pop? with
    | some (value, frame) =>
      .ok (some value) { m with calls := { m.calls with lastExited := some frame } }
    | none => .error (.invalidReturn (m.catalog.methodName id)) m
  else .ok none m

/-- Pushes the values that a call leaves: its result, then the object that it constructed. -/
def pushResults (result created : Option Value) : Exec Unit := do
  result.forM push
  created.forM push

/-- Does the work of a native method. -/
def runNative (id : MethodId) : Exec Unit := do
  let (typeName, method) ← query fun m =>
    let method := m.catalog.method id
    .ok (m.catalog.fullName method.declaringType, method)
  match Library.native? typeName method.name method.arity with
  | some native => native.run
  | none => throw (.resolve (.noNative typeName method.name method.arity))

end Exec

namespace Machine

/-- The machine after the running frame is left. -/
def exitFrame (m : Machine) : Machine :=
  match m.calls.pop? with
  | some (_, calls) => { m with calls }
  | none => m

/-- What a call of `id` gives when its work has ended. The frame is left in any case. -/
def leave (id : MethodId) : Outcome Unit → Outcome (Option Value)
  | .ok _ m => Exec.takeResult id m.exitFrame
  | .error fault m => .error fault m.exitFrame

/-- Calls a method, where `run` steps through the instructions of a body. -/
def callWith (run : Body → Machine → Option (Outcome Unit)) (id : MethodId)
    (arguments : List Value) (m : Machine) : Option (Outcome (Option Value)) :=
  match Exec.enter id arguments m with
  | .error fault m => some (.error fault m)
  | .ok _ m =>
    let method := m.catalog.method id
    let worked := if method.isNative then some (Exec.runNative id m) else run method.body m
    worked.map (leave id)

/-- Steps through the instructions of the running method from a position on, until one of them
leaves the method or the last one has been passed. -/
def runBody : (fuel : Nat) → Body → (position : Nat) → Machine → Option (Outcome Unit)
  | 0, _, _, _ => none
  | fuel + 1, body, position, m =>
    match body.get? position with
    | none => some (.ok () m)
    | some inst =>
      match Exec.step inst m with
      | .error fault m => some (.error fault m)
      | .ok .leave m => some (.ok () m)
      | .ok .next m => runBody fuel body (position + 1) m
      | .ok (.jump target) m =>
        match body.indexOf? target with
        | some position => runBody fuel body position m
        | none => some (.error (.badBranchTarget target) m)
      | .ok (.call id arguments created) m =>
        match callWith (fun callee m => runBody fuel callee 0 m) id arguments m with
        | none => none
        | some (.error fault m) => some (.error fault m)
        | some (.ok result m) =>
          match Exec.pushResults result created m with
          | .error fault m => some (.error fault m)
          | .ok _ m => runBody fuel body (position + 1) m

/-- Calls a method with arguments, the receiver first, and gives its result. -/
def call (fuel : Nat) (id : MethodId) (arguments : List Value) (m : Machine) :
    Option (Outcome (Option Value)) :=
  callWith (fun body m => runBody fuel body 0 m) id arguments m

/-- Calls a method on behalf of the running one: the arguments are taken from its evaluation stack
and the result is pushed onto it. When no method runs, the result is given back. -/
def execute (fuel : Nat) (id : MethodId) (m : Machine) : Option (Outcome (Option Value)) :=
  match Exec.takeArguments id m with
  | .error fault m => some (.error fault m)
  | .ok arguments m =>
    (call fuel id arguments m).map fun
      | .error fault m => .error fault m
      | .ok result m =>
        match result, m.calls.top? with
        | some value, some _ => .ok none { m with calls := m.calls.modifyTop (·.push value) }
        | result, _ => .ok result m

/-- The arguments of the entry point `id`: none if it has no parameters, else an array of strings.
-/
def startArguments (id : MethodId) (texts : List String) : Exec (List Value) := do
  let arity ← Exec.query fun m => .ok (m.catalog.method id).arity
  if arity = 0 then return []
  let strings ← texts.mapM Exec.allocString
  return [← Exec.allocArray ⟨.any, strings.toArray⟩]

/-- Runs the program: calls the entry point of the loaded modules. -/
def start (fuel : Nat) (texts : List String) (m : Machine) : Option (Outcome (Option Value)) :=
  match m.catalog.entryPoint? with
  | none => some (.error .noEntryPoint m)
  | some id =>
    match startArguments id texts m with
    | .error fault m => some (.error fault m)
    | .ok arguments m => call fuel id arguments m

end Machine

end ManagedCode
