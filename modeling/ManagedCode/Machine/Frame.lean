import ManagedCode.Catalog.Basic
import ManagedCode.Value.Basic

/-!
# Frames and the call stack

A frame is the state of one call in progress. The call stack holds the frames of all of them, the
latest on top, up to a limit, and keeps the frame that was left last.
-/

namespace ManagedCode

/-- The state of one call in progress. -/
structure Frame where
  /-- The method that made the call, if a method did. -/
  caller : Option MethodId
  /-- The method that runs. -/
  method : MethodId
  /-- The evaluation stack, the top first. -/
  stack : List Value
  /-- The locals. -/
  locals : Array Value
  /-- The arguments, the receiver first. -/
  arguments : List Value
  deriving DecidableEq, Repr

namespace Frame

/-- The frame of a call that starts. -/
def start (caller : Option MethodId) (method : MethodId) (arguments : List Value) (locals : Nat) :
    Frame :=
  ⟨caller, method, [], Array.replicate locals .null, arguments⟩

/-- The frame with a value pushed. -/
def push (frame : Frame) (value : Value) : Frame := { frame with stack := value :: frame.stack }

/-- The value on top and the frame without it. -/
def pop? (frame : Frame) : Option (Value × Frame) :=
  match frame.stack with
  | [] => none
  | value :: stack => some (value, { frame with stack })

/-- The value `depth` places beneath the top. -/
def peek? (frame : Frame) (depth : Nat) : Option Value := frame.stack[depth]?

/-- The values of the frame. -/
def values (frame : Frame) : List Value := frame.stack ++ frame.locals.toList ++ frame.arguments

end Frame

/-- The frames of the calls in progress. -/
structure CallStack where
  /-- The frames, the latest first. -/
  frames : List Frame
  /-- The greatest number of frames. -/
  maxDepth : Nat
  /-- The frame that was left last. -/
  lastExited : Option Frame
  deriving DecidableEq, Repr

namespace CallStack

/-- The call stack without frames. -/
def empty (maxDepth : Nat) : CallStack := ⟨[], maxDepth, none⟩

/-- The number of frames. -/
def depth (calls : CallStack) : Nat := calls.frames.length

/-- The frame that runs. -/
def top? (calls : CallStack) : Option Frame := calls.frames.head?

/-- The call stack with a frame on top, unless the limit is reached. -/
def push (calls : CallStack) (frame : Frame) : Except Fault CallStack :=
  if calls.maxDepth ≤ calls.depth then .error (.stackOverflow (calls.depth + 1) calls.maxDepth)
  else .ok { calls with frames := frame :: calls.frames }

/-- The top frame, and the call stack that has left it. -/
def pop? (calls : CallStack) : Option (Frame × CallStack) :=
  match calls.frames with
  | [] => none
  | frame :: frames => some (frame, { calls with frames, lastExited := some frame })

/-- The call stack with its top frame changed. -/
def modifyTop (calls : CallStack) (f : Frame → Frame) : CallStack :=
  match calls.frames with
  | [] => calls
  | frame :: frames => { calls with frames := f frame :: frames }

end CallStack

end ManagedCode
