import ManagedCode.CommandLine.Command
import ManagedCode.Execution.Run
import ManagedCode.Image.Document
import ManagedCode.Machine.Loading

/-!
# Reports

What carrying out a command leaves behind: the console output, the reason why it failed, if it did,
and the files.
-/

namespace ManagedCode

/-- Why a command failed. -/
inductive Failure where
  /-- The module file cannot be read. -/
  | reading (path : String) (error : FileError)
  /-- The module file holds no module. -/
  | parsing (path : String) (error : JsonError)
  /-- The module cannot be loaded. -/
  | loading (name : String) (fault : Fault)
  /-- The module cannot be listed. -/
  | listing (error : DecodeError)
  /-- The program failed. -/
  | running (fault : Fault)
  deriving DecidableEq, Repr

namespace Failure

/-- The text with every line but the first indented. -/
def indented (text : String) : String :=
  String.ofList (text.toList.flatMap fun c => if c == '\n' then "\n    ".toList else [c])

/-- The wording of a failure with a cause. -/
def because (what cause : String) : String :=
  what ++ "\n\nCaused by:\n    " ++ indented cause

/-- The wording of the failure. -/
def message : Failure → String
  | .reading path error => because ("reading " ++ path) error.message
  | .parsing path error => because ("parsing " ++ path) error.message
  | .loading name fault => because ("loading " ++ name) fault.message
  | .listing error => error.message
  | .running fault => fault.message

end Failure

/-- What carrying out a command leaves behind. -/
structure Report where
  /-- The console output. -/
  output : String
  /-- Why the command failed, if it did. -/
  failure : Option Failure
  /-- The files afterwards. -/
  files : Files
  deriving DecidableEq, Repr

namespace Report

/-- The exit code of the command. -/
def exitCode (report : Report) : Nat := if report.failure.isSome then 1 else 0

/-- The text for the error output. -/
def errorText (report : Report) : String :=
  match report.failure with
  | some failure => "Error: " ++ failure.message ++ "\n"
  | none => ""

end Report

namespace Command

/-- The module in the file at a path. -/
def readModule (files : Files) (path : String) : Except Failure Image := do
  let text ← (files.readText path).mapError (Failure.reading path)
  (Image.ofText text).mapError (Failure.parsing path)

/-- The report of a run that has ended. The result is shown on the console. -/
def reportRun : Outcome (Option Value) → Report
  | .error fault m => ⟨m.output, some (.running fault), m.files⟩
  | .ok none m => ⟨m.output, none, m.files⟩
  | .ok (some value) m =>
    match m.display value with
    | .ok text => ⟨m.output ++ text ++ "\n", none, m.files⟩
    | .error fault => ⟨m.output, some (.running fault), m.files⟩

/-- Runs the program in a module. -/
def runModule (fuel : Nat) (files : Files) (options : Options) (image : Image)
    (arguments : List String) : Option Report :=
  match (Machine.new options files).load image with
  | .error fault m => some ⟨m.output, some (.loading image.name fault), m.files⟩
  | .ok _ m => (m.start fuel arguments).map reportRun

/-- Carries out a command; `none` if the fuel runs out. -/
def perform (fuel : Nat) (files : Files) : Command → Option Report
  | .run options path arguments =>
    match readModule files path with
    | .error failure => some ⟨"", some failure, files⟩
    | .ok image => runModule fuel files options image arguments
  | .list path =>
    some (match readModule files path with
      | .error failure => ⟨"", some failure, files⟩
      | .ok image =>
        match image.listing with
        | .error error => ⟨"", some (.listing error), files⟩
        | .ok text => ⟨text ++ "\n", none, files⟩)

end Command

end ManagedCode
