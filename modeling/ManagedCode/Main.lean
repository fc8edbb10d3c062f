import ManagedCode.CommandLine.Report

/-!
# The command line

Reads the files that a command needs from the disk, carries the command out on them and writes what
it changed. A command is carried out on the files read so far; when it misses one, that file is read
and the command is carried out again from the start.
-/

namespace ManagedCode.Program

/-- A bound that no run reaches in practice. -/
def fuel : Nat := 0x4000000000000000

/-- How to use the program. -/
def usage : String :=
  "Usage: managed-code run [--max-depth N] [--heap-capacity N] [--max-array-length N] " ++
    "[--strict-arguments] MODULE [ARGUMENT...]\n       managed-code disasm MODULE\n"

/-- Reads what is at a place: a file, a directory or nothing. -/
def readPlace (files : Files) (place : Place) : IO Files := do
  if (files.entry? place).isSome then return files
  try
    let bytes ← IO.FS.readBinFile place.text
    return files.put place bytes.toList
  catch
    | .inappropriateType .. => return { files with directories := place :: files.directories }
    | _ => return files

/-- Reads what is at the places that a path leads through. -/
def readMissing (files : Files) (path : String) : IO Files :=
  match Path.ofText path with
  | .error _ => return files
  | .ok path => path.places.foldlM readPlace files

/-- The path of the file that a command missed. -/
def missingPath? : Report → Option String
  | ⟨_, some (.reading path .notFound), _⟩ => some path
  | ⟨_, some (.running (.file path .notFound)), _⟩ => some path
  | _ => none

/-- Carries out a command on the files that it needs, and gives these with the report. -/
partial def perform (files : Files) (command : Command) : IO (Files × Option Report) := do
  let report? := command.perform fuel files
  match report?.bind missingPath? with
  | none => return (files, report?)
  | some path =>
    let known ← readMissing files path
    if known = files then return (files, report?) else perform known command

/-- Writes the files that a command changed to the disk. -/
def writeFiles (before after : Files) : IO Unit :=
  (after.changedSince before).forM fun (place, bytes) =>
    IO.FS.writeBinFile place.text ⟨bytes.toArray⟩

end ManagedCode.Program

/-- The program. -/
def main (words : List String) : IO UInt32 := do
  match ManagedCode.Command.ofWords? words with
  | none =>
    IO.eprint ManagedCode.Program.usage
    return 2
  | some command =>
    match ← ManagedCode.Program.perform .empty command with
    | (_, none) =>
      IO.eprint "Error: the program does not end\n"
      return 1
    | (files, some report) =>
      ManagedCode.Program.writeFiles files report.files
      IO.print report.output
      IO.eprint report.errorText
      return report.exitCode.toUInt32
