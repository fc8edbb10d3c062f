import ManagedCode.Bytes
import ManagedCode.Catalog.Ancestry
import ManagedCode.Catalog.Basic
import ManagedCode.Catalog.Lookup
import ManagedCode.CommandLine.Command
import ManagedCode.CommandLine.Report
import ManagedCode.Execution.Run
import ManagedCode.Execution.Step
import ManagedCode.Execution.Task
import ManagedCode.Fault
import ManagedCode.Files.Basic
import ManagedCode.Files.Path
import ManagedCode.Floating.Arithmetic
import ManagedCode.Floating.Decimal
import ManagedCode.Floating.Format
import ManagedCode.Floating.Numeral
import ManagedCode.Handle
import ManagedCode.Heap.Basic
import ManagedCode.Heap.Collection
import ManagedCode.Heap.Object
import ManagedCode.Image.Basic
import ManagedCode.Image.Declaration
import ManagedCode.Image.Document
import ManagedCode.Instruction.Basic
import ManagedCode.Instruction.Decoding
import ManagedCode.Instruction.Immediate
import ManagedCode.IntRange
import ManagedCode.Json.Basic
import ManagedCode.Json.Content
import ManagedCode.Json.Numeral
import ManagedCode.Json.Reading
import ManagedCode.Json.Writing
import ManagedCode.Library.Native
import ManagedCode.Library.Types
import ManagedCode.Machine.Basic
import ManagedCode.Machine.Exec
import ManagedCode.Machine.Frame
import ManagedCode.Machine.Loading
import ManagedCode.Machine.Query
import ManagedCode.Main
import ManagedCode.Opcode.Basic
import ManagedCode.Opcode.Encoding
import ManagedCode.Proofs.Bytes
import ManagedCode.Proofs.Catalog.Agreement
import ManagedCode.Proofs.Catalog.Ancestry
import ManagedCode.Proofs.Catalog.Bodies
import ManagedCode.Proofs.Catalog.Building
import ManagedCode.Proofs.Catalog.Conservation
import ManagedCode.Proofs.Catalog.Constructors
import ManagedCode.Proofs.Catalog.Cycles
import ManagedCode.Proofs.Catalog.Extension
import ManagedCode.Proofs.Catalog.Following
import ManagedCode.Proofs.Catalog.Inheriting
import ManagedCode.Proofs.Catalog.Naming
import ManagedCode.Proofs.Catalog.Numbering
import ManagedCode.Proofs.Catalog.Rejection
import ManagedCode.Proofs.Catalog.Subtyping
import ManagedCode.Proofs.Execution.ArrayLengths
import ManagedCode.Proofs.Execution.Attainability
import ManagedCode.Proofs.Execution.CallStack
import ManagedCode.Proofs.Execution.Changes
import ManagedCode.Proofs.Execution.Composition
import ManagedCode.Proofs.Execution.Construction
import ManagedCode.Proofs.Execution.Dispatch
import ManagedCode.Proofs.Execution.Effects
import ManagedCode.Proofs.Execution.Evaluation
import ManagedCode.Proofs.Execution.FieldStorage
import ManagedCode.Proofs.Execution.Footprints
import ManagedCode.Proofs.Execution.Histories
import ManagedCode.Proofs.Execution.Instructions
import ManagedCode.Proofs.Execution.Invariants
import ManagedCode.Proofs.Execution.Jumps
import ManagedCode.Proofs.Execution.Layout
import ManagedCode.Proofs.Execution.Numbering
import ManagedCode.Proofs.Execution.Operands
import ManagedCode.Proofs.Execution.Operations
import ManagedCode.Proofs.Execution.Permanence
import ManagedCode.Proofs.Execution.Receivers
import ManagedCode.Proofs.Execution.Safety
import ManagedCode.Proofs.Execution.Sequences
import ManagedCode.Proofs.Execution.Sites
import ManagedCode.Proofs.Execution.Termination
import ManagedCode.Proofs.Heap.Collecting
import ManagedCode.Proofs.Heap.Elements
import ManagedCode.Proofs.Heap.Growth
import ManagedCode.Proofs.Heap.Objects
import ManagedCode.Proofs.Heap.Reachability
import ManagedCode.Proofs.Heap.Requests
import ManagedCode.Proofs.Heap.Staleness
import ManagedCode.Proofs.Heap.Storage
import ManagedCode.Proofs.Image.RoundTrip
import ManagedCode.Proofs.Instruction.Grammar
import ManagedCode.Proofs.Instruction.Modes
import ManagedCode.Proofs.Instruction.Operands
import ManagedCode.Proofs.Instruction.Strict
import ManagedCode.Proofs.Json.RoundTrip
import ManagedCode.Proofs.Library.Calls
import ManagedCode.Proofs.Library.Lists
import ManagedCode.Proofs.Library.Natives
import ManagedCode.Proofs.Library.Ranges
import ManagedCode.Proofs.Library.Splitting
import ManagedCode.Proofs.Machine.Answers
import ManagedCode.Proofs.Machine.References
import ManagedCode.Proofs.Opcode.Encoding
import ManagedCode.Proofs.Renaming.Alike
import ManagedCode.Proofs.Renaming.Answers
import ManagedCode.Proofs.Renaming.Collections
import ManagedCode.Proofs.Renaming.Guesses
import ManagedCode.Proofs.Renaming.Isolation
import ManagedCode.Proofs.Renaming.Limits
import ManagedCode.Proofs.Renaming.Linked
import ManagedCode.Proofs.Renaming.Lockstep
import ManagedCode.Proofs.Renaming.Natives
import ManagedCode.Proofs.Renaming.Pairs
import ManagedCode.Proofs.Renaming.Twins
import ManagedCode.Proofs.Source.Assembled
import ManagedCode.Proofs.Source.Displacements
import ManagedCode.Proofs.Source.Interning
import ManagedCode.Proofs.Source.Layout
import ManagedCode.Proofs.Source.ListingLines
import ManagedCode.Proofs.Source.ListingOperands
import ManagedCode.Proofs.Source.Literals
import ManagedCode.Proofs.Source.RoundTrip
import ManagedCode.Proofs.Text.Division
import ManagedCode.Proofs.Text.Numerals
import ManagedCode.Proofs.Value.Arithmetic
import ManagedCode.Proofs.Value.Comparison
import ManagedCode.Proofs.Value.Conversion
import ManagedCode.Proofs.Value.Integers
import ManagedCode.Proofs.Widening.Bodies
import ManagedCode.Proofs.Widening.Loading
import ManagedCode.Proofs.Widening.Runs
import ManagedCode.Proofs.Widening.Sources
import ManagedCode.Reference.Member
import ManagedCode.Reference.Signature
import ManagedCode.Reference.TypeRef
import ManagedCode.Source.Assembling
import ManagedCode.Source.Error
import ManagedCode.Source.Layout
import ManagedCode.Source.Literals
import ManagedCode.Text.Blank
import ManagedCode.Text.Hidden
import ManagedCode.Text.Lines
import ManagedCode.Text.Literal
import ManagedCode.Text.Numeral
import ManagedCode.Text.Quoted
import ManagedCode.Token.Basic
import ManagedCode.Token.Map
import ManagedCode.Value.Arithmetic
import ManagedCode.Value.Basic
import ManagedCode.Value.Comparison
import ManagedCode.Value.Conversion
