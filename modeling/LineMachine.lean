import LineMachine.Cbor.Item
import LineMachine.Cbor.Read
import LineMachine.Cbor.Write
import LineMachine.Color
import LineMachine.CommandLine.Command
import LineMachine.CommandLine.Flags
import LineMachine.Config
import LineMachine.Fault
import LineMachine.Input
import LineMachine.Log
import LineMachine.Machine.Basic
import LineMachine.Machine.Operands
import LineMachine.Machine.Run
import LineMachine.Machine.Step
import LineMachine.Main
import LineMachine.Memory
import LineMachine.Number.Binary64
import LineMachine.Number.Decimal
import LineMachine.Number.FloatReader
import LineMachine.Number.FloatText
import LineMachine.Number.Floor
import LineMachine.Number.Literal
import LineMachine.Number.Shortest
import LineMachine.Program.Basic
import LineMachine.Program.Line
import LineMachine.Program.Listing
import LineMachine.Program.Opcode
import LineMachine.Program.Operand
import LineMachine.Program.Template
import LineMachine.Proofs.Blocks
import LineMachine.Proofs.Brackets
import LineMachine.Proofs.Branching
import LineMachine.Proofs.CborItems
import LineMachine.Proofs.CborRecords
import LineMachine.Proofs.Changes
import LineMachine.Proofs.Characters
import LineMachine.Proofs.CommandRuns
import LineMachine.Proofs.Comparisons
import LineMachine.Proofs.CorrectRounding
import LineMachine.Proofs.Execution
import LineMachine.Proofs.FloatBits
import LineMachine.Proofs.FloatFormats
import LineMachine.Proofs.FloatRemainders
import LineMachine.Proofs.FloatTexts
import LineMachine.Proofs.FloorDivision
import LineMachine.Proofs.FormattedRuns
import LineMachine.Proofs.Formatting
import LineMachine.Proofs.Frame
import LineMachine.Proofs.Gas
import LineMachine.Proofs.Guarded
import LineMachine.Proofs.History
import LineMachine.Proofs.InputLines
import LineMachine.Proofs.Insertion
import LineMachine.Proofs.IntegerTexts
import LineMachine.Proofs.Labels
import LineMachine.Proofs.Layout
import LineMachine.Proofs.Lexing
import LineMachine.Proofs.LoadedLines
import LineMachine.Proofs.Listing
import LineMachine.Proofs.Loading
import LineMachine.Proofs.Lockstep
import LineMachine.Proofs.OperatorTable
import LineMachine.Proofs.Presentation
import LineMachine.Proofs.Repetition
import LineMachine.Proofs.Reporting
import LineMachine.Proofs.Resetting
import LineMachine.Proofs.Resumption
import LineMachine.Proofs.RoundTrip
import LineMachine.Proofs.Rounding
import LineMachine.Proofs.SafeDefaults
import LineMachine.Proofs.Safety
import LineMachine.Proofs.SnapshotIdentity
import LineMachine.Proofs.SnapshotItems
import LineMachine.Proofs.Spacing
import LineMachine.Proofs.StackLocality
import LineMachine.Proofs.Stuttering
import LineMachine.Proofs.Templates
import LineMachine.Proofs.Termination
import LineMachine.Proofs.Trimming
import LineMachine.Proofs.TruthValues
import LineMachine.Proofs.Variables
import LineMachine.Random.LaggedFibonacci
import LineMachine.Random.Noise
import LineMachine.Random.Source
import LineMachine.Snapshot.Basic
import LineMachine.Snapshot.Decode
import LineMachine.Snapshot.Encode
import LineMachine.Snapshot.Report
import LineMachine.Storage.Disk
import LineMachine.Storage.Path
import LineMachine.Storage.Tree
import LineMachine.Text.Blank
import LineMachine.Text.Bytes
import LineMachine.Text.Letter
import LineMachine.Text.Printable
import LineMachine.Text.Quoted
import LineMachine.Text.Utf8
import LineMachine.Toml.Expr
import LineMachine.Toml.Number
import LineMachine.Toml.Read
import LineMachine.Toml.Str
import LineMachine.Toml.Table
import LineMachine.Toml.Time
import LineMachine.Value
import LineMachine.Value.Arithmetic
