import LongMode.Instances
import LongMode.Text.Blank
import LongMode.Text.Letter
import LongMode.Text.Numeral
import LongMode.Text.Printable
import LongMode.Text.DecimalDigit
import LongMode.Text.Quoted
import LongMode.Text.Literal
import LongMode.Arith.Word
import LongMode.Register.Width
import LongMode.Register.View
import LongMode.Register.Vector
import LongMode.Register.Name
import LongMode.Register.Bank
import LongMode.Flag
import LongMode.Memory
import LongMode.Machine.Basic
import LongMode.Machine.Integrity
import LongMode.Machine.Difference
import LongMode.Arith.Sum
import LongMode.Arith.Product
import LongMode.Arith.Shift
import LongMode.Arith.Scan
import LongMode.Instruction.Mnemonic
import LongMode.Instruction.Operand
import LongMode.Instruction.Basic
import LongMode.Assembly.Error
import LongMode.Assembly.Comment
import LongMode.Assembly.Piece
import LongMode.Assembly.AddressExpression
import LongMode.Assembly.OperandText
import LongMode.Assembly.WidthInference
import LongMode.Assembly.Line
import LongMode.Assembly.Program
import LongMode.MachineCode.Layout
import LongMode.MachineCode.Error
import LongMode.MachineCode.Fields
import LongMode.MachineCode.Encode
import LongMode.Execution.Fault
import LongMode.Execution.Transaction
import LongMode.Execution.Result
import LongMode.Execution.Operation
import LongMode.Execution.Semantics
import LongMode.Execution.Registry
import LongMode.Session.Trace
import LongMode.Session.Basic
import LongMode.Session.Display
import LongMode.CommandLine.Options
import LongMode.CommandLine.Run
import LongMode.Workbench.Examples
import LongMode.Workbench.Panels
import LongMode.Main
import LongMode.Proofs.Outcome
import LongMode.Proofs.Arith.Signed
import LongMode.Proofs.Text.Blank
import LongMode.Proofs.Text.Numeral
import LongMode.Proofs.Register.Name
import LongMode.Proofs.Assembly.Shape
import LongMode.Proofs.Assembly.Pieces
import LongMode.Proofs.Assembly.AddressText
import LongMode.Proofs.Assembly.RoundTrip
import LongMode.Proofs.Execution.Refusal
import LongMode.Proofs.Execution.Staging
import LongMode.Proofs.MachineCode.Checks
import LongMode.Proofs.MachineCode.Room
import LongMode.Proofs.MachineCode.Encodable
import LongMode.Proofs.MachineCode.Agreement
import LongMode.Proofs.MachineCode.Decode.Fields
import LongMode.Proofs.MachineCode.Decode.Table
import LongMode.Proofs.MachineCode.Decode.Spelling
import LongMode.Proofs.MachineCode.Decode.Pairs
import LongMode.Proofs.MachineCode.Decode.Forms
import LongMode.Proofs.MachineCode.Decode.Canonical
import LongMode.Proofs.MachineCode.Decode.Unique
import LongMode.Proofs.Execution.Writes
import LongMode.Proofs.Machine.Range
import LongMode.Proofs.Session.Command
import LongMode.Proofs.Session.Invariant
import LongMode.Proofs.Session.Replay
import LongMode.Proofs.Session.Run
import LongMode.Proofs.Assembly.Columns
import LongMode.Proofs.Assembly.Layout
import LongMode.Proofs.Session.Block
import LongMode.Proofs.Untyped.Basic
import LongMode.Proofs.Untyped.Word
import LongMode.Proofs.Untyped.Encoding
import LongMode.Proofs.Untyped.Frame
import LongMode.Proofs.Untyped.Encoders
import LongMode.Proofs.Untyped.Transaction
import LongMode.Proofs.Untyped.Execution
import LongMode.Proofs.Untyped.Handlers
import LongMode.Proofs.Untyped.Reading
import LongMode.Proofs.Untyped.Readers
import LongMode.Proofs.Untyped.Session
import LongMode.Proofs.Register.Bits
import LongMode.Proofs.Machine.Memory
import LongMode.Proofs.Execution.Choice
import LongMode.Proofs.Execution.Footprint
import LongMode.Proofs.Execution.Frame
import LongMode.Proofs.Execution.Exchange
import LongMode.Proofs.Session.Bookkeeping
import LongMode.Proofs.Untyped.Shape
import LongMode.Proofs.Execution.Accesses
import LongMode.Proofs.Execution.Faults
import LongMode.Proofs.MachineCode.Decode.Operands
import LongMode.Proofs.MachineCode.Decode.Recovery
import LongMode.Proofs.Assembly.AddressTerm
import LongMode.Proofs.Assembly.AddressSum
import LongMode.Proofs.Arith.Bits
import LongMode.Proofs.Arith.Sum
import LongMode.Proofs.Execution.Comparison
import LongMode.Proofs.Arith.Shift
import LongMode.Proofs.Arith.Rotation
import LongMode.Proofs.Execution.Shift
import LongMode.Proofs.Machine.Number
import LongMode.Proofs.Arith.Chain
import LongMode.Proofs.Execution.Sequence
import LongMode.Proofs.Execution.CarryChain
import LongMode.Proofs.Execution.Division
import LongMode.Proofs.Session.Stack
import LongMode.Proofs.Arith.Scan
import LongMode.Proofs.Execution.Scan
import LongMode.Proofs.Execution.UpperHalf
import LongMode.Proofs.Execution.Extension
import LongMode.Proofs.Machine.Aliasing
import LongMode.Proofs.Execution.PackedSum
import LongMode.Proofs.Assembly.Position
import LongMode.Proofs.Assembly.Blame
import LongMode.Proofs.Session.Account
import LongMode.Proofs.Assembly.Bracket
import LongMode.Proofs.Assembly.Splitting
import LongMode.Proofs.Machine.ByteStore
import LongMode.Proofs.Execution.Move
import LongMode.Proofs.Assembly.LetterCase
import LongMode.Proofs.Assembly.Respelling
import LongMode.Proofs.Assembly.Program
import LongMode.Proofs.Assembly.Numeral
