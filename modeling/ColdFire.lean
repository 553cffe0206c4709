import ColdFire.Assembly.Program
import ColdFire.CommandLine.Session
import ColdFire.ControlFlow.Report
import ColdFire.Cpu.Flags
import ColdFire.Execution.Step
import ColdFire.Instruction.Decode
import ColdFire.Instruction.Plan
import ColdFire.Json.Decode
import ColdFire.Json.Value
import ColdFire.Listing
import ColdFire.Main
import ColdFire.Memory.Image
import ColdFire.Memory.Linear
import ColdFire.ObjectFile.FileFormat
import ColdFire.ObjectFile.IntelHex
import ColdFire.ObjectFile.SRecord
import ColdFire.Operand.Code
import ColdFire.Proofs.Assembly.Comments
import ColdFire.Proofs.Assembly.Form
import ColdFire.Proofs.Assembly.Legible
import ColdFire.Proofs.Assembly.ListingLine
import ColdFire.Proofs.Assembly.ListingRequest
import ColdFire.Proofs.Assembly.ListingRoundtrip
import ColdFire.Proofs.Assembly.Lowering
import ColdFire.Proofs.Assembly.Numeral
import ColdFire.Proofs.Assembly.OperandText
import ColdFire.Proofs.Assembly.Passes
import ColdFire.Proofs.Assembly.Reach
import ColdFire.Proofs.Assembly.Reading
import ColdFire.Proofs.Assembly.Reference
import ColdFire.Proofs.Assembly.RegisterList
import ColdFire.Proofs.Assembly.Registers
import ColdFire.Proofs.Assembly.Spelling
import ColdFire.Proofs.Assembly.Splitting
import ColdFire.Proofs.Assembly.StatementText
import ColdFire.Proofs.Assembly.Sum
import ColdFire.Proofs.Catalogue.Forms
import ColdFire.Proofs.ControlFlow.Closed
import ColdFire.Proofs.ControlFlow.Computed
import ColdFire.Proofs.ControlFlow.Coverage
import ColdFire.Proofs.ControlFlow.Cut
import ColdFire.Proofs.ControlFlow.Functions
import ColdFire.Proofs.ControlFlow.Least
import ColdFire.Proofs.ControlFlow.Partition
import ColdFire.Proofs.ControlFlow.Reached
import ColdFire.Proofs.Cpu.CarryOverflow
import ColdFire.Proofs.Cpu.Codes
import ColdFire.Proofs.Cpu.Conditions
import ColdFire.Proofs.Cpu.FlagBits
import ColdFire.Proofs.Cpu.Handler
import ColdFire.Proofs.Cpu.Registers
import ColdFire.Proofs.Cpu.StackPointers
import ColdFire.Proofs.Execution.Access
import ColdFire.Proofs.Execution.Ending
import ColdFire.Proofs.Execution.Entry
import ColdFire.Proofs.Execution.Follow
import ColdFire.Proofs.Execution.Frame
import ColdFire.Proofs.Execution.Handover
import ColdFire.Proofs.Execution.Operations
import ColdFire.Proofs.Execution.PcBase
import ColdFire.Proofs.Execution.Rollback
import ColdFire.Proofs.Execution.Undo
import ColdFire.Proofs.Instruction.Apart
import ColdFire.Proofs.Instruction.Decodable
import ColdFire.Proofs.Instruction.Decoded
import ColdFire.Proofs.Instruction.Demand
import ColdFire.Proofs.Instruction.Extent
import ColdFire.Proofs.Instruction.Namesake
import ColdFire.Proofs.Instruction.Opword
import ColdFire.Proofs.Instruction.PcMark
import ColdFire.Proofs.Instruction.Plain
import ColdFire.Proofs.Instruction.Planned
import ColdFire.Proofs.Instruction.Redecode
import ColdFire.Proofs.Instruction.Redecode.Arithmetic
import ColdFire.Proofs.Instruction.Redecode.Basic
import ColdFire.Proofs.Instruction.Redecode.System
import ColdFire.Proofs.Instruction.Redecode.Transfer
import ColdFire.Proofs.Instruction.Reencode
import ColdFire.Proofs.Instruction.Reencode.Arithmetic
import ColdFire.Proofs.Instruction.Reencode.Basic
import ColdFire.Proofs.Instruction.Reencode.System
import ColdFire.Proofs.Instruction.Reencode.Transfer
import ColdFire.Proofs.Instruction.Regular
import ColdFire.Proofs.Instruction.Taken
import ColdFire.Proofs.Instruction.WordSource
import ColdFire.Proofs.Listing.Tiling
import ColdFire.Proofs.Machine.Agreement
import ColdFire.Proofs.Machine.CarryChain
import ColdFire.Proofs.Machine.Comparison
import ColdFire.Proofs.Machine.Confinement
import ColdFire.Proofs.Machine.Division
import ColdFire.Proofs.Machine.Extended
import ColdFire.Proofs.Machine.Failure
import ColdFire.Proofs.Machine.Footprint
import ColdFire.Proofs.Machine.Instruction
import ColdFire.Proofs.Machine.Nesting
import ColdFire.Proofs.Machine.Recovery
import ColdFire.Proofs.Machine.RegisterLists
import ColdFire.Proofs.Machine.Return
import ColdFire.Proofs.Machine.Shift
import ColdFire.Proofs.Machine.Stacks
import ColdFire.Proofs.Machine.Substitution
import ColdFire.Proofs.Memory.Bytes
import ColdFire.Proofs.Memory.Canonical
import ColdFire.Proofs.Memory.Image
import ColdFire.Proofs.Memory.Lawful
import ColdFire.Proofs.Memory.Linear
import ColdFire.Proofs.Memory.Segments
import ColdFire.Proofs.ObjectFile.Acceptance
import ColdFire.Proofs.ObjectFile.Corruption
import ColdFire.Proofs.ObjectFile.IntelHexRoundtrip
import ColdFire.Proofs.ObjectFile.Record
import ColdFire.Proofs.ObjectFile.SRecordRoundtrip
import ColdFire.Proofs.Operand.Code
import ColdFire.Proofs.Registry.Branches
import ColdFire.Proofs.Registry.CalcSize
import ColdFire.Proofs.Registry.Choose
import ColdFire.Proofs.Registry.DecodeEncode
import ColdFire.Proofs.Registry.Decoded
import ColdFire.Proofs.Registry.EncodeDecode
import ColdFire.Proofs.Registry.Immediates
import ColdFire.Proofs.Registry.Lookup
import ColdFire.Proofs.Registry.Specificity
import ColdFire.Proofs.Registry.Tiers
import ColdFire.Proofs.Text.Cut
import ColdFire.Proofs.Text.Digits
import ColdFire.Proofs.Word.Division
import ColdFire.Proofs.Word.Field
import ColdFire.Proofs.Word.Limbs
import ColdFire.Proofs.Word.Number
import ColdFire.Proofs.Word.Shift
import ColdFire.Proofs.Word.Stencil
import ColdFire.Proofs.Word.Width
import ColdFire.Registry
import ColdFire.Text.Blank
import ColdFire.Text.Number
import ColdFire.Text.Radix
import ColdFire.Text.Utf8
import ColdFire.Tier
import ColdFire.Word.Field
import ColdFire.Word.Size
import ColdFire.Word.Stencil
