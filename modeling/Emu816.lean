import Emu816.Activity
import Emu816.Address
import Emu816.Arithmetic
import Emu816.Arithmetic.Binary
import Emu816.Arithmetic.Decimal
import Emu816.Arithmetic.Shift
import Emu816.Bus.Basic
import Emu816.Bus.Io
import Emu816.Bus.Map
import Emu816.Cartridge.Header
import Emu816.Cartridge.Image
import Emu816.Cartridge.Scheme
import Emu816.Cpu.Basic
import Emu816.Cpu.Effect
import Emu816.Cpu.Execute
import Emu816.Cpu.Interrupt
import Emu816.Cpu.Microcode
import Emu816.Cpu.Operand
import Emu816.Cpu.Operation
import Emu816.Cpu.Outcome
import Emu816.Cpu.RunState
import Emu816.Cpu.Step
import Emu816.Disassembly
import Emu816.Inspect
import Emu816.Instruction.Cost
import Emu816.Instruction.Matrix
import Emu816.Instruction.Mnemonic
import Emu816.Instruction.Mode
import Emu816.Instruction.Table
import Emu816.Machine.Basic
import Emu816.Machine.Run
import Emu816.Machine.Trace
import Emu816.Main
import Emu816.Memory
import Emu816.Notice
import Emu816.Registers
import Emu816.Report
import Emu816.Runner.Arguments
import Emu816.Runner.Console
import Emu816.Runner.Frames
import Emu816.Runner.Session
import Emu816.Status
import Emu816.Text.Hex
import Emu816.Width
import Emu816.Word
import Emu816.Proofs.Courses
import Emu816.Proofs.Effects
import Emu816.Proofs.Routines
import Emu816.Proofs.Relations
import Emu816.Proofs.Host
import Emu816.Proofs.ModeRules
import Emu816.Proofs.InterruptProtocol
import Emu816.Proofs.Stack
import Emu816.Proofs.InterruptReturn
import Emu816.Proofs.Costs
import Emu816.Proofs.CycleCount
import Emu816.Proofs.StraightLine
import Emu816.Proofs.Cells
import Emu816.Proofs.Lines
import Emu816.Proofs.MachineHost
import Emu816.Proofs.Reset
import Emu816.Proofs.Tracing
import Emu816.Proofs.Lockstep
import Emu816.Proofs.Likeness
import Emu816.Proofs.LikeRoutines
import Emu816.Proofs.LikeSteps
import Emu816.Proofs.HiddenByte
import Emu816.Proofs.BankMirror
import Emu816.Proofs.FrameCounts
import Emu816.Proofs.PrintedCounts
import Emu816.Proofs.Accounts
import Emu816.Proofs.Transparency
import Emu816.Proofs.StorageFrame
import Emu816.Proofs.Budgets
import Emu816.Proofs.Operands
import Emu816.Proofs.CheckedAddresses
import Emu816.Proofs.RegisterSets
import Emu816.Proofs.WriteSets
import Emu816.Proofs.CheckedDecimals
import Emu816.Proofs.CheckedImages
import Emu816.Proofs.PlainBus
import Emu816.Proofs.PlainMachine
import Emu816.Proofs.LongNumbers
import Emu816.Proofs.BinaryArithmetic
import Emu816.Proofs.DecimalArithmetic
import Emu816.Proofs.Calls
import Emu816.Proofs.BlockMoves
import Emu816.Proofs.AddressRuns
import Emu816.Proofs.AccessAddresses
import Emu816.Proofs.IndexedJumps
import Emu816.Proofs.ListedTargets
import Emu816.Proofs.SavedRegisters
import Emu816.Proofs.SaveRestore
import Emu816.Proofs.CartridgeSpace
import Emu816.Proofs.Copies
import Emu816.Proofs.RegisterRouting
import Emu816.Proofs.StoredOperands
import Emu816.Proofs.WrittenForms
import Emu816.Proofs.CommandLines
import Emu816.Proofs.EventStream
import Emu816.Proofs.TracedRows
import Emu816.Proofs.SaveRam
import Emu816.Proofs.LongShifts
import Emu816.Proofs.HeaderEvidence
import Emu816.Proofs.CopierHeaders
import Emu816.Proofs.HeaderSizes
