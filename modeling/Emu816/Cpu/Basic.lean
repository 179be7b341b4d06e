import Emu816.Cpu.Effect
import Emu816.Cpu.RunState

/-!
# Processor state

The registers together with the run state, the interrupt lines and the cycle count. The operations here are what a host
does to a processor between steps; instructions only reach the registers and the run state.
-/

namespace Emu816

/-- A processor; the field defaults are its state after power on. -/
structure Cpu where
  regs : Registers := {}
  runState : RunState := .running
  /-- A latched request that cannot be disabled. -/
  nmiPending : Bool := false
  /-- The level of the interrupt request line. -/
  irqLine : Bool := false
  /-- Cycles since reset. -/
  cycles : Nat := 0
  /-- Cycles of the last step. -/
  stepCycles : Nat := 0
  /-- Where execution starts when the reset vector is blank. -/
  resetFallback : UInt16 := 0x8000
  deriving DecidableEq, Inhabited

namespace Cpu

/-- Latches a request that cannot be disabled. -/
def raiseNmi (cpu : Cpu) : Cpu := { cpu with nmiPending := true }

/-- Latches or withdraws a request that cannot be disabled. -/
def setNmiPending (cpu : Cpu) (pending : Bool) : Cpu := { cpu with nmiPending := pending }

/-- Drives the interrupt request line, which stays as it is until it is driven again. -/
def setIrqLine (cpu : Cpu) (asserted : Bool) : Cpu := { cpu with irqLine := asserted }

/-- Changes the registers. -/
def mapRegisters (cpu : Cpu) (f : Registers → Registers) : Cpu := { cpu with regs := f cpu.regs }

/-- Sets or clears status bits. -/
def setFlag (cpu : Cpu) (mask : UInt8) (enabled : Bool) : Cpu := cpu.mapRegisters fun r => r.setFlag mask enabled

/-- Sets the zero bit from a value at the width of a register group. -/
def updateZero (cpu : Cpu) (value : UInt16) (group : RegisterClass) : Cpu :=
  cpu.mapRegisters fun r => r.setZero value (r.widthOf group)

/-- Sets the negative bit from a value at the width of a register group. -/
def updateNegative (cpu : Cpu) (value : UInt16) (group : RegisterClass) : Cpu :=
  cpu.mapRegisters fun r => r.setNegative value (r.widthOf group)

/-- Whether a reset vector was never programmed: blank memory reads as all zeros or all ones. -/
def isBlank (vector : UInt16) : Bool := vector == 0x0000 || vector == 0xFFFF

/-- Where execution starts for a reset vector. -/
def entryPoint (cpu : Cpu) (vector : UInt16) : UInt16 := if isBlank vector then cpu.resetFallback else vector

/-- The processor after reset, given the reset vector. Only the fallback survives. -/
def restarted (cpu : Cpu) (vector : UInt16) : Cpu :=
  { regs := { pc := cpu.entryPoint vector }, resetFallback := cpu.resetFallback }

end Cpu

end Emu816
