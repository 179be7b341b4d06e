import Emu816.Cpu.Basic
import Emu816.Cpu.Execute
import Emu816.Cpu.Outcome

/-!
# Steps of the processor

A step rests for a cycle, enters an interrupt handler or executes one instruction. `Cpu.task` decides which; the bus
cycles are those of `Cpu.activity`, and `Cpu.step` plays them on a memory.

A latched request goes before the request line, and the line counts only while interrupts are enabled. Either of them
ends a wait, the line even while interrupts are disabled. Nothing but reset ends a stop.
-/

namespace Emu816

/-- What the next step has to do. -/
inductive Task where
  | stop
  | wait
  | interrupt (kind : Interrupt)
  | execute
  deriving DecidableEq

namespace Cpu

/-- What the next step does. -/
def task (cpu : Cpu) : Task :=
  if cpu.runState = .stopped then .stop
  else if cpu.runState = .waiting ∧ !cpu.nmiPending ∧ !cpu.irqLine then .wait
  else if cpu.nmiPending then .interrupt .nmi
  else if cpu.irqLine ∧ !cpu.regs.flag Status.interruptDisable then .interrupt .irq
  else .execute

/-- The cycles of an instruction, its opcode included. -/
def instruction : Microcode UInt8 := do
  let opcode ← Microcode.fetch
  let entry := Instruction.decode opcode
  Microcode.ofOperation entry.mode entry.operation
  return opcode

/-- The bus cycles of the next step. -/
def activity (cpu : Cpu) : Activity (StepEvent × Registers × RunState) :=
  match cpu.task with
  | .stop => .idle (.done (.stopped, cpu.regs, .stopped))
  | .wait => .idle (.done (.waiting, cpu.regs, .waiting))
  | .interrupt kind => do
    let ((), regs) ← (Microcode.enterHardware kind).run cpu.regs
    return (.interrupt kind (kind.vector cpu.regs.emulation), regs, .running)
  | .execute => do
    let (opcode, regs) ← instruction.run cpu.regs
    return (.executed cpu.regs.pbr cpu.regs.pc opcode, regs, (Instruction.decode opcode).operation.runState)

/-- Whether a latched request is still there after the next step. -/
def keepsNmi (cpu : Cpu) : Bool := cpu.nmiPending && cpu.task != .interrupt .nmi

/-- Does the next step on a memory. -/
def step {μ : Type} [Memory μ] (cpu : Cpu) (memory : μ) : Outcome × Cpu × μ :=
  match cpu.activity.run memory with
  | ⟨(event, regs, runState), cycles, memory⟩ =>
    ({ event, cycles },
      { cpu with
        regs, runState
        nmiPending := cpu.keepsNmi
        cycles := cpu.cycles + cycles
        stepCycles := cycles },
      memory)

/-- Resets the processor with the reset vector in memory, which is read without a cycle being counted. The vector comes
back too. -/
def reset {μ : Type} [Memory μ] (cpu : Cpu) (memory : μ) : UInt16 × Cpu × μ :=
  let (low, memory) := Memory.read memory resetVector.toUInt32
  let (high, memory) := Memory.read memory (resetVector.toUInt32 + 1)
  let vector := Word.ofBytes low high
  (vector, cpu.restarted vector, memory)

end Cpu

end Emu816
