import Emu816.Cpu.Interrupt

/-!
# Outcomes of steps

What a step of the processor did, and how many cycles it took.
-/

namespace Emu816

/-- What a step did. -/
inductive StepEvent where
  /-- It executed the instruction at `pbr:pc`. -/
  | executed (pbr : UInt8) (pc : UInt16) (opcode : UInt8)
  /-- It entered the handler of a hardware interrupt. -/
  | interrupt (kind : Interrupt) (vector : UInt16)
  /-- It waited for an interrupt. -/
  | waiting
  /-- It stood still. -/
  | stopped
  deriving DecidableEq

/-- Outcome of a step. -/
structure Outcome where
  event : StepEvent
  cycles : Nat
  deriving DecidableEq

end Emu816
