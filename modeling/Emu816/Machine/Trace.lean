import Emu816.Cpu.Outcome

/-!
# Trace events

The events that a step sends to a trace sink, and a sink that counts them.
-/

namespace Emu816

/-- Something that happened during a step. -/
inductive TraceEvent where
  /-- An instruction was fetched. -/
  | start (pbr : UInt8) (pc : UInt16) (opcode : UInt8)
  /-- The instruction that started last is complete. -/
  | retired (cycles : Nat)
  /-- The handler of a hardware interrupt was entered. -/
  | interrupt (kind : Interrupt) (vector : UInt16)
  deriving DecidableEq

/-- The events of a step, in order. -/
def Outcome.events (outcome : Outcome) : List TraceEvent :=
  match outcome.event with
  | .executed pbr pc opcode => [.start pbr pc opcode, .retired outcome.cycles]
  | .interrupt kind vector => [.interrupt kind vector]
  | .waiting | .stopped => []

/-- Something that takes trace events. -/
class TraceSink (τ : Type) where
  /-- The sink after an event. -/
  record : τ → TraceEvent → τ

/-- Counts of what was traced. -/
structure Tally where
  instructions : Nat := 0
  interrupts : Nat := 0
  deriving DecidableEq, Inhabited

namespace Tally

/-- Counts an event; an instruction counts when it is complete. -/
def count (tally : Tally) : TraceEvent → Tally
  | .start .. => tally
  | .retired _ => { tally with instructions := tally.instructions + 1 }
  | .interrupt .. => { tally with interrupts := tally.interrupts + 1 }

instance : TraceSink Tally where
  record := count

end Tally

end Emu816
