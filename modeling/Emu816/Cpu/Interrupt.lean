/-!
# Interrupts

Where the processor looks up its handlers. All vectors are words in bank 0.
-/

namespace Emu816

/-- Hardware interrupt source. -/
inductive Interrupt where
  /-- Edge triggered: one request is latched until it is served. -/
  | nmi
  /-- Level triggered: served while the line is asserted and interrupts are enabled. -/
  | irq
  deriving DecidableEq

/-- Address of the handler's address. -/
def Interrupt.vector (kind : Interrupt) (emulation : Bool) : UInt16 :=
  match kind, emulation with
  | .nmi, false => 0xFFEA
  | .nmi, true => 0xFFFA
  | .irq, false => 0xFFEE
  | .irq, true => 0xFFFE

/-- Instruction that enters a handler. -/
inductive SoftwareInterrupt where
  | brk
  | cop
  deriving DecidableEq

/-- Address of the handler's address; in emulation mode `BRK` shares the one of the interrupt request line. -/
def SoftwareInterrupt.vector (source : SoftwareInterrupt) (emulation : Bool) : UInt16 :=
  match source, emulation with
  | .brk, false => 0xFFE6
  | .brk, true => 0xFFFE
  | .cop, false => 0xFFE4
  | .cop, true => 0xFFF4

/-- Address of the word at which execution starts after reset. -/
def resetVector : UInt16 := 0xFFFC

end Emu816
