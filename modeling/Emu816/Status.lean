/-!
# Status bits

The eight bits of the status register `P`. In emulation mode the byte pushed on the stack shows a break bit at the
place of the index width.
-/

namespace Emu816.Status

/-- Carry. -/
def carry : UInt8 := 0x01

/-- Zero result. -/
def zero : UInt8 := 0x02

/-- Interrupt requests are ignored. -/
def interruptDisable : UInt8 := 0x04

/-- Decimal arithmetic. -/
def decimal : UInt8 := 0x08

/-- Index registers are 8 bits wide. -/
def narrowIndex : UInt8 := 0x10

/-- Accumulator and memory are 8 bits wide. -/
def narrowMemory : UInt8 := 0x20

/-- Signed overflow. -/
def overflow : UInt8 := 0x40

/-- Negative result. -/
def negative : UInt8 := 0x80

/-- Break bit of a stacked status byte in emulation mode. -/
def breakBit : UInt8 := narrowIndex

/-- Both width bits. -/
def widths : UInt8 := narrowMemory ||| narrowIndex

/-- Status after reset: 8-bit registers, interrupt requests ignored. -/
def afterReset : UInt8 := widths ||| interruptDisable

end Emu816.Status
