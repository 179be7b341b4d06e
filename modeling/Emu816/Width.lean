/-!
# Operand widths

An operation works on bytes or on words. The status register chooses one width for the accumulator and memory and one
for the index registers.
-/

namespace Emu816

/-- Operand width. -/
inductive Width where
  | byte
  | word
  deriving DecidableEq

namespace Width

/-- The width chosen by a status bit that means "8-bit" when set. -/
def ofNarrow (narrow : Bool) : Width := if narrow then .byte else .word

/-- Every bit of the width. -/
def mask : Width → UInt16
  | .byte => 0x00FF
  | .word => 0xFFFF

/-- The most significant bit of the width. -/
def signBit : Width → UInt16
  | .byte => 0x0080
  | .word => 0x8000

/-- Operand size in bytes. -/
def bytes : Width → Nat
  | .byte => 1
  | .word => 2

end Width

/-- Register group that shares one width. -/
inductive RegisterClass where
  /-- The accumulator and memory operands. -/
  | accumulator
  /-- The `X` and `Y` registers. -/
  | index
  deriving DecidableEq

end Emu816
