import Emu816.Width

/-!
# Shifts

A shift moves every bit of an operand by one place, takes a carry in at one end and gives the bit that falls off at the
other end as the carry out.
-/

namespace Emu816.Arithmetic

/-- Moves the bits up; the carry comes in at bit 0. -/
def shiftLeft (width : Width) (value : UInt16) (carry : Bool) : UInt16 × Bool :=
  (((value <<< 1) ||| carry.toUInt16) &&& width.mask, value &&& width.signBit != 0)

/-- Moves the bits down; the carry comes in at the most significant bit. -/
def shiftRight (width : Width) (value : UInt16) (carry : Bool) : UInt16 × Bool :=
  (((value &&& width.mask) >>> 1) ||| (if carry then width.signBit else 0), value &&& 1 != 0)

end Emu816.Arithmetic
