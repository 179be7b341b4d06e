import Emu816.Width

/-!
# Binary sums

Addition of two operands and a carry at an operand width. Subtraction is the same addition with the second operand
complemented, so one sum serves both.
-/

namespace Emu816.Arithmetic

/-- Outcome of an addition or a subtraction. -/
structure Sum where
  /-- The result at the operand width. -/
  value : UInt16
  /-- Carry out; for a subtraction, that nothing was borrowed. -/
  carry : Bool
  /-- The signed result does not fit the width. -/
  overflow : Bool
  deriving DecidableEq

/-- Whether two operands of one sign have a sum of the other sign, the sign being the bits of `signBit`. -/
def signsOverflow (a b sum signBit : Nat) : Bool :=
  (a &&& signBit == b &&& signBit) && (a &&& signBit != sum &&& signBit)

/-- The sum of two operands that fit the width, and a carry. -/
def addBinary (width : Width) (a b : UInt16) (carry : Bool) : Sum :=
  let total := a.toNat + b.toNat + carry.toNat
  { value := total.toUInt16 &&& width.mask
    carry := width.mask.toNat < total
    overflow := signsOverflow a.toNat b.toNat total width.signBit.toNat }

end Emu816.Arithmetic
