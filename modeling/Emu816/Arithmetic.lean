import Emu816.Arithmetic.Binary
import Emu816.Arithmetic.Decimal
import Emu816.Arithmetic.Shift

/-!
# Arithmetic of the accumulator

Addition, subtraction and comparison at an operand width. Bits of the operands above the width do not count.

- `add`: the sum of two operands and the carry, binary or decimal.
- `subtract`: the difference of two operands less the borrow, which is a cleared carry.
- `compare`: the difference without borrow, and whether the register is at least the operand.
-/

namespace Emu816.Arithmetic

/-- The sum `a + b + carry`. -/
def add (a b : UInt16) (carry : Bool) (width : Width) (decimal : Bool) : Sum :=
  let a := a &&& width.mask
  let b := b &&& width.mask
  if decimal then addDecimal correctSum width a b carry else addBinary width a b carry

/-- The difference `a - b - 1 + carry`. -/
def subtract (a b : UInt16) (carry : Bool) (width : Width) (decimal : Bool) : Sum :=
  let a := a &&& width.mask
  let complement := ~~~b &&& width.mask
  if decimal then addDecimal correctDifference width a complement carry else addBinary width a complement carry

/-- The difference of a register and an operand, and whether the register is not the smaller one. -/
def compare (register operand : UInt16) (width : Width) : UInt16 × Bool :=
  let register := register &&& width.mask
  let operand := operand &&& width.mask
  ((register - operand) &&& width.mask, decide (operand ≤ register))

end Emu816.Arithmetic
