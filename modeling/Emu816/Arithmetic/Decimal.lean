import Emu816.Arithmetic.Binary

/-!
# Decimal sums

Packed decimal numbers hold one digit in each four bits. The sum is formed digit by digit from the lowest: the raw sum
of two digits and a carry is corrected before its carry goes to the next digit. Four bits that are no decimal digit are
added and corrected in the same way. Overflow is judged on the highest digit before its correction.

Subtraction adds the complement of the second operand with the correction of `correctDifference`.
-/

namespace Emu816.Arithmetic

/-- Digit and carry of a raw sum of two digits and a carry: six is added from ten on. -/
def correctSum (raw : Nat) : Nat × Bool :=
  let sum := if raw < 10 then raw else raw + 6
  (sum % 16, decide (16 ≤ sum))

/-- Digit and carry of a raw sum of a digit, a complemented digit and a carry: six is taken away unless the sum
carries. -/
def correctDifference (raw : Nat) : Nat × Bool :=
  if raw < 16 then ((raw + 10) % 16, false) else (raw % 16, true)

/-- Adds the lowest `digits` digits of `a` and `b` and a carry, each raw digit sum going through `correct`. Returns the
value, the carry and the overflow. -/
def addDigits (correct : Nat → Nat × Bool) : (digits a b : Nat) → (carry : Bool) → Nat × Bool × Bool
  | 0, _, _, carry => (0, carry, false)
  | digits + 1, a, b, carry =>
    let raw := a % 16 + b % 16 + carry.toNat
    let (digit, carryOut) := correct raw
    let (rest, carry, overflow) := addDigits correct digits (a / 16) (b / 16) carryOut
    (digit + 16 * rest, carry, if digits = 0 then signsOverflow a b raw 8 else overflow)

/-- The packed decimal sum of two operands that fit the width, and a carry, under a digit correction. -/
def addDecimal (correct : Nat → Nat × Bool) (width : Width) (a b : UInt16) (carry : Bool) : Sum :=
  let (value, carry, overflow) := addDigits correct (2 * width.bytes) a.toNat b.toNat carry
  { value := value.toUInt16, carry, overflow }

end Emu816.Arithmetic
