import Emu816.Arithmetic
import Emu816.Registers

/-!
# Effects of instructions on the registers

What an instruction does once its operand is known. Results set the zero and negative bits at the width of the operation.
-/

namespace Emu816.Registers

/-! ## Result bits -/

/-- Sets the zero bit from a value at a width. -/
def setZero (r : Registers) (value : UInt16) (width : Width) : Registers :=
  r.setFlag Status.zero (value &&& width.mask == 0)

/-- Sets the negative bit from a value at a width. -/
def setNegative (r : Registers) (value : UInt16) (width : Width) : Registers :=
  r.setFlag Status.negative (value &&& width.signBit != 0)

/-- Sets the zero and negative bits from a value at a width. -/
def setResult (r : Registers) (value : UInt16) (width : Width) : Registers :=
  (r.setZero value width).setNegative value width

/-! ## Loads and transfers -/

/-- Puts a result into the accumulator. -/
def loadAccumulator (r : Registers) (value : UInt16) : Registers :=
  (r.setAccumulator value).setResult value r.accumulatorWidth

/-- Puts a result into all 16 bits of the accumulator. -/
def loadA (r : Registers) (value : UInt16) : Registers := (r.setA value).setResult value .word

/-- Puts a result into `X`. -/
def loadX (r : Registers) (value : UInt16) : Registers := (r.setX value).setResult value r.indexWidth

/-- Puts a result into `Y`. -/
def loadY (r : Registers) (value : UInt16) : Registers := (r.setY value).setResult value r.indexWidth

/-- Puts a result into the direct page base. -/
def loadD (r : Registers) (value : UInt16) : Registers := (r.setD value).setResult value .word

/-- Puts a result into the data bank. -/
def loadDbr (r : Registers) (value : UInt8) : Registers := (r.setDbr value).setResult value.toUInt16 .byte

/-- Exchanges the two bytes of the accumulator; the result bits tell of the new low byte. -/
def exchangeBytes (r : Registers) : Registers :=
  let value := Word.swapBytes r.a
  (r.setA value).setResult value .byte

/-- Exchanges the carry and the emulation mode. -/
def exchangeEmulation (r : Registers) : Registers :=
  (r.setFlag Status.carry r.emulation).setEmulation (r.flag Status.carry)

/-! ## Arithmetic and comparison -/

/-- Puts a sum into the accumulator, the carry and the overflow bit. -/
def loadSum (r : Registers) (sum : Arithmetic.Sum) : Registers :=
  let summed := ((r.setAccumulator sum.value).setFlag Status.carry sum.carry).setFlag Status.overflow sum.overflow
  summed.setResult sum.value r.accumulatorWidth

/-- Adds an operand and the carry to the accumulator. -/
def addOperand (r : Registers) (value : UInt16) : Registers :=
  r.loadSum (Arithmetic.add r.accumulator value (r.flag Status.carry) r.accumulatorWidth (r.flag Status.decimal))

/-- Takes an operand and the borrow from the accumulator. -/
def subtractOperand (r : Registers) (value : UInt16) : Registers :=
  r.loadSum (Arithmetic.subtract r.accumulator value (r.flag Status.carry) r.accumulatorWidth (r.flag Status.decimal))

/-- Compares a register with an operand. -/
def compareOperand (r : Registers) (register value : UInt16) (width : Width) : Registers :=
  let (difference, carry) := Arithmetic.compare register value width
  (r.setFlag Status.carry carry).setResult difference width

/-- Tests the accumulator bits of a constant. -/
def testConstant (r : Registers) (value : UInt16) : Registers :=
  r.setFlag Status.zero (r.accumulator &&& value == 0)

/-- Tests the accumulator bits of an operand in memory, and copies its two highest bits into the status. -/
def testOperand (r : Registers) (value : UInt16) : Registers :=
  let signBit := r.accumulatorWidth.signBit
  ((r.testConstant value).setFlag Status.negative (value &&& signBit != 0)).setFlag
    Status.overflow (value &&& (signBit >>> 1) != 0)

/-! ## Changes of an operand

Each takes a value of the accumulator width to its new value and the registers after it. -/

/-- Records a result and the carry of a shift. -/
def shifted (r : Registers) (width : Width) (outcome : UInt16 × Bool) : UInt16 × Registers :=
  (outcome.1, (r.setFlag Status.carry outcome.2).setResult outcome.1 width)

/-- Shifts a zero in at the low end. -/
def shiftLeft (r : Registers) (value : UInt16) : UInt16 × Registers :=
  r.shifted r.accumulatorWidth (Arithmetic.shiftLeft r.accumulatorWidth value false)

/-- Shifts a zero in at the high end. -/
def shiftRight (r : Registers) (value : UInt16) : UInt16 × Registers :=
  r.shifted r.accumulatorWidth (Arithmetic.shiftRight r.accumulatorWidth value false)

/-- Shifts the carry in at the low end. -/
def rotateLeft (r : Registers) (value : UInt16) : UInt16 × Registers :=
  r.shifted r.accumulatorWidth (Arithmetic.shiftLeft r.accumulatorWidth value (r.flag Status.carry))

/-- Shifts the carry in at the high end. -/
def rotateRight (r : Registers) (value : UInt16) : UInt16 × Registers :=
  r.shifted r.accumulatorWidth (Arithmetic.shiftRight r.accumulatorWidth value (r.flag Status.carry))

/-- Adds one. -/
def increment (r : Registers) (value : UInt16) : UInt16 × Registers :=
  let result := (value + 1) &&& r.accumulatorWidth.mask
  (result, r.setResult result r.accumulatorWidth)

/-- Takes one away. -/
def decrement (r : Registers) (value : UInt16) : UInt16 × Registers :=
  let result := (value - 1) &&& r.accumulatorWidth.mask
  (result, r.setResult result r.accumulatorWidth)

/-- Sets the bits of the accumulator, after testing them. -/
def testAndSet (r : Registers) (value : UInt16) : UInt16 × Registers :=
  ((value ||| r.accumulator) &&& r.accumulatorWidth.mask,
    r.setZero (r.accumulator &&& value) r.accumulatorWidth)

/-- Clears the bits of the accumulator, after testing them. -/
def testAndReset (r : Registers) (value : UInt16) : UInt16 × Registers :=
  (value &&& ~~~r.accumulator &&& r.accumulatorWidth.mask,
    r.setZero (r.accumulator &&& value) r.accumulatorWidth)

end Emu816.Registers
