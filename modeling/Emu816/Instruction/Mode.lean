/-!
# Addressing modes

How an instruction names its operand, and how many operand bytes follow the opcode.
-/

namespace Emu816

/-- Addressing mode, as written in the instruction stream. -/
inductive Mode where
  /-- No operand. -/
  | implied
  /-- The accumulator itself. -/
  | accumulator
  /-- A constant of the accumulator width. -/
  | immediate
  /-- A constant of the index width. -/
  | immediateIndex
  /-- A one-byte constant: a status mask or a signature byte. -/
  | immediate8
  /-- Signed 8-bit displacement. -/
  | relative8
  /-- Signed 16-bit displacement. -/
  | relative16
  /-- Written `dp`. -/
  | direct
  /-- Written `dp,X`. -/
  | directX
  /-- Written `dp,Y`. -/
  | directY
  /-- Written `(dp)`. -/
  | directIndirect
  /-- Written `[dp]`. -/
  | directIndirectLong
  /-- Written `(dp,X)`. -/
  | directXIndirect
  /-- Written `(dp),Y`. -/
  | directIndirectY
  /-- Written `[dp],Y`. -/
  | directIndirectLongY
  /-- Written `abs`. -/
  | absolute
  /-- Written `abs,X`. -/
  | absoluteX
  /-- Written `abs,Y`. -/
  | absoluteY
  /-- Written `long`. -/
  | absoluteLong
  /-- Written `long,X`. -/
  | absoluteLongX
  /-- Written `sr,S`. -/
  | stackRelative
  /-- Written `(sr,S),Y`. -/
  | stackRelativeIndirectY
  /-- Jump through `(abs)`. -/
  | absoluteIndirect
  /-- Jump through `[abs]`. -/
  | absoluteIndirectLong
  /-- Jump through `(abs,X)`. -/
  | absoluteXIndirect
  /-- Destination and source bank of a block move. -/
  | blockMove
  deriving DecidableEq

namespace Mode

/-- Operand bytes after the opcode. A set `narrowMemory` or `narrowIndex` means that constants of that width take one
byte instead of two. -/
def operandLength (mode : Mode) (narrowMemory narrowIndex : Bool) : Nat :=
  match mode with
  | .implied | .accumulator => 0
  | .immediate => if narrowMemory then 1 else 2
  | .immediateIndex => if narrowIndex then 1 else 2
  | .immediate8 | .relative8 | .direct | .directX | .directY | .directIndirect | .directIndirectLong
  | .directXIndirect | .directIndirectY | .directIndirectLongY | .stackRelative | .stackRelativeIndirectY => 1
  | .relative16 | .absolute | .absoluteX | .absoluteY | .absoluteIndirect | .absoluteIndirectLong
  | .absoluteXIndirect | .blockMove => 2
  | .absoluteLong | .absoluteLongX => 3

/-- Whether the mode goes through the direct page. -/
def isDirectPage : Mode → Bool
  | .direct | .directX | .directY | .directIndirect | .directIndirectLong
  | .directXIndirect | .directIndirectY | .directIndirectLongY => true
  | _ => false

end Mode

end Emu816
