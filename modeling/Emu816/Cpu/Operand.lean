import Emu816.Cpu.Microcode
import Emu816.Instruction.Mode

/-!
# Operands

The way from an addressing mode to the operand. The cycles that a mode takes are spent here: the operand bytes, the
pointer bytes and the internal cycles of index additions.

- `resolve`: where the operand of a memory mode lies.
- `readOperand`: the operand itself, for constants too.
-/

namespace Emu816

/-- What is done with an operand. -/
inductive Access where
  /-- It is only read; an index addition may then save its cycle. -/
  | read
  /-- It is written, perhaps after a read. -/
  | write
  deriving DecidableEq

namespace Microcode

/-- Takes a direct page offset and adds it to the page base; a base off the page boundary costs a cycle. -/
def directOperand : Microcode UInt16 := do
  let offset ← fetch
  let d := (← get).d
  if Word.low d ≠ 0 then idle
  return d + offset.toUInt16

/-- The 24-bit address of an offset in the data bank. -/
def dataAddress (offset : UInt16) : Microcode UInt32 :=
  return Address.ofBank (← get).dbr offset

/-- The address `base + index` across banks. -/
def indexedLong (base : UInt32) (index : UInt16) : UInt32 := Address.wrap (base + index.toUInt32)

/-- Adds an index to a 24-bit base. The addition costs a cycle unless a read with a narrow index stays in the page of
the base. -/
def indexed (base : UInt32) (index : UInt16) (access : Access) : Microcode Place := do
  let addr := indexedLong base index
  if access = .write ∨ (← get).indexWidth = .word ∨ base / 0x100 ≠ addr / 0x100 then idle
  return .long addr

/-- Takes the operand bytes of a mode and finds the place of its operand. A mode without operand in memory leads to the
program counter. -/
def resolve (mode : Mode) (access : Access) : Microcode Place := do
  match mode with
  | .direct => return .bank0 (← directOperand)
  | .directX =>
    let base ← directOperand
    idle
    return .bank0 (base + (← get).x)
  | .directY =>
    let base ← directOperand
    idle
    return .bank0 (base + (← get).y)
  | .directIndirect =>
    let pointer ← directOperand
    return .long (← dataAddress (← readWord .pointer (.bank0 pointer)))
  | .directIndirectLong =>
    let pointer ← directOperand
    return .long (← readLong (.bank0 pointer))
  | .directXIndirect =>
    let base ← directOperand
    idle
    return .long (← dataAddress (← readWord .pointer (.bank0 (base + (← get).x))))
  | .directIndirectY =>
    let pointer ← directOperand
    indexed (← dataAddress (← readWord .pointer (.bank0 pointer))) (← get).y access
  | .directIndirectLongY =>
    let pointer ← directOperand
    return .long (indexedLong (← readLong (.bank0 pointer)) (← get).y)
  | .absolute => return .long (← dataAddress (← fetchWord))
  | .absoluteX => indexed (← dataAddress (← fetchWord)) (← get).x access
  | .absoluteY => indexed (← dataAddress (← fetchWord)) (← get).y access
  | .absoluteLong => return .long (← fetchLong)
  | .absoluteLongX => return .long (indexedLong (← fetchLong) (← get).x)
  | .stackRelative =>
    let offset ← fetch
    idle
    return .bank0 ((← get).s + offset.toUInt16)
  | .stackRelativeIndirectY =>
    let offset ← fetch
    idle
    let base ← dataAddress (← readWord .pointer (.bank0 ((← get).s + offset.toUInt16)))
    idle
    return .long (indexedLong base (← get).y)
  | .implied | .accumulator | .immediate | .immediateIndex | .immediate8 | .relative8 | .relative16
  | .absoluteIndirect | .absoluteIndirectLong | .absoluteXIndirect | .blockMove =>
    return .long (← get).programAddress

/-- The operand of an instruction that only reads it. -/
def readOperand (mode : Mode) (width : Width) : Microcode UInt16 := do
  match mode with
  | .immediate | .immediateIndex => fetchWidth width
  | _ => readAt (← resolve mode .read) width

end Microcode

end Emu816
