import Emu816.Activity
import Emu816.Registers

/-!
# Microcode

Steps of an instruction work on the registers and do bus cycles. The primitives here take one cycle for each byte that
they move: `idle`, `read` and `write` are the cycles themselves, the others are made of them.

- `fetch`, `fetchWord`, `fetchLong`: the bytes at the program counter, which wraps within the program bank.
- `readWord`, `readLong`, `readAt`, `writeAt`: operands at a `Place`.
- `push`, `pull` and their wider forms: the stack in bank 0, high byte pushed first.
-/

namespace Emu816

/-- Bus cycles that work on the registers. -/
abbrev Microcode := StateT Registers Activity

/-- Where an operand lies. -/
inductive Place where
  /-- In bank 0; its further bytes wrap within the bank. -/
  | bank0 (offset : UInt16)
  /-- Anywhere; its further bytes go on into the next bank. -/
  | long (addr : UInt32)
  deriving DecidableEq

namespace Place

/-- Address of the first byte. -/
def address : Place → UInt32
  | bank0 offset => offset.toUInt32
  | long addr => Address.wrap addr

/-- The place one byte further. -/
def next : Place → Place
  | bank0 offset => bank0 (offset + 1)
  | long addr => long (Address.wrap (addr + 1))

end Place

namespace Microcode

/-! ## Cycles -/

/-- An internal cycle. -/
def idle : Microcode Unit := fun r => .idle (.done ((), r))

/-- Reads a byte. -/
def read (purpose : Purpose) (addr : UInt32) : Microcode UInt8 :=
  fun r => .read purpose (Address.wrap addr) fun byte => .done (byte, r)

/-- Writes a byte. -/
def write (purpose : Purpose) (addr : UInt32) (value : UInt8) : Microcode Unit :=
  fun r => .write purpose (Address.wrap addr) value (.done ((), r))

@[simp] theorem run_idle (r : Registers) : StateT.run idle r = .idle (.done ((), r)) := rfl

@[simp] theorem run_read (purpose : Purpose) (addr : UInt32) (r : Registers) :
    StateT.run (read purpose addr) r = .read purpose (Address.wrap addr) fun byte => .done (byte, r) := rfl

@[simp] theorem run_write (purpose : Purpose) (addr : UInt32) (value : UInt8) (r : Registers) :
    StateT.run (write purpose addr value) r = .write purpose (Address.wrap addr) value (.done ((), r)) := rfl

/-! ## Instruction stream -/

/-- Takes the byte at the program counter. -/
def fetch : Microcode UInt8 := do
  let r ← get
  set (r.setPc (r.pc + 1))
  read .code r.programAddress

/-- Takes a word. -/
def fetchWord : Microcode UInt16 := do
  let low ← fetch
  let high ← fetch
  return Word.ofBytes low high

/-- Takes a 24-bit address. -/
def fetchLong : Microcode UInt32 := do
  let offset ← fetchWord
  let bank ← fetch
  return Address.ofBank bank offset

/-- Takes a constant of the given width. -/
def fetchWidth : Width → Microcode UInt16
  | .byte => return (← fetch).toUInt16
  | .word => fetchWord

/-! ## Operands -/

/-- Reads a word, low byte first. -/
def readWord (purpose : Purpose) (place : Place) : Microcode UInt16 := do
  let low ← read purpose place.address
  let high ← read purpose place.next.address
  return Word.ofBytes low high

/-- Reads a 24-bit address. -/
def readLong (place : Place) : Microcode UInt32 := do
  let offset ← readWord .pointer place
  let bank ← read .pointer place.next.next.address
  return Address.ofBank bank offset

/-- Reads a value of the given width. -/
def readAt (place : Place) : Width → Microcode UInt16
  | .byte => return (← read .data place.address).toUInt16
  | .word => readWord .data place

/-- Writes a value of the given width, low byte first. -/
def writeAt (place : Place) (width : Width) (value : UInt16) : Microcode Unit := do
  write .data place.address (Word.low value)
  match width with
  | .byte => return
  | .word => write .data place.next.address (Word.high value)

/-! ## Stack -/

/-- Writes a byte at the stack pointer and moves the pointer down. -/
def push (value : UInt8) : Microcode Unit := do
  let r ← get
  write .stack r.s.toUInt32 value
  set (r.setS (r.s - 1))

/-- Moves the stack pointer up and reads the byte there. -/
def pull : Microcode UInt8 := do
  let r := (← get).setS ((← get).s + 1)
  set r
  read .stack r.s.toUInt32

/-- Pushes a word, high byte first. -/
def pushWord (value : UInt16) : Microcode Unit := do
  push (Word.high value)
  push (Word.low value)

/-- Pulls a word, low byte first. -/
def pullWord : Microcode UInt16 := do
  let low ← pull
  let high ← pull
  return Word.ofBytes low high

/-- Pushes a value of the given width. -/
def pushWidth (width : Width) (value : UInt16) : Microcode Unit :=
  match width with
  | .byte => push (Word.low value)
  | .word => pushWord value

/-- Pulls a value of the given width. -/
def pullWidth : Width → Microcode UInt16
  | .byte => return (← pull).toUInt16
  | .word => pullWord

end Microcode

end Emu816
