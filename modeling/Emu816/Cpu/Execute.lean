import Emu816.Cpu.Operand
import Emu816.Cpu.Operation

/-!
# Execution

The cycles of each kind of instruction, from the byte after the opcode on.

- `Microcode.ofOperation`: an instruction.
- `Microcode.enter`: the entry into a handler that hardware and software interrupts share.
-/

namespace Emu816.Microcode

/-- Spends internal cycles. -/
def idles : Nat → Microcode Unit
  | 0 => return
  | n + 1 => do
    idle
    idles n

/-- The address of an offset in the program bank. -/
def programAddress (offset : UInt16) : Microcode UInt32 :=
  return Address.ofBank (← get).pbr offset

/-- Continues at an offset of the program bank. -/
def jumpTo (pc : UInt16) : Microcode Unit := modify fun r => r.setPc pc

/-- Continues at a 24-bit address. -/
def jumpToLong (target : UInt32) : Microcode Unit :=
  modify fun r => (r.setPbr (Address.bank target)).setPc (Address.offset target)

/-- Leaves a frame on the stack and enters a handler with interrupts disabled and binary arithmetic. In native mode the
frame begins with the program bank. -/
def enter (status : UInt8) (vector : UInt16) : Microcode Unit := do
  let r ← get
  if !r.emulation then push r.pbr
  pushWord r.pc
  push status
  modify fun r => ((r.setFlag Status.interruptDisable true).setFlag Status.decimal false).setPbr 0
  jumpTo (← readWord .vector (.bank0 vector))

/-- Enters the handler of a hardware interrupt. The frame of an emulated processor shows a cleared break bit. -/
def enterHardware (kind : Interrupt) : Microcode Unit := do
  let r ← get
  idle
  if r.emulation then idle
  enter (if r.emulation then r.p &&& ~~~Status.breakBit else r.p) (kind.vector r.emulation)

/-- Enters the handler of an interrupt instruction after its signature byte. The frame of an emulated processor shows
a set break bit for `BRK`. -/
def enterSoftware (source : SoftwareInterrupt) : Microcode Unit := do
  let _ ← fetch
  let r ← get
  enter (if source = .brk ∧ r.emulation then r.p ||| Status.breakBit else r.p) (source.vector r.emulation)

/-- Branches by a displacement from the next instruction. An emulated processor needs a cycle more when the target lies
in another page. -/
def branch (taken : Bool) : Microcode Unit := do
  let offset ← fetch
  if taken then
    let r ← get
    let target := r.pc + Word.signExtend offset
    idle
    if r.emulation ∧ Word.high r.pc ≠ Word.high target then idle
    jumpTo target

/-- Moves one byte between two banks, and steps back to the opcode until the count in the accumulator has run out. -/
def blockMove (stride : UInt16) : Microcode Unit := do
  let target ← fetch
  let source ← fetch
  modify fun r => r.setDbr target
  let r ← get
  write .data (Address.ofBank target r.y) (← read .data (Address.ofBank source r.x))
  idle
  idle
  modify fun r =>
    let moved := ((r.setX (r.x + stride)).setY (r.y + stride)).setA (r.a - 1)
    if moved.a = 0xFFFF then moved else moved.setPc (moved.pc - 3)

/-- The cycles of an instruction after its opcode. -/
def ofOperation (mode : Mode) : Operation → Microcode Unit
  | .load group effect => do
    let value ← readOperand mode ((← get).widthOf group)
    modify fun r => effect r value
  | .store group source => do
    let r ← get
    writeAt (← resolve mode .write) (r.widthOf group) (source r)
  | .modify effect => do
    let width := (← get).accumulatorWidth
    if mode = .accumulator then
      idle
      modify fun r =>
        let (result, r) := effect r r.accumulator
        r.setAccumulator result
    else
      let place ← resolve mode .write
      let value ← readAt place width
      idle
      let result ← modifyGet fun r => effect r value
      writeAt place width result
  | .internal cycles effect => do
    idles cycles
    modify effect
  | .maskStatus effect => do
    let mask ← fetch
    idle
    modify fun r => r.setP (effect r.p mask)
  | .branch condition => do branch (condition (← get))
  | .branchLong => do
    let offset ← fetchWord
    idle
    jumpTo ((← get).pc + offset)
  | .push width source => do
    idle
    let r ← get
    pushWidth (width r) (source r)
  | .pull width effect => do
    idles 2
    let value ← pullWidth (width (← get))
    modify fun r => effect r value
  | .pushConstant => do pushWord (← fetchWord)
  | .pushIndirect => do
    let pointer ← directOperand
    pushWord (← readWord .pointer (.bank0 pointer))
  | .pushRelative => do
    let offset ← fetchWord
    idle
    pushWord ((← get).pc + offset)
  | .jump => do jumpTo (← fetchWord)
  | .jumpIndirect => do
    let pointer ← fetchWord
    jumpTo (← readWord .pointer (.bank0 pointer))
  | .jumpIndexed => do
    let pointer ← fetchWord
    idle
    jumpTo (← readWord .pointer (.long (← programAddress (pointer + (← get).x))))
  | .jumpLong => do jumpToLong (← fetchLong)
  | .jumpLongIndirect => do
    let pointer ← fetchWord
    jumpToLong (← readLong (.bank0 pointer))
  | .call => do
    let target ← fetchWord
    idle
    pushWord ((← get).pc - 1)
    jumpTo target
  | .callIndexed => do
    let low ← fetch
    pushWord (← get).pc
    let high ← fetch
    idle
    jumpTo (← readWord .pointer (.long (← programAddress (Word.ofBytes low high + (← get).x))))
  | .callLong => do
    let target ← fetchWord
    push (← get).pbr
    idle
    let bank ← fetch
    pushWord ((← get).pc - 1)
    modify fun r => (r.setPbr bank).setPc target
  | .ret => do
    idles 2
    let target ← pullWord
    idle
    jumpTo (target + 1)
  | .retLong => do
    idles 2
    let target ← pullWord
    let bank ← pull
    modify fun r => (r.setPc (target + 1)).setPbr bank
  | .retInterrupt => do
    idles 2
    let status ← pull
    modify fun r => r.restoreP status
    jumpTo (← pullWord)
    if !(← get).emulation then
      let bank ← pull
      modify fun r => r.setPbr bank
  | .interrupt source => enterSoftware source
  | .blockMove stride => blockMove stride
  | .skip => do
    let _ ← fetch
  | .rest _ => idles 2

end Emu816.Microcode
