import Emu816.Cpu.Effect
import Emu816.Cpu.Interrupt
import Emu816.Cpu.RunState
import Emu816.Instruction.Table

/-!
# Operations

The instructions fall into few kinds. Instructions of one kind go through the same cycles; what sets them apart is a
function on the registers, which the kind carries. `Instruction.operation` sorts all instructions into the kinds.
-/

namespace Emu816

/-- Kind of an instruction. -/
inductive Operation where
  /-- Reads an operand of a register group's width. -/
  | load (group : RegisterClass) (effect : Registers → UInt16 → Registers)
  /-- Writes an operand of a register group's width. -/
  | store (group : RegisterClass) (source : Registers → UInt16)
  /-- Changes the accumulator, or an operand in memory. -/
  | modify (effect : Registers → UInt16 → UInt16 × Registers)
  /-- Works on the registers alone. -/
  | internal (cycles : Nat) (effect : Registers → Registers)
  /-- Changes status bits under a mask from the instruction. -/
  | maskStatus (effect : UInt8 → UInt8 → UInt8)
  /-- Branches by a signed byte if a condition holds. -/
  | branch (condition : Registers → Bool)
  /-- Branches by a word. -/
  | branchLong
  /-- Pushes a register. -/
  | push (width : Registers → Width) (source : Registers → UInt16)
  /-- Pulls a register. -/
  | pull (width : Registers → Width) (effect : Registers → UInt16 → Registers)
  /-- Pushes a constant. -/
  | pushConstant
  /-- Pushes a word from the direct page. -/
  | pushIndirect
  /-- Pushes an address relative to the next instruction. -/
  | pushRelative
  /-- Jumps to an offset in the program bank. -/
  | jump
  /-- Jumps through a pointer in bank 0. -/
  | jumpIndirect
  /-- Jumps through an indexed pointer in the program bank. -/
  | jumpIndexed
  /-- Jumps to any bank. -/
  | jumpLong
  /-- Jumps to any bank through a pointer in bank 0. -/
  | jumpLongIndirect
  /-- Calls an offset in the program bank. -/
  | call
  /-- Calls through an indexed pointer in the program bank. -/
  | callIndexed
  /-- Calls any bank. -/
  | callLong
  /-- Returns from a call. -/
  | ret
  /-- Returns from a call of any bank. -/
  | retLong
  /-- Returns from an interrupt. -/
  | retInterrupt
  /-- Enters a handler. -/
  | interrupt (source : SoftwareInterrupt)
  /-- Moves one byte of a block and repeats itself until the count runs out. -/
  | blockMove (stride : UInt16)
  /-- Skips a signature byte. -/
  | skip
  /-- Leaves the running state. -/
  | rest (state : RunState)

namespace Operation

/-- Run state after the operation. -/
def runState : Operation → RunState
  | rest state => state
  | _ => .running

/-- A status bit is set or cleared. -/
def setStatus (mask : UInt8) (enabled : Bool) : Operation := .internal 1 fun r => r.setFlag mask enabled

/-- A branch on a status bit. -/
def branchIf (mask : UInt8) (value : Bool) : Operation := .branch fun r => r.flag mask == value

/-- Pushes a register of one byte. -/
def pushByte (source : Registers → UInt8) : Operation := .push (fun _ => .byte) fun r => (source r).toUInt16

/-- Pulls a register of one byte. -/
def pullByte (effect : Registers → UInt8 → Registers) : Operation :=
  .pull (fun _ => .byte) fun r value => effect r (Word.low value)

end Operation

/-- The kind of an instruction and its function on the registers. -/
def Instruction.operation (instruction : Instruction) : Operation :=
  match instruction.mnemonic with
  | .lda => .load .accumulator Registers.loadAccumulator
  | .ldx => .load .index Registers.loadX
  | .ldy => .load .index Registers.loadY
  | .ora => .load .accumulator fun r value => r.loadAccumulator (r.accumulator ||| value)
  | .and => .load .accumulator fun r value => r.loadAccumulator (r.accumulator &&& value)
  | .eor => .load .accumulator fun r value => r.loadAccumulator (r.accumulator ^^^ value)
  | .adc => .load .accumulator Registers.addOperand
  | .sbc => .load .accumulator Registers.subtractOperand
  | .cmp => .load .accumulator fun r value => r.compareOperand r.accumulator value r.accumulatorWidth
  | .cpx => .load .index fun r value => r.compareOperand r.x value r.indexWidth
  | .cpy => .load .index fun r value => r.compareOperand r.y value r.indexWidth
  | .bit =>
    if instruction.mode = .immediate then .load .accumulator Registers.testConstant
    else .load .accumulator Registers.testOperand
  | .sta => .store .accumulator Registers.accumulator
  | .stx => .store .index Registers.x
  | .sty => .store .index Registers.y
  | .stz => .store .accumulator fun _ => 0
  | .asl => .modify Registers.shiftLeft
  | .lsr => .modify Registers.shiftRight
  | .rol => .modify Registers.rotateLeft
  | .ror => .modify Registers.rotateRight
  | .inc => .modify Registers.increment
  | .dec => .modify Registers.decrement
  | .tsb => .modify Registers.testAndSet
  | .trb => .modify Registers.testAndReset
  | .inx => .internal 1 fun r => r.loadX (r.x + 1)
  | .iny => .internal 1 fun r => r.loadY (r.y + 1)
  | .dex => .internal 1 fun r => r.loadX (r.x - 1)
  | .dey => .internal 1 fun r => r.loadY (r.y - 1)
  | .tax => .internal 1 fun r => r.loadX r.a
  | .tay => .internal 1 fun r => r.loadY r.a
  | .txa => .internal 1 fun r => r.loadAccumulator r.x
  | .tya => .internal 1 fun r => r.loadAccumulator r.y
  | .txy => .internal 1 fun r => r.loadY r.x
  | .tyx => .internal 1 fun r => r.loadX r.y
  | .tsx => .internal 1 fun r => r.loadX r.s
  | .txs => .internal 1 fun r => r.setS r.x
  | .tcs => .internal 1 fun r => r.setS r.a
  | .tsc => .internal 1 fun r => r.loadA r.s
  | .tcd => .internal 1 fun r => r.loadD r.a
  | .tdc => .internal 1 fun r => r.loadA r.d
  | .xba => .internal 2 Registers.exchangeBytes
  | .xce => .internal 1 Registers.exchangeEmulation
  | .nop => .internal 1 id
  | .clc => .setStatus Status.carry false
  | .sec => .setStatus Status.carry true
  | .cli => .setStatus Status.interruptDisable false
  | .sei => .setStatus Status.interruptDisable true
  | .cld => .setStatus Status.decimal false
  | .sed => .setStatus Status.decimal true
  | .clv => .setStatus Status.overflow false
  | .rep => .maskStatus fun p mask => p &&& ~~~mask
  | .sep => .maskStatus fun p mask => p ||| mask
  | .bpl => .branchIf Status.negative false
  | .bmi => .branchIf Status.negative true
  | .bvc => .branchIf Status.overflow false
  | .bvs => .branchIf Status.overflow true
  | .bcc => .branchIf Status.carry false
  | .bcs => .branchIf Status.carry true
  | .bne => .branchIf Status.zero false
  | .beq => .branchIf Status.zero true
  | .bra => .branch fun _ => true
  | .brl => .branchLong
  | .pha => .push Registers.accumulatorWidth Registers.accumulator
  | .phx => .push Registers.indexWidth Registers.x
  | .phy => .push Registers.indexWidth Registers.y
  | .php => .pushByte Registers.p
  | .phb => .pushByte Registers.dbr
  | .phk => .pushByte Registers.pbr
  | .phd => .push (fun _ => .word) Registers.d
  | .pla => .pull Registers.accumulatorWidth Registers.loadAccumulator
  | .plx => .pull Registers.indexWidth Registers.loadX
  | .ply => .pull Registers.indexWidth Registers.loadY
  | .plp => .pullByte Registers.restoreP
  | .plb => .pullByte Registers.loadDbr
  | .pld => .pull (fun _ => .word) Registers.loadD
  | .pea => .pushConstant
  | .pei => .pushIndirect
  | .per => .pushRelative
  | .jmp =>
    match instruction.mode with
    | .absoluteIndirect => .jumpIndirect
    | .absoluteXIndirect => .jumpIndexed
    | _ => .jump
  | .jml => if instruction.mode = .absoluteIndirectLong then .jumpLongIndirect else .jumpLong
  | .jsr => if instruction.mode = .absoluteXIndirect then .callIndexed else .call
  | .jsl => .callLong
  | .rts => .ret
  | .rtl => .retLong
  | .rti => .retInterrupt
  | .brk => .interrupt .brk
  | .cop => .interrupt .cop
  | .mvn => .blockMove 1
  | .mvp => .blockMove (-1)
  | .wdm => .skip
  | .wai => .rest .waiting
  | .stp => .rest .stopped

end Emu816
