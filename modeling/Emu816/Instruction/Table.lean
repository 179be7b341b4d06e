import Emu816.Instruction.Matrix
import Emu816.Instruction.Mnemonic
import Emu816.Instruction.Mode

/-!
# Instruction set

Every byte is the opcode of exactly one instruction; `Instruction.decode` looks it up in the matrix `opcodes`.
-/

namespace Emu816

/-- What an opcode stands for: an operation and the way to its operand. -/
structure Instruction where
  mnemonic : Mnemonic
  mode : Mode
  deriving DecidableEq

namespace Instruction

/-- The instructions of all opcodes. -/
def opcodes : OpcodeMatrix Instruction := #v[
  #v[⟨.brk, .immediate8⟩, ⟨.ora, .directXIndirect⟩, ⟨.cop, .immediate8⟩, ⟨.ora, .stackRelative⟩, ⟨.tsb, .direct⟩,
    ⟨.ora, .direct⟩, ⟨.asl, .direct⟩, ⟨.ora, .directIndirectLong⟩, ⟨.php, .implied⟩, ⟨.ora, .immediate⟩,
    ⟨.asl, .accumulator⟩, ⟨.phd, .implied⟩, ⟨.tsb, .absolute⟩, ⟨.ora, .absolute⟩, ⟨.asl, .absolute⟩,
    ⟨.ora, .absoluteLong⟩],
  #v[⟨.bpl, .relative8⟩, ⟨.ora, .directIndirectY⟩, ⟨.ora, .directIndirect⟩, ⟨.ora, .stackRelativeIndirectY⟩,
    ⟨.trb, .direct⟩, ⟨.ora, .directX⟩, ⟨.asl, .directX⟩, ⟨.ora, .directIndirectLongY⟩, ⟨.clc, .implied⟩,
    ⟨.ora, .absoluteY⟩, ⟨.inc, .accumulator⟩, ⟨.tcs, .implied⟩, ⟨.trb, .absolute⟩, ⟨.ora, .absoluteX⟩,
    ⟨.asl, .absoluteX⟩, ⟨.ora, .absoluteLongX⟩],
  #v[⟨.jsr, .absolute⟩, ⟨.and, .directXIndirect⟩, ⟨.jsl, .absoluteLong⟩, ⟨.and, .stackRelative⟩, ⟨.bit, .direct⟩,
    ⟨.and, .direct⟩, ⟨.rol, .direct⟩, ⟨.and, .directIndirectLong⟩, ⟨.plp, .implied⟩, ⟨.and, .immediate⟩,
    ⟨.rol, .accumulator⟩, ⟨.pld, .implied⟩, ⟨.bit, .absolute⟩, ⟨.and, .absolute⟩, ⟨.rol, .absolute⟩,
    ⟨.and, .absoluteLong⟩],
  #v[⟨.bmi, .relative8⟩, ⟨.and, .directIndirectY⟩, ⟨.and, .directIndirect⟩, ⟨.and, .stackRelativeIndirectY⟩,
    ⟨.bit, .directX⟩, ⟨.and, .directX⟩, ⟨.rol, .directX⟩, ⟨.and, .directIndirectLongY⟩, ⟨.sec, .implied⟩,
    ⟨.and, .absoluteY⟩, ⟨.dec, .accumulator⟩, ⟨.tsc, .implied⟩, ⟨.bit, .absoluteX⟩, ⟨.and, .absoluteX⟩,
    ⟨.rol, .absoluteX⟩, ⟨.and, .absoluteLongX⟩],
  #v[⟨.rti, .implied⟩, ⟨.eor, .directXIndirect⟩, ⟨.wdm, .immediate8⟩, ⟨.eor, .stackRelative⟩, ⟨.mvp, .blockMove⟩,
    ⟨.eor, .direct⟩, ⟨.lsr, .direct⟩, ⟨.eor, .directIndirectLong⟩, ⟨.pha, .implied⟩, ⟨.eor, .immediate⟩,
    ⟨.lsr, .accumulator⟩, ⟨.phk, .implied⟩, ⟨.jmp, .absolute⟩, ⟨.eor, .absolute⟩, ⟨.lsr, .absolute⟩,
    ⟨.eor, .absoluteLong⟩],
  #v[⟨.bvc, .relative8⟩, ⟨.eor, .directIndirectY⟩, ⟨.eor, .directIndirect⟩, ⟨.eor, .stackRelativeIndirectY⟩,
    ⟨.mvn, .blockMove⟩, ⟨.eor, .directX⟩, ⟨.lsr, .directX⟩, ⟨.eor, .directIndirectLongY⟩, ⟨.cli, .implied⟩,
    ⟨.eor, .absoluteY⟩, ⟨.phy, .implied⟩, ⟨.tcd, .implied⟩, ⟨.jml, .absoluteLong⟩, ⟨.eor, .absoluteX⟩,
    ⟨.lsr, .absoluteX⟩, ⟨.eor, .absoluteLongX⟩],
  #v[⟨.rts, .implied⟩, ⟨.adc, .directXIndirect⟩, ⟨.per, .relative16⟩, ⟨.adc, .stackRelative⟩, ⟨.stz, .direct⟩,
    ⟨.adc, .direct⟩, ⟨.ror, .direct⟩, ⟨.adc, .directIndirectLong⟩, ⟨.pla, .implied⟩, ⟨.adc, .immediate⟩,
    ⟨.ror, .accumulator⟩, ⟨.rtl, .implied⟩, ⟨.jmp, .absoluteIndirect⟩, ⟨.adc, .absolute⟩, ⟨.ror, .absolute⟩,
    ⟨.adc, .absoluteLong⟩],
  #v[⟨.bvs, .relative8⟩, ⟨.adc, .directIndirectY⟩, ⟨.adc, .directIndirect⟩, ⟨.adc, .stackRelativeIndirectY⟩,
    ⟨.stz, .directX⟩, ⟨.adc, .directX⟩, ⟨.ror, .directX⟩, ⟨.adc, .directIndirectLongY⟩, ⟨.sei, .implied⟩,
    ⟨.adc, .absoluteY⟩, ⟨.ply, .implied⟩, ⟨.tdc, .implied⟩, ⟨.jmp, .absoluteXIndirect⟩, ⟨.adc, .absoluteX⟩,
    ⟨.ror, .absoluteX⟩, ⟨.adc, .absoluteLongX⟩],
  #v[⟨.bra, .relative8⟩, ⟨.sta, .directXIndirect⟩, ⟨.brl, .relative16⟩, ⟨.sta, .stackRelative⟩, ⟨.sty, .direct⟩,
    ⟨.sta, .direct⟩, ⟨.stx, .direct⟩, ⟨.sta, .directIndirectLong⟩, ⟨.dey, .implied⟩, ⟨.bit, .immediate⟩,
    ⟨.txa, .implied⟩, ⟨.phb, .implied⟩, ⟨.sty, .absolute⟩, ⟨.sta, .absolute⟩, ⟨.stx, .absolute⟩,
    ⟨.sta, .absoluteLong⟩],
  #v[⟨.bcc, .relative8⟩, ⟨.sta, .directIndirectY⟩, ⟨.sta, .directIndirect⟩, ⟨.sta, .stackRelativeIndirectY⟩,
    ⟨.sty, .directX⟩, ⟨.sta, .directX⟩, ⟨.stx, .directY⟩, ⟨.sta, .directIndirectLongY⟩, ⟨.tya, .implied⟩,
    ⟨.sta, .absoluteY⟩, ⟨.txs, .implied⟩, ⟨.txy, .implied⟩, ⟨.stz, .absolute⟩, ⟨.sta, .absoluteX⟩,
    ⟨.stz, .absoluteX⟩, ⟨.sta, .absoluteLongX⟩],
  #v[⟨.ldy, .immediateIndex⟩, ⟨.lda, .directXIndirect⟩, ⟨.ldx, .immediateIndex⟩, ⟨.lda, .stackRelative⟩,
    ⟨.ldy, .direct⟩, ⟨.lda, .direct⟩, ⟨.ldx, .direct⟩, ⟨.lda, .directIndirectLong⟩, ⟨.tay, .implied⟩,
    ⟨.lda, .immediate⟩, ⟨.tax, .implied⟩, ⟨.plb, .implied⟩, ⟨.ldy, .absolute⟩, ⟨.lda, .absolute⟩,
    ⟨.ldx, .absolute⟩, ⟨.lda, .absoluteLong⟩],
  #v[⟨.bcs, .relative8⟩, ⟨.lda, .directIndirectY⟩, ⟨.lda, .directIndirect⟩, ⟨.lda, .stackRelativeIndirectY⟩,
    ⟨.ldy, .directX⟩, ⟨.lda, .directX⟩, ⟨.ldx, .directY⟩, ⟨.lda, .directIndirectLongY⟩, ⟨.clv, .implied⟩,
    ⟨.lda, .absoluteY⟩, ⟨.tsx, .implied⟩, ⟨.tyx, .implied⟩, ⟨.ldy, .absoluteX⟩, ⟨.lda, .absoluteX⟩,
    ⟨.ldx, .absoluteY⟩, ⟨.lda, .absoluteLongX⟩],
  #v[⟨.cpy, .immediateIndex⟩, ⟨.cmp, .directXIndirect⟩, ⟨.rep, .immediate8⟩, ⟨.cmp, .stackRelative⟩,
    ⟨.cpy, .direct⟩, ⟨.cmp, .direct⟩, ⟨.dec, .direct⟩, ⟨.cmp, .directIndirectLong⟩, ⟨.iny, .implied⟩,
    ⟨.cmp, .immediate⟩, ⟨.dex, .implied⟩, ⟨.wai, .implied⟩, ⟨.cpy, .absolute⟩, ⟨.cmp, .absolute⟩,
    ⟨.dec, .absolute⟩, ⟨.cmp, .absoluteLong⟩],
  #v[⟨.bne, .relative8⟩, ⟨.cmp, .directIndirectY⟩, ⟨.cmp, .directIndirect⟩, ⟨.cmp, .stackRelativeIndirectY⟩,
    ⟨.pei, .directIndirect⟩, ⟨.cmp, .directX⟩, ⟨.dec, .directX⟩, ⟨.cmp, .directIndirectLongY⟩, ⟨.cld, .implied⟩,
    ⟨.cmp, .absoluteY⟩, ⟨.phx, .implied⟩, ⟨.stp, .implied⟩, ⟨.jml, .absoluteIndirectLong⟩, ⟨.cmp, .absoluteX⟩,
    ⟨.dec, .absoluteX⟩, ⟨.cmp, .absoluteLongX⟩],
  #v[⟨.cpx, .immediateIndex⟩, ⟨.sbc, .directXIndirect⟩, ⟨.sep, .immediate8⟩, ⟨.sbc, .stackRelative⟩,
    ⟨.cpx, .direct⟩, ⟨.sbc, .direct⟩, ⟨.inc, .direct⟩, ⟨.sbc, .directIndirectLong⟩, ⟨.inx, .implied⟩,
    ⟨.sbc, .immediate⟩, ⟨.nop, .implied⟩, ⟨.xba, .implied⟩, ⟨.cpx, .absolute⟩, ⟨.sbc, .absolute⟩,
    ⟨.inc, .absolute⟩, ⟨.sbc, .absoluteLong⟩],
  #v[⟨.beq, .relative8⟩, ⟨.sbc, .directIndirectY⟩, ⟨.sbc, .directIndirect⟩, ⟨.sbc, .stackRelativeIndirectY⟩,
    ⟨.pea, .absolute⟩, ⟨.sbc, .directX⟩, ⟨.inc, .directX⟩, ⟨.sbc, .directIndirectLongY⟩, ⟨.sed, .implied⟩,
    ⟨.sbc, .absoluteY⟩, ⟨.plx, .implied⟩, ⟨.xce, .implied⟩, ⟨.jsr, .absoluteXIndirect⟩, ⟨.sbc, .absoluteX⟩,
    ⟨.inc, .absoluteX⟩, ⟨.sbc, .absoluteLongX⟩]]

/-- The instruction of an opcode. -/
def decode (opcode : UInt8) : Instruction := opcodes.at opcode

end Instruction

end Emu816
