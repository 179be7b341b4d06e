/-!
# Mnemonics

The 92 operations of the processor under their assembler names.
-/

namespace Emu816

/-- Operation of an instruction. -/
inductive Mnemonic where
  | adc | and | asl | bcc | bcs | beq | bit | bmi | bne | bpl | bra | brk | brl | bvc | bvs | clc
  | cld | cli | clv | cmp | cop | cpx | cpy | dec | dex | dey | eor | inc | inx | iny | jml | jmp
  | jsl | jsr | lda | ldx | ldy | lsr | mvn | mvp | nop | ora | pea | pei | per | pha | phb | phd
  | phk | php | phx | phy | pla | plb | pld | plp | plx | ply | rep | rol | ror | rti | rtl | rts
  | sbc | sec | sed | sei | sep | sta | stp | stx | sty | stz | tax | tay | tcd | tcs | tdc | trb
  | tsb | tsc | tsx | txa | txs | txy | tya | tyx | wai | wdm | xba | xce
  deriving DecidableEq

namespace Mnemonic

/-- Assembler name. -/
def name : Mnemonic → String
  | .adc => "ADC"
  | .and => "AND"
  | .asl => "ASL"
  | .bcc => "BCC"
  | .bcs => "BCS"
  | .beq => "BEQ"
  | .bit => "BIT"
  | .bmi => "BMI"
  | .bne => "BNE"
  | .bpl => "BPL"
  | .bra => "BRA"
  | .brk => "BRK"
  | .brl => "BRL"
  | .bvc => "BVC"
  | .bvs => "BVS"
  | .clc => "CLC"
  | .cld => "CLD"
  | .cli => "CLI"
  | .clv => "CLV"
  | .cmp => "CMP"
  | .cop => "COP"
  | .cpx => "CPX"
  | .cpy => "CPY"
  | .dec => "DEC"
  | .dex => "DEX"
  | .dey => "DEY"
  | .eor => "EOR"
  | .inc => "INC"
  | .inx => "INX"
  | .iny => "INY"
  | .jml => "JML"
  | .jmp => "JMP"
  | .jsl => "JSL"
  | .jsr => "JSR"
  | .lda => "LDA"
  | .ldx => "LDX"
  | .ldy => "LDY"
  | .lsr => "LSR"
  | .mvn => "MVN"
  | .mvp => "MVP"
  | .nop => "NOP"
  | .ora => "ORA"
  | .pea => "PEA"
  | .pei => "PEI"
  | .per => "PER"
  | .pha => "PHA"
  | .phb => "PHB"
  | .phd => "PHD"
  | .phk => "PHK"
  | .php => "PHP"
  | .phx => "PHX"
  | .phy => "PHY"
  | .pla => "PLA"
  | .plb => "PLB"
  | .pld => "PLD"
  | .plp => "PLP"
  | .plx => "PLX"
  | .ply => "PLY"
  | .rep => "REP"
  | .rol => "ROL"
  | .ror => "ROR"
  | .rti => "RTI"
  | .rtl => "RTL"
  | .rts => "RTS"
  | .sbc => "SBC"
  | .sec => "SEC"
  | .sed => "SED"
  | .sei => "SEI"
  | .sep => "SEP"
  | .sta => "STA"
  | .stp => "STP"
  | .stx => "STX"
  | .sty => "STY"
  | .stz => "STZ"
  | .tax => "TAX"
  | .tay => "TAY"
  | .tcd => "TCD"
  | .tcs => "TCS"
  | .tdc => "TDC"
  | .trb => "TRB"
  | .tsb => "TSB"
  | .tsc => "TSC"
  | .tsx => "TSX"
  | .txa => "TXA"
  | .txs => "TXS"
  | .txy => "TXY"
  | .tya => "TYA"
  | .tyx => "TYX"
  | .wai => "WAI"
  | .wdm => "WDM"
  | .xba => "XBA"
  | .xce => "XCE"

/-- Whether the operand of the instruction has the width of the index registers. -/
def usesIndexWidth : Mnemonic → Bool
  | .ldx | .ldy | .stx | .sty | .cpx | .cpy => true
  | _ => false

end Mnemonic

end Emu816
