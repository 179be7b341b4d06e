import Emu816.Cpu.Operation

/-!
# What the effects of instructions keep

The functions that operations carry are made of writes to single registers and of result bits. A relation of register
files that tolerates such writes (`Registers.Tolerant`) therefore holds of all these functions, but for the few that
write the status or the mode as a whole (`effects_operation`).
-/

namespace Emu816

namespace Registers

/-- The relation composes, and holds of every write to a register other than the program counter and its bank, and of
every write to status bits that are not width bits. -/
structure Tolerant (R : Registers → Registers → Prop) : Prop where
  refl : ∀ r, R r r
  trans : ∀ {r r' r''}, R r r' → R r' r'' → R r r''
  setA : ∀ r value, R r (r.setA value)
  setX : ∀ r value, R r (r.setX value)
  setY : ∀ r value, R r (r.setY value)
  setS : ∀ r value, R r (r.setS value)
  setD : ∀ r value, R r (r.setD value)
  setDbr : ∀ r value, R r (r.setDbr value)
  setFlag : ∀ r mask enabled, mask &&& Status.widths = 0 → R r (r.setFlag mask enabled)

namespace Tolerant

variable {R : Registers → Registers → Prop} (hR : Tolerant R) (r : Registers)
include hR

theorem setAccumulator (value : UInt16) : R r (r.setAccumulator value) := by
  unfold Registers.setAccumulator
  split
  · exact hR.setA r _
  · exact hR.setA r _

theorem setResult (value : UInt16) (width : Width) : R r (r.setResult value width) :=
  hR.trans (hR.setFlag r _ _ (by decide)) (hR.setFlag _ _ _ (by decide))

theorem loadAccumulator (value : UInt16) : R r (r.loadAccumulator value) :=
  hR.trans (hR.setAccumulator r value) (hR.setResult _ _ _)

theorem loadA (value : UInt16) : R r (r.loadA value) := hR.trans (hR.setA r value) (hR.setResult _ _ _)

theorem loadX (value : UInt16) : R r (r.loadX value) := hR.trans (hR.setX r value) (hR.setResult _ _ _)

theorem loadY (value : UInt16) : R r (r.loadY value) := hR.trans (hR.setY r value) (hR.setResult _ _ _)

theorem loadD (value : UInt16) : R r (r.loadD value) := hR.trans (hR.setD r value) (hR.setResult _ _ _)

theorem loadDbr (value : UInt8) : R r (r.loadDbr value) := hR.trans (hR.setDbr r value) (hR.setResult _ _ _)

theorem exchangeBytes : R r r.exchangeBytes := hR.trans (hR.setA r _) (hR.setResult _ _ _)

theorem loadSum (sum : Arithmetic.Sum) : R r (r.loadSum sum) :=
  hR.trans (hR.trans (hR.trans (hR.setAccumulator r _) (hR.setFlag _ _ _ (by decide))) (hR.setFlag _ _ _ (by decide)))
    (hR.setResult _ _ _)

theorem compareOperand (register value : UInt16) (width : Width) : R r (r.compareOperand register value width) :=
  hR.trans (hR.setFlag r _ _ (by decide)) (hR.setResult _ _ _)

theorem testOperand (value : UInt16) : R r (r.testOperand value) :=
  hR.trans (hR.trans (hR.setFlag r _ _ (by decide)) (hR.setFlag _ _ _ (by decide))) (hR.setFlag _ _ _ (by decide))

theorem shifted (width : Width) (outcome : UInt16 × Bool) : R r (r.shifted width outcome).2 :=
  hR.trans (hR.setFlag r _ _ (by decide)) (hR.setResult _ _ _)

end Tolerant

end Registers

/-- The relation holds of what the function of an operation does to the registers. -/
def Operation.Effects (R : Registers → Registers → Prop) : Operation → Prop
  | load _ effect => ∀ r value, R r (effect r value)
  | modify effect => ∀ r value, R r (effect r value).2
  | internal _ effect => ∀ r, R r (effect r)
  | maskStatus effect => ∀ r mask, R r (r.setP (effect r.p mask))
  | pull _ effect => ∀ r value, R r (effect r value)
  | _ => True

/-- Whether the function of an instruction writes the status or the mode as a whole. -/
def Mnemonic.writesStatus : Mnemonic → Bool
  | .rep | .sep | .plp | .xce => true
  | _ => false

/-- **The function of an instruction is in every tolerant relation**, unless it writes the status or the mode. -/
theorem effects_operation {R : Registers → Registers → Prop} (hR : Registers.Tolerant R) (instruction : Instruction)
    (h : instruction.mnemonic.writesStatus = false) : instruction.operation.Effects R := by
  obtain ⟨mnemonic, mode⟩ := instruction
  cases mnemonic with
  | rep | sep | plp | xce => cases h
  | lda | ora | and | eor => exact fun r _ => hR.loadAccumulator r _
  | ldx => exact fun r _ => hR.loadX r _
  | ldy => exact fun r _ => hR.loadY r _
  | adc | sbc => exact fun r _ => hR.loadSum r _
  | cmp | cpx | cpy => exact fun r _ => hR.compareOperand r _ _ _
  | bit =>
    simp only [Instruction.operation]
    split
    · exact fun r _ => hR.setFlag r _ _ (by decide)
    · exact fun r _ => hR.testOperand r _
  | asl | lsr | rol | ror => exact fun r _ => hR.shifted r _ _
  | inc | dec => exact fun r _ => hR.setResult r _ _
  | tsb | trb => exact fun r _ => hR.setFlag r _ _ (by decide)
  | inx | dex | tax | tyx | tsx => exact fun r => hR.loadX r _
  | iny | dey | tay | txy => exact fun r => hR.loadY r _
  | txa | tya => exact fun r => hR.loadAccumulator r _
  | txs | tcs => exact fun r => hR.setS r _
  | tsc | tdc => exact fun r => hR.loadA r _
  | tcd => exact fun r => hR.loadD r _
  | xba => exact hR.exchangeBytes
  | nop => exact hR.refl
  | clc | sec | cli | sei | cld | sed | clv => exact fun r => hR.setFlag r _ _ (by decide)
  | pla => exact fun r _ => hR.loadAccumulator r _
  | plx => exact fun r _ => hR.loadX r _
  | ply => exact fun r _ => hR.loadY r _
  | plb => exact fun r _ => hR.loadDbr r _
  | pld => exact fun r _ => hR.loadD r _
  | jmp =>
    simp only [Instruction.operation]
    split <;> exact trivial
  | jml | jsr =>
    simp only [Instruction.operation]
    split <;> exact trivial
  | sta | stx | sty | stz | bpl | bmi | bvc | bvs | bcc | bcs | bne | beq | bra | brl | pha | phx | phy | php | phb
  | phk | phd | pea | pei | per | jsl | rts | rtl | rti | brk | cop | mvn | mvp | wdm | wai | stp => exact trivial

end Emu816
