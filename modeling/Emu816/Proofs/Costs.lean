import Emu816.Instruction.Cost
import Emu816.Proofs.Routines

/-!
# What instructions cost

The published table gives the cost of an opcode under the reference conditions. Other conditions add to it: a `Cost`
lists what each of them adds, and `Conditions` says which of them hold.

- `Instruction.publishedCost`: the table together with the rules for the other conditions.
- `Instruction.operationCost`: the cycles that operations and addressing modes go through after the opcode.
- `publishedCost_eq`: the two agree at every opcode.
- `publishedCost_bounds`: no conditions make an instruction cheaper than 2 cycles or dearer than 9.
-/

namespace Emu816

/-! ## Conditions -/

/-- What the cost of an instruction depends on. -/
structure Conditions where
  /-- The direct page does not start on a page boundary. -/
  offPage : Bool
  /-- The accumulator and memory operands are words. -/
  wideMemory : Bool
  /-- The index registers are words. -/
  wideIndex : Bool
  /-- The index registers are words, or the index addition leaves the page of the base. -/
  crossing : Bool
  /-- The branch is taken. -/
  taken : Bool
  /-- The branch is taken in emulation mode, to another page than that of the next instruction. -/
  far : Bool
  emulation : Bool

/-- What an instruction costs under the reference conditions, and what each other condition adds to it. -/
structure Cost where
  reference : Nat := 0
  offPage : Nat := 0
  wideMemory : Nat := 0
  wideIndex : Nat := 0
  crossing : Nat := 0
  taken : Nat := 0
  far : Nat := 0
  /-- What emulation mode takes off. -/
  discount : Nat := 0
  deriving DecidableEq

namespace Cost

/-- The cycles under some conditions, before the discount. -/
def total (cost : Cost) (c : Conditions) : Nat :=
  cost.reference + c.offPage.toNat * cost.offPage + c.wideMemory.toNat * cost.wideMemory +
    c.wideIndex.toNat * cost.wideIndex + c.crossing.toNat * cost.crossing + c.taken.toNat * cost.taken +
    c.far.toNat * cost.far

/-- The cost amounts to the cycles under some conditions. -/
def Charges (cost : Cost) (c : Conditions) (cycles : Nat) : Prop :=
  cycles + c.emulation.toNat * cost.discount = cost.total c

instance : Add Cost where
  add first second :=
    { reference := first.reference + second.reference
      offPage := first.offPage + second.offPage
      wideMemory := first.wideMemory + second.wideMemory
      wideIndex := first.wideIndex + second.wideIndex
      crossing := first.crossing + second.crossing
      taken := first.taken + second.taken
      far := first.far + second.far
      discount := first.discount + second.discount }

theorem total_add (first second : Cost) (c : Conditions) :
    (first + second).total c = first.total c + second.total c := by
  change (Add.add first second).total c = _
  simp only [total, Add.add, Nat.mul_add]
  omega

/-- The costs of two parts add up. -/
theorem Charges.add {first second : Cost} {c : Conditions} {m n : Nat} (hfirst : first.Charges c m)
    (hsecond : second.Charges c n) : (first + second).Charges c (m + n) := by
  have hdiscount : (first + second).discount = first.discount + second.discount := rfl
  unfold Charges at hfirst hsecond ⊢
  rw [total_add, hdiscount, Nat.mul_add]
  omega

end Cost

namespace Mnemonic

/-- Whether a conditional branch, or the unconditional one, is taken. -/
def branches (mnemonic : Mnemonic) (r : Registers) : Bool :=
  match mnemonic with
  | .bpl => !r.flag Status.negative
  | .bmi => r.flag Status.negative
  | .bvc => !r.flag Status.overflow
  | .bvs => r.flag Status.overflow
  | .bcc => !r.flag Status.carry
  | .bcs => r.flag Status.carry
  | .bne => !r.flag Status.zero
  | .beq => r.flag Status.zero
  | .bra => true
  | _ => false

end Mnemonic

namespace Mode

/-- The address to which a mode adds an index, from the bytes that memory answers after the opcode. -/
def indexBase (mode : Mode) (r : Registers) (bytes : List UInt8) : UInt32 :=
  match mode, bytes with
  | .directIndirectY, _ :: low :: high :: _ => Address.ofBank r.dbr (Word.ofBytes low high)
  | _, low :: high :: _ => Address.ofBank r.dbr (Word.ofBytes low high)
  | _, _ => 0

/-- The index that a mode adds to an address. -/
def index (mode : Mode) (r : Registers) : UInt16 := if mode = .absoluteX then r.x else r.y

/-- Whether the mode adds an index to an address of the data bank. -/
def isIndexed : Mode → Bool
  | .absoluteX | .absoluteY | .directIndirectY => true
  | _ => false

end Mode

namespace Instruction

/-- The conditions that an instruction meets, from the registers before the opcode and the bytes that memory answers
after it. -/
def conditions (instruction : Instruction) (r : Registers) (bytes : List UInt8) : Conditions :=
  let next := r.pc + 2
  let target := next + Word.signExtend (bytes.headD 0)
  let taken := instruction.mnemonic.branches r
  { offPage := Microcode.offPage r
    wideMemory := r.accumulatorWidth = .word
    wideIndex := r.indexWidth = .word
    crossing := Microcode.crosses r (instruction.mode.indexBase r bytes) (instruction.mode.index r)
    taken
    far := taken ∧ r.emulation ∧ Word.high next ≠ Word.high target
    emulation := r.emulation }

/-- The published cost of an opcode: the table for the reference conditions, and the rules for the others. -/
def publishedCost (opcode : UInt8) : Cost :=
  let instruction := decode opcode
  { reference := baseCycles opcode
    offPage := if instruction.mode.isDirectPage then 1 else 0
    wideMemory :=
      match instruction.mnemonic with
      | .lda | .sta | .stz | .ora | .and | .eor | .adc | .sbc | .cmp | .bit | .pha | .pla => 1
      | .asl | .lsr | .rol | .ror | .inc | .dec | .tsb | .trb => if instruction.mode = .accumulator then 0 else 2
      | _ => 0
    wideIndex :=
      match instruction.mnemonic with
      | .ldx | .ldy | .stx | .sty | .cpx | .cpy | .phx | .phy | .plx | .ply => 1
      | _ => 0
    crossing :=
      match instruction.mnemonic with
      | .lda | .ldx | .ldy | .ora | .and | .eor | .adc | .sbc | .cmp | .bit =>
        if instruction.mode.isIndexed then 1 else 0
      | _ => 0
    taken := if instruction.mode = .relative8 ∧ instruction.mnemonic ≠ .bra then 1 else 0
    far := if instruction.mode = .relative8 then 1 else 0
    discount :=
      match instruction.mnemonic with
      | .brk | .cop | .rti => 1
      | _ => 0 }

end Instruction

/-! ## The cycles behind the table -/

/-- The cycles of an addressing mode. -/
def Mode.cost (mode : Mode) (access : Access) : Cost :=
  match mode with
  | .direct => { reference := 1, offPage := 1 }
  | .directX | .directY => { reference := 2, offPage := 1 }
  | .directIndirect => { reference := 3, offPage := 1 }
  | .directIndirectLong | .directXIndirect | .directIndirectLongY => { reference := 4, offPage := 1 }
  | .directIndirectY =>
    match access with
    | .read => { reference := 3, offPage := 1, crossing := 1 }
    | .write => { reference := 4, offPage := 1 }
  | .absolute => { reference := 2 }
  | .absoluteX | .absoluteY =>
    match access with
    | .read => { reference := 2, crossing := 1 }
    | .write => { reference := 3 }
  | .absoluteLong | .absoluteLongX => { reference := 3 }
  | .stackRelative => { reference := 2 }
  | .stackRelativeIndirectY => { reference := 5 }
  | _ => {}

/-- The cycles of moving a value of a register group's width. -/
def RegisterClass.cost : RegisterClass → Cost
  | .accumulator => { reference := 1, wideMemory := 1 }
  | .index => { reference := 1, wideIndex := 1 }

/-- The cycles of an instruction after its opcode. -/
def Instruction.operationCost (instruction : Instruction) : Cost :=
  match instruction.mnemonic with
  | .lda | .ora | .and | .eor | .adc | .sbc | .cmp | .bit =>
    instruction.mode.cost .read + RegisterClass.accumulator.cost
  | .ldx | .ldy | .cpx | .cpy => instruction.mode.cost .read + RegisterClass.index.cost
  | .sta | .stz => instruction.mode.cost .write + RegisterClass.accumulator.cost
  | .stx | .sty => instruction.mode.cost .write + RegisterClass.index.cost
  | .asl | .lsr | .rol | .ror | .inc | .dec | .tsb | .trb =>
    if instruction.mode = .accumulator then { reference := 1 }
    else
      instruction.mode.cost .write +
        (RegisterClass.accumulator.cost + ({ reference := 1 } + RegisterClass.accumulator.cost))
  | .inx | .iny | .dex | .dey | .tax | .tay | .txa | .tya | .txy | .tyx | .tsx | .txs | .tcs | .tsc | .tcd | .tdc
  | .xce | .nop | .clc | .sec | .cli | .sei | .cld | .sed | .clv => { reference := 1 }
  | .xba => { reference := 2 }
  | .rep | .sep => { reference := 2 }
  | .bpl | .bmi | .bvc | .bvs | .bcc | .bcs | .bne | .beq => { reference := 1, taken := 1, far := 1 }
  | .bra => { reference := 2, far := 1 }
  | .brl => { reference := 3 }
  | .pha => { reference := 1 } + RegisterClass.accumulator.cost
  | .phx | .phy => { reference := 1 } + RegisterClass.index.cost
  | .php | .phb | .phk => { reference := 1 } + { reference := Width.byte.bytes }
  | .phd => { reference := 1 } + { reference := Width.word.bytes }
  | .pla => { reference := 2 } + RegisterClass.accumulator.cost
  | .plx | .ply => { reference := 2 } + RegisterClass.index.cost
  | .plp | .plb => { reference := 2 } + { reference := Width.byte.bytes }
  | .pld => { reference := 2 } + { reference := Width.word.bytes }
  | .pea => { reference := 4 }
  | .pei => { reference := 5, offPage := 1 }
  | .per => { reference := 5 }
  | .jmp =>
    match instruction.mode with
    | .absoluteIndirect => { reference := 4 }
    | .absoluteXIndirect => { reference := 5 }
    | _ => { reference := 2 }
  | .jml => if instruction.mode = .absoluteIndirectLong then { reference := 5 } else { reference := 3 }
  | .jsr => if instruction.mode = .absoluteXIndirect then { reference := 7 } else { reference := 5 }
  | .jsl => { reference := 7 }
  | .rts | .rtl => { reference := 5 }
  | .rti => { reference := 6, discount := 1 }
  | .brk | .cop => { reference := 7, discount := 1 }
  | .mvn | .mvp => { reference := 6 }
  | .wdm => { reference := 1 }
  | .wai | .stp => { reference := 2 }

namespace Instruction

/-- The published cost is the opcode's own cycle and the cycles after it. -/
theorem publishedCost_eq (opcode : UInt8) :
    publishedCost opcode = { reference := 1 } + (decode opcode).operationCost :=
  forall_byte (P := fun opcode => publishedCost opcode = { reference := 1 } + (decode opcode).operationCost)
    (by decide +kernel) opcode

end Instruction

/-! ## Bounds -/

namespace Cost

/-- The cost when every condition holds. -/
def most (cost : Cost) : Nat :=
  cost.reference + cost.offPage + cost.wideMemory + cost.wideIndex + cost.crossing + cost.taken + cost.far

theorem total_le_most (cost : Cost) (c : Conditions) : cost.total c ≤ cost.most := by
  have hle (holds : Bool) (extra : Nat) : holds.toNat * extra ≤ extra := by cases holds <;> simp
  have hoffPage := hle c.offPage cost.offPage
  have hwideMemory := hle c.wideMemory cost.wideMemory
  have hwideIndex := hle c.wideIndex cost.wideIndex
  have hcrossing := hle c.crossing cost.crossing
  have htaken := hle c.taken cost.taken
  have hfar := hle c.far cost.far
  unfold total most
  omega

theorem reference_le_total (cost : Cost) (c : Conditions) : cost.reference ≤ cost.total c := by
  unfold total
  omega

end Cost

namespace Instruction

theorem most_publishedCost_le (opcode : UInt8) : (publishedCost opcode).most ≤ 9 :=
  forall_byte (P := fun opcode => (publishedCost opcode).most ≤ 9) (by decide +kernel) opcode

theorem le_reference_publishedCost (opcode : UInt8) :
    2 + (publishedCost opcode).discount ≤ (publishedCost opcode).reference :=
  forall_byte (P := fun opcode => 2 + (publishedCost opcode).discount ≤ (publishedCost opcode).reference)
    (by decide +kernel) opcode

/-- No conditions make an instruction cheaper than 2 cycles or dearer than 9. -/
theorem publishedCost_bounds {opcode : UInt8} {c : Conditions} {cycles : Nat}
    (h : (publishedCost opcode).Charges c cycles) : 2 ≤ cycles ∧ cycles ≤ 9 := by
  have hmost := most_publishedCost_le opcode
  have htotalMost := (publishedCost opcode).total_le_most c
  have hleast := le_reference_publishedCost opcode
  have htotalLeast := (publishedCost opcode).reference_le_total c
  have hdiscount : c.emulation.toNat * (publishedCost opcode).discount ≤ (publishedCost opcode).discount := by
    cases c.emulation <;> simp
  unfold Cost.Charges at h
  omega

end Instruction

end Emu816
