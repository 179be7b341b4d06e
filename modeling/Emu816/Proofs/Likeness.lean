import Emu816.Proofs.Lockstep
import Emu816.Proofs.Effects
import Emu816.Proofs.Routines

/-!
# Registers that are alike

Two register files may differ in parts that an instruction does not depend on: in bits of the bank registers, or in the
byte of the accumulator that its width hides. A `Likeness` says in which, and which addresses count as near because of
it. The writes to registers keep files alike, and so do the functions that instructions carry.

- `Likeness`, `Likeness.Alike`: what may differ, and registers that differ in nothing else.
- `Mnemonic.usesHiddenByte`, `Mnemonic.pushesBank`: the instructions that depend on more than that.
- `Likeness.Agree`: registers that are the same to an instruction.
- `likens_operation`: the function of every instruction keeps registers alike.
-/

namespace Emu816

/-! ## Likenesses -/

/-- Which banks and accumulators count as alike, and which addresses as near. -/
structure Likeness where
  bank : UInt8 → UInt8 → Prop
  accumulator : UInt16 → UInt16 → Prop
  near : UInt32 → UInt32 → Prop
  bank_refl : ∀ bank', bank bank' bank'
  accumulator_refl : ∀ value, accumulator value value
  near_refl : ∀ addr, near addr addr
  /-- The same byte put into the accumulators. -/
  accumulator_byte : ∀ {a a' : UInt16}, accumulator a a' → ∀ value : UInt16,
    accumulator ((a &&& 0xFF00) ||| (value &&& 0x00FF)) ((a' &&& 0xFF00) ||| (value &&& 0x00FF))
  /-- The same offset in the banks. -/
  near_ofBank : ∀ {b b' : UInt8}, bank b b' → ∀ offset, near (Address.ofBank b offset) (Address.ofBank b' offset)
  /-- The same distance from near addresses. -/
  near_wrap_add : ∀ {addr addr' : UInt32}, near addr addr' → ∀ distance,
    near (Address.wrap (addr + distance)) (Address.wrap (addr' + distance))
  /-- The same index added to the same offset leaves the page in both banks or in none. -/
  page_indexed : ∀ {b b' : UInt8}, bank b b' → ∀ offset index,
    (Address.ofBank b offset / 0x100 ≠ Microcode.indexedLong (Address.ofBank b offset) index / 0x100 ↔
      Address.ofBank b' offset / 0x100 ≠ Microcode.indexedLong (Address.ofBank b' offset) index / 0x100)

namespace Likeness

variable {L : Likeness}

theorem near_wrap {addr addr' : UInt32} (h : L.near addr addr') : L.near (Address.wrap addr) (Address.wrap addr') := by
  simpa using L.near_wrap_add h 0

/-- The registers differ no more than the likeness allows. -/
structure Alike (L : Likeness) (r r' : Registers) : Prop where
  accumulator : L.accumulator r.a r'.a
  x : r.x = r'.x
  y : r.y = r'.y
  s : r.s = r'.s
  d : r.d = r'.d
  pc : r.pc = r'.pc
  pbr : L.bank r.pbr r'.pbr
  dbr : L.bank r.dbr r'.dbr
  p : r.p = r'.p
  emulation : r.emulation = r'.emulation

theorem Alike.refl (L : Likeness) (r : Registers) : L.Alike r r where
  accumulator := L.accumulator_refl r.a
  x := rfl
  y := rfl
  s := rfl
  d := rfl
  pc := rfl
  pbr := L.bank_refl r.pbr
  dbr := L.bank_refl r.dbr
  p := rfl
  emulation := rfl

namespace Alike

variable {r r' : Registers} (h : L.Alike r r')
include h

/-! ## What is read of registers -/

theorem accumulatorWidth : r.accumulatorWidth = r'.accumulatorWidth := by
  rw [Registers.accumulatorWidth, Registers.accumulatorWidth, h.p]

theorem indexWidth : r.indexWidth = r'.indexWidth := by
  rw [Registers.indexWidth, Registers.indexWidth, h.p]

theorem widthOf (group : RegisterClass) : r.widthOf group = r'.widthOf group := by
  cases group with
  | accumulator => exact h.accumulatorWidth
  | index => exact h.indexWidth

theorem flag (mask : UInt8) : r.flag mask = r'.flag mask := by
  rw [Registers.flag, Registers.flag, h.p]

theorem near_programAddress : L.near r.programAddress r'.programAddress := by
  rw [Registers.programAddress, Registers.programAddress, h.pc]
  exact L.near_ofBank h.pbr r'.pc

/-! ## Writes to registers -/

theorem setA (value : UInt16) : L.Alike (r.setA value) (r'.setA value) :=
  { h with accumulator := L.accumulator_refl value }

theorem setX (value : UInt16) : L.Alike (r.setX value) (r'.setX value) :=
  { h with x := by rw [Registers.setX, Registers.setX, h.indexWidth] }

theorem setY (value : UInt16) : L.Alike (r.setY value) (r'.setY value) :=
  { h with y := by rw [Registers.setY, Registers.setY, h.indexWidth] }

theorem setS (value : UInt16) : L.Alike (r.setS value) (r'.setS value) :=
  { h with s := by rw [Registers.setS, Registers.setS, h.emulation] }

theorem setD (value : UInt16) : L.Alike (r.setD value) (r'.setD value) := { h with d := rfl }

theorem setPc (value : UInt16) : L.Alike (r.setPc value) (r'.setPc value) := { h with pc := rfl }

theorem setPbr (value : UInt8) : L.Alike (r.setPbr value) (r'.setPbr value) := { h with pbr := L.bank_refl value }

theorem setDbr (value : UInt8) : L.Alike (r.setDbr value) (r'.setDbr value) := { h with dbr := L.bank_refl value }

theorem setP (value : UInt8) : L.Alike (r.setP value) (r'.setP value) := by
  unfold Registers.setP
  split
  · exact { h with p := rfl }
  · exact { h with p := rfl, x := congrArg (· &&& 0x00FF) h.x, y := congrArg (· &&& 0x00FF) h.y }

theorem setFlag (mask : UInt8) (enabled : Bool) : L.Alike (r.setFlag mask enabled) (r'.setFlag mask enabled) := by
  rw [Registers.setFlag, Registers.setFlag, h.p]
  exact h.setP _

theorem restoreP (status : UInt8) : L.Alike (r.restoreP status) (r'.restoreP status) := by
  rw [Registers.restoreP, Registers.restoreP, h.p, h.emulation]
  exact h.setP _

theorem setAccumulator (value : UInt16) : L.Alike (r.setAccumulator value) (r'.setAccumulator value) := by
  unfold Registers.setAccumulator
  rw [h.accumulatorWidth]
  split
  · exact { h with accumulator := L.accumulator_byte h.accumulator value }
  · exact h.setA value

/-- The stack pointer is settled in the mode. -/
theorem settle : L.Alike (r.setS r.s) (r'.setS r'.s) := by
  rw [h.s]
  exact h.setS r'.s

theorem setEmulation (enabled : Bool) : L.Alike (r.setEmulation enabled) (r'.setEmulation enabled) := by
  cases enabled with
  | false => exact { h with emulation := rfl }
  | true =>
    have hentered : L.Alike { r with emulation := true } { r' with emulation := true } := { h with emulation := rfl }
    have hwidths : r.p ||| Status.widths = r'.p ||| Status.widths := by rw [h.p]
    simp only [Registers.setEmulation, if_true, h.emulation, hwidths]
    cases r'.emulation with
    | true => exact hentered.settle
    | false => exact (hentered.setP _).settle

/-! ## Results -/

theorem setZero (value : UInt16) (width : Width) : L.Alike (r.setZero value width) (r'.setZero value width) :=
  h.setFlag _ _

theorem setNegative (value : UInt16) (width : Width) :
    L.Alike (r.setNegative value width) (r'.setNegative value width) := h.setFlag _ _

theorem setResult (value : UInt16) (width : Width) : L.Alike (r.setResult value width) (r'.setResult value width) :=
  (h.setZero value width).setNegative value width

theorem loadAccumulator (value : UInt16) : L.Alike (r.loadAccumulator value) (r'.loadAccumulator value) := by
  rw [Registers.loadAccumulator, Registers.loadAccumulator, h.accumulatorWidth]
  exact (h.setAccumulator value).setResult value _

theorem loadA (value : UInt16) : L.Alike (r.loadA value) (r'.loadA value) := (h.setA value).setResult value _

theorem loadX (value : UInt16) : L.Alike (r.loadX value) (r'.loadX value) := by
  rw [Registers.loadX, Registers.loadX, h.indexWidth]
  exact (h.setX value).setResult value _

theorem loadY (value : UInt16) : L.Alike (r.loadY value) (r'.loadY value) := by
  rw [Registers.loadY, Registers.loadY, h.indexWidth]
  exact (h.setY value).setResult value _

theorem loadD (value : UInt16) : L.Alike (r.loadD value) (r'.loadD value) := (h.setD value).setResult value _

theorem loadDbr (value : UInt8) : L.Alike (r.loadDbr value) (r'.loadDbr value) := (h.setDbr value).setResult _ _

theorem loadSum (sum : Arithmetic.Sum) : L.Alike (r.loadSum sum) (r'.loadSum sum) := by
  unfold Registers.loadSum
  rw [h.accumulatorWidth]
  exact (((h.setAccumulator _).setFlag _ _).setFlag _ _).setResult _ _

theorem compareOperand (register value : UInt16) (width : Width) :
    L.Alike (r.compareOperand register value width) (r'.compareOperand register value width) :=
  (h.setFlag _ _).setResult _ _

theorem shifted (width : Width) (outcome : UInt16 × Bool) :
    (r.shifted width outcome).1 = (r'.shifted width outcome).1 ∧
      L.Alike (r.shifted width outcome).2 (r'.shifted width outcome).2 :=
  ⟨rfl, (h.setFlag _ _).setResult _ _⟩

theorem increment (value : UInt16) :
    (r.increment value).1 = (r'.increment value).1 ∧ L.Alike (r.increment value).2 (r'.increment value).2 := by
  rw [Registers.increment, Registers.increment, h.accumulatorWidth]
  exact ⟨rfl, h.setResult _ _⟩

theorem decrement (value : UInt16) :
    (r.decrement value).1 = (r'.decrement value).1 ∧ L.Alike (r.decrement value).2 (r'.decrement value).2 := by
  rw [Registers.decrement, Registers.decrement, h.accumulatorWidth]
  exact ⟨rfl, h.setResult _ _⟩

theorem exchangeEmulation : L.Alike r.exchangeEmulation r'.exchangeEmulation := by
  rw [Registers.exchangeEmulation, Registers.exchangeEmulation, h.flag, h.emulation]
  exact (h.setFlag _ _).setEmulation _

end Alike

end Likeness

/-! ## Instructions -/

/-- Whether an instruction depends on the byte of the accumulator that the byte width hides. -/
def Mnemonic.usesHiddenByte (mnemonic : Mnemonic) (r : Registers) : Bool :=
  match mnemonic with
  | .xba | .tcd | .mvn | .mvp => true
  | .tax | .tay => r.indexWidth = .word
  | .tcs => !r.emulation
  | _ => false

/-- Whether an instruction pushes a bank register. -/
def Mnemonic.pushesBank (mnemonic : Mnemonic) (r : Registers) : Bool :=
  match mnemonic with
  | .phb | .phk | .jsl => true
  | .brk | .cop => !r.emulation
  | _ => false

/-- A result sets its bits by what the width shows of it. -/
theorem Registers.setResult_mask (r : Registers) (value : UInt16) (width : Width) :
    r.setResult (value &&& width.mask) width = r.setResult value width := by
  have hmask : value &&& width.mask &&& width.mask = value &&& width.mask := by
    rw [UInt16.and_assoc, UInt16.and_self]
  have hsign : value &&& width.mask &&& width.signBit = value &&& width.signBit := by
    rw [UInt16.and_assoc]
    cases width <;> rfl
  simp only [setResult, setZero, setNegative, hmask, hsign]

namespace Likeness

variable {L : Likeness}

/-- The registers are alike, and the same in all that an instruction depends on. -/
structure Agree (L : Likeness) (mnemonic : Mnemonic) (r r' : Registers) : Prop extends L.Alike r r' where
  operand : r.accumulator = r'.accumulator
  whole : mnemonic.usesHiddenByte r = true → r.a = r'.a
  banks : mnemonic.pushesBank r = true → r.pbr = r'.pbr ∧ r.dbr = r'.dbr

namespace Agree

variable {mnemonic : Mnemonic} {r r' : Registers} (h : L.Agree mnemonic r r')
include h

theorem lowByte : r.a &&& 0x00FF = r'.a &&& 0x00FF := by
  have hoperand : r.a &&& r.accumulatorWidth.mask = r'.a &&& r.accumulatorWidth.mask := by
    have hsame := h.operand
    rwa [Registers.accumulator, Registers.accumulator, ← h.accumulatorWidth] at hsame
  cases hwidth : r.accumulatorWidth with
  | byte => rwa [hwidth] at hoperand
  | word =>
    rw [hwidth] at hoperand
    have hwhole : r.a = r'.a := UInt16.and_neg_one.symm.trans (hoperand.trans UInt16.and_neg_one)
    rw [hwhole]

/-- The accumulators show the same in an index register, if the instruction puts them there. -/
theorem index (huses : r.indexWidth = .word → r.a = r'.a) :
    r.a &&& r.indexWidth.mask = r'.a &&& r.indexWidth.mask := by
  cases hwidth : r.indexWidth with
  | byte => exact h.lowByte
  | word => rw [huses hwidth]

/-- They show the same in the stack pointer, which in emulation mode takes their low byte. -/
theorem setS (huses : r.emulation = false → r.a = r'.a) : L.Alike (r.setS r.a) (r'.setS r'.a) := by
  cases hmode : r.emulation with
  | false =>
    rw [huses hmode]
    exact h.toAlike.setS r'.a
  | true =>
    have hpage : r'.setS r.a = r'.setS r'.a := by
      rw [Registers.setS, Registers.setS, ← h.emulation, hmode, if_pos rfl, if_pos rfl, h.lowByte]
    rw [← hpage]
    exact h.toAlike.setS r.a

theorem addOperand (value : UInt16) : L.Alike (r.addOperand value) (r'.addOperand value) := by
  rw [Registers.addOperand, Registers.addOperand, h.operand, h.flag, h.flag, h.accumulatorWidth]
  exact h.loadSum _

theorem subtractOperand (value : UInt16) : L.Alike (r.subtractOperand value) (r'.subtractOperand value) := by
  rw [Registers.subtractOperand, Registers.subtractOperand, h.operand, h.flag, h.flag, h.accumulatorWidth]
  exact h.loadSum _

theorem testConstant (value : UInt16) : L.Alike (r.testConstant value) (r'.testConstant value) := by
  rw [Registers.testConstant, Registers.testConstant, h.operand]
  exact h.setFlag _ _

theorem testOperand (value : UInt16) : L.Alike (r.testOperand value) (r'.testOperand value) := by
  rw [Registers.testOperand, Registers.testOperand, h.accumulatorWidth]
  exact ((h.testConstant value).setFlag _ _).setFlag _ _

theorem testAndSet (value : UInt16) :
    (r.testAndSet value).1 = (r'.testAndSet value).1 ∧ L.Alike (r.testAndSet value).2 (r'.testAndSet value).2 := by
  rw [Registers.testAndSet, Registers.testAndSet, h.operand, h.accumulatorWidth]
  exact ⟨rfl, h.setZero _ _⟩

theorem testAndReset (value : UInt16) :
    (r.testAndReset value).1 = (r'.testAndReset value).1 ∧
      L.Alike (r.testAndReset value).2 (r'.testAndReset value).2 := by
  rw [Registers.testAndReset, Registers.testAndReset, h.operand, h.accumulatorWidth]
  exact ⟨rfl, h.setZero _ _⟩

end Agree

/-- A transfer to an index register shows of the accumulator what fits the register. -/
theorem loadX_of_masked {r r' : Registers} (h : L.Alike r r') {value value' : UInt16}
    (hvalue : value &&& r.indexWidth.mask = value' &&& r.indexWidth.mask) :
    L.Alike (r.loadX value) (r'.loadX value') := by
  have hresult : r'.loadX value = r'.loadX value' := by
    rw [h.indexWidth] at hvalue
    rw [Registers.loadX, Registers.loadX, Registers.setX, Registers.setX, hvalue, ← Registers.setResult_mask, hvalue,
      Registers.setResult_mask]
  rw [← hresult]
  exact h.loadX value

theorem loadY_of_masked {r r' : Registers} (h : L.Alike r r') {value value' : UInt16}
    (hvalue : value &&& r.indexWidth.mask = value' &&& r.indexWidth.mask) :
    L.Alike (r.loadY value) (r'.loadY value') := by
  have hresult : r'.loadY value = r'.loadY value' := by
    rw [h.indexWidth] at hvalue
    rw [Registers.loadY, Registers.loadY, Registers.setY, Registers.setY, hvalue, ← Registers.setResult_mask, hvalue,
      Registers.setResult_mask]
  rw [← hresult]
  exact h.loadY value

end Likeness

/-! ## Operations -/

/-- From registers in the relation the function of the operation leads to registers that are alike, and what the
operation reads of the registers is the same. -/
def Operation.Likens (L : Likeness) (R : Registers → Registers → Prop) : Operation → Prop
  | load _ effect => ∀ r r', R r r' → ∀ value, L.Alike (effect r value) (effect r' value)
  | store _ source => ∀ r r', R r r' → source r = source r'
  | modify effect =>
    ∀ r r', R r r' → r.accumulator = r'.accumulator ∧
      ∀ value, (effect r value).1 = (effect r' value).1 ∧ L.Alike (effect r value).2 (effect r' value).2
  | internal _ effect => ∀ r r', R r r' → L.Alike (effect r) (effect r')
  | branch condition => ∀ r r', R r r' → condition r = condition r'
  | push width source => ∀ r r', R r r' → width r = width r' ∧ source r = source r'
  | pull width effect =>
    (∀ r r', R r r' → width r = width r') ∧ ∀ r r', L.Alike r r' → ∀ value, L.Alike (effect r value) (effect r' value)
  | callLong => ∀ r r', R r r' → r.pbr = r'.pbr
  | interrupt _ => ∀ r r', R r r' → r.emulation = false → r.pbr = r'.pbr
  | blockMove _ => ∀ r r', R r r' → r.a = r'.a
  | maskStatus _ | branchLong | pushConstant | pushIndirect | pushRelative | jump | jumpIndirect | jumpIndexed | jumpLong
  | jumpLongIndirect | call | callIndexed | ret | retLong | retInterrupt | skip | rest _ => True

open Likeness in
/-- **The function of every instruction keeps registers alike** that agree in what the instruction depends on. -/
theorem likens_operation (L : Likeness) (instruction : Instruction) :
    instruction.operation.Likens L (L.Agree instruction.mnemonic) := by
  obtain ⟨mnemonic, mode⟩ := instruction
  cases mnemonic with
  | lda => exact fun r r' h value => h.loadAccumulator value
  | ora | and | eor =>
    intro r r' h value
    dsimp only
    rw [h.operand]
    exact h.loadAccumulator _
  | ldx => exact fun r r' h value => h.loadX value
  | ldy => exact fun r r' h value => h.loadY value
  | adc => exact fun r r' h value => h.addOperand value
  | sbc => exact fun r r' h value => h.subtractOperand value
  | cmp =>
    intro r r' h value
    dsimp only
    rw [h.operand, h.accumulatorWidth]
    exact h.compareOperand _ _ _
  | cpx =>
    intro r r' h value
    dsimp only
    rw [h.x, h.indexWidth]
    exact h.compareOperand _ _ _
  | cpy =>
    intro r r' h value
    dsimp only
    rw [h.y, h.indexWidth]
    exact h.compareOperand _ _ _
  | bit =>
    simp only [Instruction.operation]
    split
    · exact fun r r' h value => h.testConstant value
    · exact fun r r' h value => h.testOperand value
  | sta => exact fun r r' h => h.operand
  | stx => exact fun r r' h => h.x
  | sty => exact fun r r' h => h.y
  | stz => exact fun r r' _ => rfl
  | asl | lsr =>
    refine fun r r' h => ⟨h.operand, fun value => ?_⟩
    simp only [Registers.shiftLeft, Registers.shiftRight, h.accumulatorWidth]
    exact h.shifted _ _
  | rol | ror =>
    refine fun r r' h => ⟨h.operand, fun value => ?_⟩
    simp only [Registers.rotateLeft, Registers.rotateRight, h.accumulatorWidth, h.flag]
    exact h.shifted _ _
  | inc => exact fun r r' h => ⟨h.operand, h.increment⟩
  | dec => exact fun r r' h => ⟨h.operand, h.decrement⟩
  | tsb => exact fun r r' h => ⟨h.operand, h.testAndSet⟩
  | trb => exact fun r r' h => ⟨h.operand, h.testAndReset⟩
  | inx | dex | tyx | tsx =>
    intro r r' h
    dsimp only
    simp only [h.x, h.y, h.s]
    exact h.loadX _
  | iny | dey | txy =>
    intro r r' h
    dsimp only
    simp only [h.x, h.y]
    exact h.loadY _
  | tax => exact fun r r' h => loadX_of_masked h.toAlike (h.index fun hwide => h.whole (decide_eq_true hwide))
  | tay => exact fun r r' h => loadY_of_masked h.toAlike (h.index fun hwide => h.whole (decide_eq_true hwide))
  | txa | tya =>
    intro r r' h
    dsimp only
    simp only [h.x, h.y]
    exact h.loadAccumulator _
  | txs =>
    intro r r' h
    dsimp only
    rw [h.x]
    exact h.toAlike.setS _
  | tcs => exact fun r r' h => h.setS fun hnative => h.whole (by simp [Mnemonic.usesHiddenByte, hnative])
  | tsc | tdc =>
    intro r r' h
    dsimp only
    simp only [h.s, h.d]
    exact h.loadA _
  | tcd =>
    intro r r' h
    dsimp only
    rw [h.whole rfl]
    exact h.loadD _
  | xba =>
    intro r r' h
    rw [Registers.exchangeBytes, Registers.exchangeBytes, h.whole rfl]
    exact (h.setA _).setResult _ _
  | xce => exact fun r r' h => h.exchangeEmulation
  | nop => exact fun r r' h => h.toAlike
  | clc | sec | cli | sei | cld | sed | clv => exact fun r r' h => h.setFlag _ _
  | bpl | bmi | bvc | bvs | bcc | bcs | bne | beq =>
    intro r r' h
    dsimp only
    rw [h.flag]
  | bra => exact fun r r' _ => rfl
  | pha => exact fun r r' h => ⟨h.accumulatorWidth, h.operand⟩
  | phx => exact fun r r' h => ⟨h.indexWidth, h.x⟩
  | phy => exact fun r r' h => ⟨h.indexWidth, h.y⟩
  | php => exact fun r r' h => ⟨rfl, congrArg UInt8.toUInt16 h.p⟩
  | phb => exact fun r r' h => ⟨rfl, congrArg UInt8.toUInt16 (h.banks rfl).2⟩
  | phk => exact fun r r' h => ⟨rfl, congrArg UInt8.toUInt16 (h.banks rfl).1⟩
  | phd => exact fun r r' h => ⟨rfl, h.d⟩
  | pla => exact ⟨fun r r' h => h.accumulatorWidth, fun r r' h => h.loadAccumulator⟩
  | plx => exact ⟨fun r r' h => h.indexWidth, fun r r' h => h.loadX⟩
  | ply => exact ⟨fun r r' h => h.indexWidth, fun r r' h => h.loadY⟩
  | plp => exact ⟨fun r r' _ => rfl, fun r r' h value => h.restoreP _⟩
  | plb => exact ⟨fun r r' _ => rfl, fun r r' h value => h.loadDbr _⟩
  | pld => exact ⟨fun r r' _ => rfl, fun r r' h => h.loadD⟩
  | jsl => exact fun r r' h => (h.banks rfl).1
  | brk | cop => exact fun r r' h hnative => (h.banks (by simp [Mnemonic.pushesBank, hnative])).1
  | mvn | mvp => exact fun r r' h => h.whole rfl
  | jmp | jml | jsr =>
    simp only [Instruction.operation]
    split <;> exact trivial
  | rep | sep | brl | pea | pei | per | rts | rtl | rti | wdm | wai | stp => exact trivial

end Emu816
