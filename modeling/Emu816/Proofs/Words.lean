import Emu816.Bus.Map
import Emu816.Registers

/-!
# Words and addresses as numbers

Masks of machine words are remainders and sums of natural numbers, which is the form that `omega` decides.

- `Word.ofBytes_low_high`: a word is made of its two bytes.
- `Address.wrap_ofBank`, `Address.wrap_toUInt32`: addresses that lie on the bus already.
- `Scheme.locate_of_parts`: the bits of an address that the decoder sees.
- `Registers.setS_add`, `Registers.setS_sub`: moves of the stack pointer add up, in page 1 too.
- `countP_cons_toNat`: a count is a sum of truth values.
-/

namespace Emu816

/-! ## Masks -/

theorem toNat_and_lowByte (value : UInt16) : (value &&& 0x00FF).toNat = value.toNat % 0x100 := by
  rw [UInt16.toNat_and]
  exact Nat.and_two_pow_sub_one_eq_mod value.toNat 8

theorem and_lowByte_le (value : UInt16) : value &&& 0x00FF ≤ 0x00FF := by
  rw [UInt16.le_iff_toNat_le, toNat_and_lowByte]
  exact Nat.le_of_lt_succ (Nat.mod_lt _ (by decide))

/-- A word that fits a byte is kept by the mask of a byte. -/
theorem and_lowByte_of_le {value : UInt16} (h : value ≤ 0x00FF) : value &&& 0x00FF = value := by
  apply UInt16.toNat.inj
  rw [toNat_and_lowByte]
  exact Nat.mod_eq_of_lt (Nat.lt_succ_of_le (UInt16.le_iff_toNat_le.mp h))

/-- The place of an offset in page 1. -/
theorem toNat_stackPage (value : UInt16) : (0x0100 ||| (value &&& 0x00FF)).toNat = 0x100 + value.toNat % 0x100 := by
  have hlow : value.toNat % 0x100 < 2 ^ 8 := Nat.mod_lt _ (by decide)
  rw [UInt16.toNat_or, toNat_and_lowByte]
  exact (Nat.two_pow_add_eq_or_of_lt hlow 1).symm

theorem stackPage_bounds (value : UInt16) :
    0x0100 ≤ 0x0100 ||| (value &&& 0x00FF) ∧ 0x0100 ||| (value &&& 0x00FF) ≤ 0x01FF := by
  simp only [UInt16.le_iff_toNat_le, toNat_stackPage, UInt16.reduceToNat]
  omega

/-- Bits that were set just now are set. -/
theorem or_and_right_self (value mask : UInt8) : (value ||| mask) &&& mask = mask := by
  apply UInt8.eq_of_toBitVec_eq
  ext i
  simp
  grind

/-- Subtractions add up. -/
theorem sub_sub_word (value first second : UInt16) : value - first - second = value - (first + second) := by grind

/-- A mask takes its own part out of a word that was put together from two. -/
theorem merge_and {other mask : UInt16} (hdisjoint : other &&& mask = 0) (value kept : UInt16) :
    ((value &&& other) ||| (kept &&& mask)) &&& mask = kept &&& mask := by
  rw [← UInt16.toBitVec_inj] at hdisjoint ⊢
  simp only [UInt16.toBitVec_and, UInt16.toBitVec_or, BitVec.and_or_distrib_right] at hdisjoint ⊢
  rw [BitVec.and_assoc, hdisjoint, BitVec.and_assoc, BitVec.and_self]
  simp

/-- The low byte of a word that was put together from two. -/
theorem and_lowByte_merge (high low : UInt16) :
    ((high &&& 0xFF00) ||| (low &&& 0x00FF)) &&& 0x00FF = low &&& 0x00FF := merge_and (by decide) high low

/-- Its high byte. -/
theorem and_highByte_merge (high low : UInt16) :
    ((high &&& 0xFF00) ||| (low &&& 0x00FF)) &&& 0xFF00 = high &&& 0xFF00 := by
  rw [UInt16.or_comm]
  exact merge_and (by decide) low high

/-- A word is made of its high and its low byte. -/
theorem high_or_low (value : UInt16) : value &&& 0xFF00 ||| value &&& 0x00FF = value := by
  have hall : 0xFF00#16 ||| 0x00FF#16 = BitVec.allOnes 16 := by decide
  rw [← UInt16.toBitVec_inj]
  simp only [UInt16.toBitVec_and, UInt16.toBitVec_or, UInt16.toBitVec_ofNat, ← BitVec.and_or_distrib_left]
  rw [hall, BitVec.and_allOnes]

theorem Width.and_word_mask (value : UInt16) : value &&& Width.word.mask = value := UInt16.and_neg_one

/-- What holds of the 256 bytes, holds of every byte. -/
theorem forall_byte {P : UInt8 → Prop} (h : ∀ i : Fin 256, P (UInt8.ofFin i)) (byte : UInt8) : P byte := h byte.toFin

/-! ## Bytes of a word -/

namespace Word

theorem toNat_low (value : UInt16) : (low value).toNat = value.toNat % 0x100 := UInt16.toNat_toUInt8 value

theorem toNat_high (value : UInt16) : (high value).toNat = value.toNat / 0x100 := by
  have hvalue := value.toNat_lt
  simp only [high, UInt16.toNat_toUInt8, UInt16.toNat_div, UInt16.reduceToNat]
  omega

theorem toNat_ofBytes (low high : UInt8) : (ofBytes low high).toNat = high.toNat * 0x100 + low.toNat := by
  have hlow := low.toNat_lt
  have hhigh := high.toNat_lt
  simp only [ofBytes, UInt16.toNat_add, UInt16.toNat_mul, UInt8.toNat_toUInt16, UInt16.reduceToNat]
  omega

/-- A word is made of its two bytes. -/
@[simp] theorem ofBytes_low_high (value : UInt16) : ofBytes (low value) (high value) = value := by
  apply UInt16.toNat.inj
  rw [toNat_ofBytes, toNat_low, toNat_high]
  omega

end Word

/-! ## Addresses on the bus -/

namespace Address

theorem toNat_wrap (addr : UInt32) : (wrap addr).toNat = addr.toNat % 0x1000000 := rfl

theorem toNat_ofBank (bank : UInt8) (offset : UInt16) :
    (ofBank bank offset).toNat = bank.toNat * 0x10000 + offset.toNat := by
  have hbank := bank.toNat_lt
  have hoffset := offset.toNat_lt
  simp only [ofBank, UInt32.toNat_add, UInt32.toNat_mul, UInt8.toNat_toUInt32, UInt16.toNat_toUInt32,
    UInt32.reduceToNat]
  omega

@[simp] theorem wrap_ofBank (bank : UInt8) (offset : UInt16) : wrap (ofBank bank offset) = ofBank bank offset := by
  have hbank := bank.toNat_lt
  have hoffset := offset.toNat_lt
  apply UInt32.toNat.inj
  rw [toNat_wrap, toNat_ofBank]
  omega

theorem ofBank_zero (offset : UInt16) : ofBank 0 offset = offset.toUInt32 := by
  simp [ofBank]

theorem bank_ofBank (bank : UInt8) (offset : UInt16) : Address.bank (ofBank bank offset) = bank := by
  have hbank := bank.toNat_lt
  have hoffset := offset.toNat_lt
  apply UInt8.toNat.inj
  simp only [Address.bank, UInt32.toNat_toUInt8, UInt32.toNat_div, UInt32.reduceToNat]
  rw [toNat_ofBank]
  omega

theorem offset_ofBank (bank : UInt8) (offset : UInt16) : Address.offset (ofBank bank offset) = offset := by
  have hbank := bank.toNat_lt
  have hoffset := offset.toNat_lt
  apply UInt16.toNat.inj
  rw [Address.offset, UInt32.toNat_toUInt16, toNat_ofBank]
  omega

@[simp] theorem wrap_toUInt32 (offset : UInt16) : wrap offset.toUInt32 = offset.toUInt32 := by
  have hoffset := offset.toNat_lt
  apply UInt32.toNat.inj
  rw [toNat_wrap, UInt16.toNat_toUInt32]
  omega

@[simp] theorem wrap_wrap (addr : UInt32) : wrap (wrap addr) = wrap addr := by
  apply UInt32.toNat.inj
  simp only [toNat_wrap]
  omega

end Address

namespace Scheme

/-- Seven bits of the bank and the offset in it are all that the decoder sees of an address. -/
theorem locate_of_parts {scheme : Scheme} {addr : UInt32} (bank : Fin 0x80) (offset : Fin 0x10000)
    (hbank : addr.toNat / 0x10000 % 0x80 = bank.val) (hoffset : addr.toNat % 0x10000 = offset.val) :
    scheme.locate addr = scheme.locateIn bank offset := by
  have hbank' : Fin.ofNat 0x80 (Address.bank (Address.wrap addr)).toNat = bank := by
    apply Fin.ext
    rw [← hbank]
    simp only [Fin.ofNat, Address.bank, Address.toNat_wrap, UInt32.toNat_toUInt8, UInt32.toNat_div, UInt32.reduceToNat]
    omega
  have hoffset' : Fin.ofNat 0x10000 (Address.offset addr).toNat = offset := by
    apply Fin.ext
    rw [← hoffset]
    simp only [Fin.ofNat, Address.offset, UInt32.toNat_toUInt16]
    omega
  rw [locate, hbank', hoffset']

/-- The parts that the decoder sees. -/
theorem exists_parts (addr : UInt32) : ∃ (bank : Fin 0x80) (offset : Fin 0x10000),
    addr.toNat / 0x10000 % 0x80 = bank.val ∧ addr.toNat % 0x10000 = offset.val :=
  ⟨⟨_, Nat.mod_lt _ (by decide)⟩, ⟨_, Nat.mod_lt _ (by decide)⟩, rfl, rfl⟩

end Scheme

namespace Registers

variable (r : Registers)

@[simp] theorem wrap_programAddress : Address.wrap r.programAddress = r.programAddress := Address.wrap_ofBank _ _

/-! ## The program counter -/

@[simp] theorem setPc_setPc (first second : UInt16) : (r.setPc first).setPc second = r.setPc second := rfl

@[simp] theorem setPc_self : r.setPc r.pc = r := rfl

@[simp] theorem setPc_pc (value : UInt16) : (r.setPc value).pc = value := rfl

@[simp] theorem setPc_a (value : UInt16) : (r.setPc value).a = r.a := rfl

@[simp] theorem setPc_x (value : UInt16) : (r.setPc value).x = r.x := rfl

@[simp] theorem setPc_y (value : UInt16) : (r.setPc value).y = r.y := rfl

@[simp] theorem setPc_s (value : UInt16) : (r.setPc value).s = r.s := rfl

@[simp] theorem setPc_d (value : UInt16) : (r.setPc value).d = r.d := rfl

@[simp] theorem setPc_p (value : UInt16) : (r.setPc value).p = r.p := rfl

@[simp] theorem setPc_pbr (value : UInt16) : (r.setPc value).pbr = r.pbr := rfl

@[simp] theorem setPc_dbr (value : UInt16) : (r.setPc value).dbr = r.dbr := rfl

@[simp] theorem setPc_emulation (value : UInt16) : (r.setPc value).emulation = r.emulation := rfl

@[simp] theorem setPc_flag (value : UInt16) (mask : UInt8) : (r.setPc value).flag mask = r.flag mask := rfl

@[simp] theorem setPc_accumulatorWidth (value : UInt16) : (r.setPc value).accumulatorWidth = r.accumulatorWidth := rfl

@[simp] theorem setPc_indexWidth (value : UInt16) : (r.setPc value).indexWidth = r.indexWidth := rfl

@[simp] theorem setPc_widthOf (value : UInt16) (group : RegisterClass) :
    (r.setPc value).widthOf group = r.widthOf group := rfl

/-! ## The stack pointer -/

@[simp] theorem setS_setS (first second : UInt16) : (r.setS first).setS second = r.setS second := rfl

@[simp] theorem setS_x (value : UInt16) : (r.setS value).x = r.x := rfl

@[simp] theorem setS_y (value : UInt16) : (r.setS value).y = r.y := rfl

@[simp] theorem setS_p (value : UInt16) : (r.setS value).p = r.p := rfl

@[simp] theorem setS_pc (value : UInt16) : (r.setS value).pc = r.pc := rfl

@[simp] theorem setS_pbr (value : UInt16) : (r.setS value).pbr = r.pbr := rfl

@[simp] theorem setS_emulation (value : UInt16) : (r.setS value).emulation = r.emulation := rfl

/-- Moves of the stack pointer add up. -/
@[simp] theorem setS_add (value offset : UInt16) : r.setS ((r.setS value).s + offset) = r.setS (value + offset) := by
  cases hmode : r.emulation with
  | false => simp [setS, hmode]
  | true =>
    have hpage : 0x0100 ||| ((0x0100 ||| (value &&& 0x00FF)) + offset &&& 0x00FF) =
        0x0100 ||| (value + offset &&& 0x00FF) := by
      apply UInt16.toNat.inj
      simp only [toNat_stackPage, UInt16.toNat_add]
      omega
    simp [setS, hmode, hpage]

/-- A pointer that was written stays as it is when it is written again. -/
@[simp] theorem setS_settled (value : UInt16) : r.setS (r.setS value).s = r.setS value := by
  simpa using setS_add r value 0

@[simp] theorem setS_sub (value offset : UInt16) : r.setS ((r.setS value).s - offset) = r.setS (value - offset) := by
  rw [UInt16.sub_eq_add_neg, setS_add, ← UInt16.sub_eq_add_neg]

/-! ## The status -/

@[simp] theorem setP_emulation (value : UInt8) : (r.setP value).emulation = r.emulation := by
  unfold setP
  split <;> rfl

@[simp] theorem setP_s (value : UInt8) : (r.setP value).s = r.s := by
  unfold setP
  split <;> rfl

@[simp] theorem setP_pc (value : UInt8) : (r.setP value).pc = r.pc := by
  unfold setP
  split <;> rfl

@[simp] theorem setP_pbr (value : UInt8) : (r.setP value).pbr = r.pbr := by
  unfold setP
  split <;> rfl

@[simp] theorem setP_a (value : UInt8) : (r.setP value).a = r.a := by
  unfold setP
  split <;> rfl

@[simp] theorem setP_p (value : UInt8) : (r.setP value).p = value := by
  unfold setP
  split <;> rfl

@[simp] theorem restoreP_s (status : UInt8) : (r.restoreP status).s = r.s := setP_s r _

@[simp] theorem restoreP_emulation (status : UInt8) :
    (r.restoreP status).emulation = r.emulation := setP_emulation r _

/-- The stack pointer and the status are written independently. -/
theorem setS_setP (status : UInt8) (value : UInt16) :
    (r.setP status).setS value = (r.setS value).setP status := by
  unfold setP
  split <;> rfl

@[simp] theorem setS_restoreP (status : UInt8) (value : UInt16) :
    (r.restoreP status).setS value = (r.setS value).restoreP status := setS_setP r _ value

theorem setPc_setP (pc : UInt16) (status : UInt8) :
    (r.setPc pc).setP status = (r.setP status).setPc pc := by
  unfold setP
  split <;> rfl

@[simp] theorem restoreP_setPc (pc : UInt16) (status : UInt8) :
    (r.setPc pc).restoreP status = (r.restoreP status).setPc pc := setPc_setP r pc _

@[simp] theorem setS_setPc (pc value : UInt16) : (r.setPc pc).setS value = (r.setS value).setPc pc := rfl

end Registers

/-! ## Counts -/

theorem countP_cons_toNat {α : Type} (p : α → Bool) (a : α) (rest : List α) :
    (a :: rest).countP p = (p a).toNat + rest.countP p := by
  rw [List.countP_cons, Nat.add_comm]
  cases p a <;> rfl

end Emu816
