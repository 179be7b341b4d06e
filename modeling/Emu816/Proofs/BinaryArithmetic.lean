import Emu816.Proofs.LongNumbers
import Mathlib.Data.Nat.Bitwise

/-!
# Binary arithmetic

Binary sums and differences of operands are those of machine words, read without a sign or with one.

- `Width.unsigned`, `Width.signed`, `Width.Fits`: what an operand means, and which numbers with a sign it can mean.
- `isSum_addBinary`, `overflow_addBinary`: the sum of two operands that fit the width.
- `toNat_complement`, `signed_complement`: a difference is a sum with the complement of its second operand.
- `balances_add`, `balances_subtract`: value and carry make up the operands, for one operation and so for a chain.
- `binary_arithmetic`: sums, differences and comparisons of operands and of long numbers.
-/

namespace Emu816

/-! ## Operands as numbers -/

namespace Width

/-- Number of bits of an operand. -/
def bits : Width → Nat
  | byte => 8
  | word => 16

/-- An operand as a number; the bits above the width do not count. -/
def unsigned (width : Width) (value : UInt16) : Nat := value.toNat % 2 ^ width.bits

/-- An operand as a number with a sign, in two's complement. -/
def signed (width : Width) (value : UInt16) : Int := (value.toNat : Int).bmod (2 ^ width.bits)

/-- Whether an operand can mean a number with a sign. -/
def Fits (width : Width) (number : Int) : Prop :=
  -2 ^ (width.bits - 1) ≤ number ∧ number < 2 ^ (width.bits - 1)

theorem unsigned_lt (width : Width) (value : UInt16) : width.unsigned value < 2 ^ width.bits :=
  Nat.mod_lt _ (Nat.two_pow_pos _)

theorem unsigned_of_lt {width : Width} {value : UInt16} (h : value.toNat < 2 ^ width.bits) :
    width.unsigned value = value.toNat := Nat.mod_eq_of_lt h

/-- The mask of a width keeps the bits that count. -/
theorem toNat_and_mask (width : Width) (value : UInt16) : (value &&& width.mask).toNat = width.unsigned value := by
  have hmask : width.mask.toNat = 2 ^ width.bits - 1 := by cases width <;> rfl
  rw [UInt16.toNat_and, hmask, Nat.and_two_pow_sub_one_eq_mod, unsigned]

theorem toNat_and_mask_lt (width : Width) (value : UInt16) : (value &&& width.mask).toNat < 2 ^ width.bits :=
  width.toNat_and_mask value ▸ width.unsigned_lt value

/-- The two readings of an operand differ by its sign bit, which stands for all the bits above it. -/
theorem signed_eq (width : Width) (value : UInt16) :
    width.signed value =
      width.unsigned value - 2 ^ width.bits * (width.unsigned value / 2 ^ (width.bits - 1) : Nat) := by
  cases width <;> simp only [unsigned, signed, Int.bmod, bits] <;> grind

theorem signed_and_mask (width : Width) (value : UInt16) : width.signed (value &&& width.mask) = width.signed value := by
  rw [signed_eq, signed_eq, unsigned_of_lt (width.toNat_and_mask_lt value), toNat_and_mask]

end Width

namespace Arithmetic

/-! ## Sums of operands that fit -/

/-- Overflow compares the bits at the place of the sign. -/
theorem signsOverflow_iff (a b sum place : Nat) :
    signsOverflow a b sum (2 ^ place) = true ↔
      a / 2 ^ place % 2 = b / 2 ^ place % 2 ∧ a / 2 ^ place % 2 ≠ sum / 2 ^ place % 2 := by
  have hpos := Nat.two_pow_pos place
  have hbit (n : Nat) : n &&& 2 ^ place = n / 2 ^ place % 2 * 2 ^ place := by
    rw [Nat.and_two_pow, Nat.testBit_eq_decide_div_mod_eq]
    rcases Nat.mod_two_eq_zero_or_one (n / 2 ^ place) with h | h <;> simp [h]
  have hsame (m n : Nat) : m * 2 ^ place = n * 2 ^ place ↔ m = n := Nat.mul_left_inj hpos.ne'
  simp [signsOverflow, hbit, hsame]

section Sums

variable (width : Width) {a b : UInt16} (ha : a.toNat < 2 ^ width.bits) (hb : b.toNat < 2 ^ width.bits) (carry : Bool)
include ha hb

theorem isSum_addBinary :
    IsSum (2 ^ width.bits) a.toNat b.toNat carry (addBinary width a b carry).value.toNat
      (addBinary width a b carry).carry := by
  let total := a.toNat + b.toNat + carry.toNat
  have hcarry : carry.toNat ≤ 1 := Bool.toNat_le carry
  constructor
  · rw [show (addBinary width a b carry).value = total.toUInt16 &&& width.mask from rfl, Width.toNat_and_mask,
      Width.unsigned, Nat.toUInt16_eq, UInt16.toNat_ofNat']
    cases width <;> simp only [Width.bits, total] <;> omega
  · have hmask : width.mask.toNat = 2 ^ width.bits - 1 := by cases width <;> rfl
    have hpos := Nat.two_pow_pos width.bits
    rw [show (addBinary width a b carry).carry = decide (width.mask.toNat < total) from rfl, decide_eq_true_eq, hmask]
    simp only [total]
    omega

/-- The overflow of a sum tells that the sum of the numbers with a sign cannot be an operand. -/
theorem overflow_addBinary :
    (addBinary width a b carry).overflow = true ↔
      ¬width.Fits (width.signed a + width.signed b + carry.toNat) := by
  let total := a.toNat + b.toNat + carry.toNat
  have hcarry : carry.toNat ≤ 1 := Bool.toNat_le carry
  have hsign : width.signBit.toNat = 2 ^ (width.bits - 1) := by cases width <;> rfl
  rw [show (addBinary width a b carry).overflow = signsOverflow a.toNat b.toNat total width.signBit.toNat from rfl,
    hsign, signsOverflow_iff, Width.Fits, Width.signed_eq, Width.signed_eq, Width.unsigned_of_lt ha,
    Width.unsigned_of_lt hb]
  -- all signs are quotients by now
  cases width <;>
    simp only [Width.bits, total, Nat.reduceSub, Nat.reducePow, Int.reducePow] at ha hb ⊢ <;> omega

end Sums

/-! ## Complements -/

/-- The complement of an operand at a width. -/
theorem toNat_complement (width : Width) (value : UInt16) :
    (~~~value &&& width.mask).toNat = 2 ^ width.bits - 1 - width.unsigned value := by
  rw [Width.toNat_and_mask, Width.unsigned, UInt16.toNat_not, Width.unsigned]
  have hvalue := value.toNat_lt
  cases width <;> simp only [Width.bits, UInt16.size] at hvalue ⊢ <;> omega

theorem signed_complement (width : Width) (value : UInt16) :
    width.signed (~~~value &&& width.mask) = -1 - width.signed value := by
  have hcomplement := toNat_complement width value
  have hlt := width.unsigned_lt value
  rw [Width.signed_eq, Width.signed_eq, Width.unsigned_of_lt (width.toNat_and_mask_lt _), hcomplement]
  cases width <;> simp only [Width.bits, Nat.reduceSub, Nat.reducePow, Int.reducePow] at hlt ⊢ <;> omega

/-! ## Sums and differences -/

/-- The value of a binary sum has no bits above the width. -/
theorem addBinary_value_lt (width : Width) (a b : UInt16) (carry : Bool) :
    (addBinary width a b carry).value.toNat < 2 ^ width.bits := width.toNat_and_mask_lt _

theorem balances_add (width : Width) :
    Balances (2 ^ width.bits) width.unsigned (fun _ => True) (fun v => v.toNat < 2 ^ width.bits) 1 0
      fun a b carry => add a b carry width false where
  one_lt_base := Nat.one_lt_two_pow (by cases width <;> decide)
  value_lt v _ := width.unsigned_lt v
  settles _ _ _ _ _ := addBinary_value_lt width _ _ _
  balance a b carry _ _ := by
    have hsum := (isSum_addBinary width (width.toNat_and_mask_lt a) (width.toNat_and_mask_lt b) carry).balance
      (width.toNat_and_mask_lt a) (width.toNat_and_mask_lt b)
    rw [Width.toNat_and_mask, Width.toNat_and_mask, ← Width.unsigned_of_lt (addBinary_value_lt width _ _ _)] at hsum
    rw [Int.one_mul, Int.sub_zero, Int.sub_zero]
    exact_mod_cast hsum

theorem balances_subtract (width : Width) :
    Balances (2 ^ width.bits) width.unsigned (fun _ => True) (fun v => v.toNat < 2 ^ width.bits) (-1) 1
      fun a b carry => subtract a b carry width false where
  one_lt_base := Nat.one_lt_two_pow (by cases width <;> decide)
  value_lt v _ := width.unsigned_lt v
  settles _ _ _ _ _ := addBinary_value_lt width _ _ _
  balance a b carry _ _ := by
    have hsum := (isSum_addBinary width (width.toNat_and_mask_lt a) (width.toNat_and_mask_lt (~~~b)) carry).balance
      (width.toNat_and_mask_lt a) (width.toNat_and_mask_lt (~~~b))
    have hb := width.unsigned_lt b
    rw [Width.toNat_and_mask, toNat_complement, ← Width.unsigned_of_lt (addBinary_value_lt width _ _ _)] at hsum
    -- the complement and its operand make up all but one of the base
    have hsum : width.unsigned (subtract a b carry width false).value +
        2 ^ width.bits * (subtract a b carry width false).carry.toNat + width.unsigned b + 1 =
        width.unsigned a + 2 ^ width.bits + carry.toNat := by
      rw [show subtract a b carry width false = addBinary width (a &&& width.mask) (~~~b &&& width.mask) carry from rfl,
        hsum]
      omega
    have hsum := congrArg (Nat.cast : Nat → Int) hsum
    push_cast at hsum
    grind

theorem overflow_add (width : Width) (a b : UInt16) (carry : Bool) :
    (add a b carry width false).overflow = true ↔
      ¬width.Fits (width.signed a + width.signed b + carry.toNat) := by
  have hover := overflow_addBinary width (width.toNat_and_mask_lt a) (width.toNat_and_mask_lt b) carry
  rwa [Width.signed_and_mask, Width.signed_and_mask] at hover

theorem overflow_subtract (width : Width) (a b : UInt16) (carry : Bool) :
    (subtract a b carry width false).overflow = true ↔
      ¬width.Fits (width.signed a - width.signed b - (1 - carry.toNat)) := by
  have hover := overflow_addBinary width (width.toNat_and_mask_lt a) (width.toNat_and_mask_lt (~~~b)) carry
  have htotal : width.signed a + (-1 - width.signed b) + carry.toNat =
      width.signed a - width.signed b - (1 - carry.toNat) := by omega
  rwa [Width.signed_and_mask, signed_complement, htotal] at hover

/-- A comparison is a difference without borrow. -/
theorem compare_eq_subtract (register operand : UInt16) (width : Width) :
    compare register operand width =
      ((subtract register operand true width false).value, (subtract register operand true width false).carry) := by
  have hregister := width.toNat_and_mask_lt register
  have hoperand := width.toNat_and_mask_lt operand
  obtain ⟨hvalue, hcarry⟩ := isSum_addBinary width hregister (width.toNat_and_mask_lt (~~~operand)) true
  rw [toNat_complement, ← Width.toNat_and_mask, Bool.toNat_true] at hvalue hcarry
  refine Prod.ext (UInt16.toNat.inj ?_) (Bool.eq_iff_iff.2 ?_)
  · refine Eq.trans ?_ hvalue.symm
    rw [show (compare register operand width).1 = _ &&& width.mask from rfl, Width.toNat_and_mask, Width.unsigned,
      UInt16.toNat_sub]
    cases width <;> simp only [Width.bits] at hregister hoperand ⊢ <;> omega
  · refine Iff.trans ?_ hcarry.symm
    rw [show (compare register operand width).2 = decide (operand &&& width.mask ≤ register &&& width.mask) from rfl,
      decide_eq_true_eq, UInt16.le_iff_toNat_le]
    omega

/-- What was subtracted is added back, with the borrow as a carry. -/
theorem add_subtract_cancel (width : Width) (a b : UInt16) (carry : Bool) :
    (add (subtract a b carry width false).value b (!carry) width false).value.toNat = width.unsigned a := by
  let difference := subtract a b carry width false
  let sum := add difference.value b (!carry) width false
  have hdifference := (balances_subtract width).balance a b carry trivial trivial
  have hsum := (balances_add width).balance difference.value b (!carry) trivial trivial
  have hborrow : ((!carry).toNat : Int) = 1 - carry.toNat := by cases carry <;> rfl
  have hback : (width.unsigned sum.value : Int) + (2 ^ width.bits : Nat) * (sum.carry.toNat + difference.carry.toNat - 1) =
      width.unsigned a := by grind
  have hfits : sum.value.toNat = width.unsigned sum.value :=
    (Width.unsigned_of_lt (addBinary_value_lt width _ _ _)).symm
  have hsame : width.unsigned sum.value % 2 ^ width.bits = width.unsigned a % 2 ^ width.bits := by
    have hremainder := congrArg (· % ((2 ^ width.bits : Nat) : Int)) hback
    rw [Int.add_mul_emod_self_left] at hremainder
    exact_mod_cast hremainder
  rw [Nat.mod_eq_of_lt (width.unsigned_lt _), Nat.mod_eq_of_lt (width.unsigned_lt _)] at hsame
  exact hfits.trans hsame

/-- **Binary sums, differences and comparisons are machine arithmetic**, read with and without a sign, and through the
carry they are those of long numbers. -/
theorem binary_arithmetic (width : Width) :
    (∀ a b carry, let sum := add a b carry width false
      IsSum (2 ^ width.bits) (width.unsigned a) (width.unsigned b) carry sum.value.toNat sum.carry ∧
      (sum.overflow = true ↔ ¬width.Fits (width.signed a + width.signed b + carry.toNat))) ∧
    (∀ a b carry, let difference := subtract a b carry width false
      IsDifference (2 ^ width.bits) (width.unsigned a) (width.unsigned b) carry difference.value.toNat
        difference.carry ∧
      (difference.overflow = true ↔ ¬width.Fits (width.signed a - width.signed b - (1 - carry.toNat)))) ∧
    (∀ register operand, let difference := subtract register operand true width false
      compare register operand width = (difference.value, difference.carry)) ∧
    (∀ a b carry,
      (add (subtract a b carry width false).value b (!carry) width false).value.toNat = width.unsigned a) ∧
    (∀ as bs carry, as.length = bs.length →
      let value := number (2 ^ width.bits) width.unsigned
      let sum := chain (fun a b carry => add a b carry width false) as bs carry
      let difference := chain (fun a b carry => subtract a b carry width false) as bs carry
      (sum.1.length = as.length ∧ ∀ v ∈ sum.1, v.toNat < 2 ^ width.bits) ∧
      IsSum (2 ^ (width.bits * as.length)) (value as) (value bs) carry (value sum.1) sum.2 ∧
      (difference.1.length = as.length ∧ ∀ v ∈ difference.1, v.toNat < 2 ^ width.bits) ∧
      IsDifference (2 ^ (width.bits * as.length)) (value as) (value bs) carry (value difference.1) difference.2) := by
  have hadd := balances_add width
  have hsubtract := balances_subtract width
  refine ⟨fun a b carry => ⟨?_, overflow_add width a b carry⟩, fun a b carry => ⟨?_, overflow_subtract width a b carry⟩,
    fun register operand => compare_eq_subtract register operand width, add_subtract_cancel width, ?_⟩
  · simpa only [Width.unsigned_of_lt (hadd.settles a b carry trivial trivial)] using
      hadd.isSum (a := a) (b := b) trivial trivial carry
  · simpa only [Width.unsigned_of_lt (hsubtract.settles a b carry trivial trivial)] using
      hsubtract.isDifference (a := a) (b := b) trivial trivial carry
  · intro as bs carry hlength
    rw [pow_mul]
    have hvalid (operands : List UInt16) : ∀ v ∈ operands, True := fun _ _ => trivial
    exact ⟨hadd.chain_settles hlength (hvalid as) (hvalid bs) carry,
      hadd.chain_isSum hlength (hvalid as) (hvalid bs) carry,
      hsubtract.chain_settles hlength (hvalid as) (hvalid bs) carry,
      hsubtract.chain_isDifference hlength (hvalid as) (hvalid bs) carry⟩

/-- A carry runs through both bytes and out at the end, and a borrow comes back the same way. -/
theorem binary_arithmetic_through :
    let sum := chain (fun a b carry => add a b carry .byte false) [0xFF, 0xFF] [0x01, 0x00] false
    let difference := chain (fun a b carry => subtract a b carry .byte false) [0x00, 0x00] [0x01, 0x00] true
    let value := number (2 ^ Width.byte.bits) Width.byte.unsigned
    [0xFF, 0xFF].length = [0x01, 0x00].length ∧ sum = ([0x00, 0x00], true) ∧ difference = ([0xFF, 0xFF], false) ∧
    IsSum (2 ^ 16) (value [0xFF, 0xFF]) (value [0x01, 0x00]) false (value sum.1) sum.2 ∧
    IsDifference (2 ^ 16) (value [0x00, 0x00]) (value [0x01, 0x00]) true (value difference.1) difference.2 :=
  ⟨rfl, by decide, by decide, ((binary_arithmetic .byte).2.2.2.2 [0xFF, 0xFF] [0x01, 0x00] false rfl).2.1,
    ((binary_arithmetic .byte).2.2.2.2 [0x00, 0x00] [0x01, 0x00] true rfl).2.2.2⟩

end Arithmetic

end Emu816
