import Emu816.Proofs.BinaryArithmetic

/-!
# Decimal arithmetic

Decimal sums and differences of packed numbers are those of the numbers that their digits show.

- `unpack`, `pack`, `IsPacked`: the number behind four-bit digits, and its digits; they are inverse (`pack_unpack`).
- `DigitBalance`: a corrected digit and its carry make up two digits and a carry. The two corrections do so
  (`digitBalance_sum`, `digitBalance_difference`), the second one on complemented digits.
- `addDigits_packed`: so does the sum of all digits, by induction from the lowest one on.
- `decimal_arithmetic`: sums and differences of operands and of long numbers.
-/

namespace Emu816

namespace Arithmetic

/-! ## Packed numbers -/

/-- The number that the lowest packed digits show. -/
def unpack : (digits packed : Nat) → Nat
  | 0, _ => 0
  | digits + 1, packed => packed % 16 + 10 * unpack digits (packed / 16)

/-- The lowest digits of a number, four bits each. -/
def pack : (digits number : Nat) → Nat
  | 0, _ => 0
  | digits + 1, number => number % 10 + 16 * pack digits (number / 10)

/-- The lowest groups of four bits are decimal digits. -/
def IsPacked : (digits packed : Nat) → Prop
  | 0, _ => True
  | digits + 1, packed => packed % 16 < 10 ∧ IsPacked digits (packed / 16)

instance decidableIsPacked : (digits packed : Nat) → Decidable (IsPacked digits packed)
  | 0, _ => .isTrue trivial
  | digits + 1, packed => @instDecidableAnd _ _ _ (decidableIsPacked digits (packed / 16))

section Packed

variable {digits packed : Nat}

theorem unpack_lt (h : IsPacked digits packed) : unpack digits packed < 10 ^ digits := by
  induction digits generalizing packed with
  | zero => exact Nat.one_pos
  | succ digits ih =>
    have hrest := ih h.2
    have hdigit := h.1
    rw [unpack, pow_succ]
    omega

/-- A packed number is made of the digits that it shows. -/
theorem pack_unpack (h : IsPacked digits packed) (hlt : packed < 16 ^ digits) :
    pack digits (unpack digits packed) = packed := by
  induction digits generalizing packed with
  | zero =>
    rw [pow_zero] at hlt
    exact (Nat.lt_one_iff.1 hlt).symm
  | succ digits ih =>
    have hdigit := h.1
    rw [pow_succ] at hlt
    have hrest := ih h.2 (by omega)
    have hlow : unpack (digits + 1) packed % 10 = packed % 16 := by rw [unpack]; omega
    have hhigh : unpack (digits + 1) packed / 10 = unpack digits (packed / 16) := by rw [unpack]; omega
    rw [pack, hlow, hhigh, hrest]
    omega

/-- Only the lowest digits are looked at. -/
theorem unpack_mod (digits packed : Nat) : unpack digits (packed % 16 ^ digits) = unpack digits packed := by
  induction digits generalizing packed with
  | zero => rfl
  | succ digits ih =>
    rw [unpack, unpack, pow_succ', Nat.mod_mul_right_mod, Nat.mod_mul_right_div_self, ih]

theorem isPacked_mod (digits packed : Nat) : IsPacked digits (packed % 16 ^ digits) ↔ IsPacked digits packed := by
  induction digits generalizing packed with
  | zero => rfl
  | succ digits ih =>
    rw [IsPacked, IsPacked, pow_succ', Nat.mod_mul_right_mod, Nat.mod_mul_right_div_self, ih]

end Packed

/-! ## Digits -/

/-- A digit and a carry, corrected from the sum of a digit, the partner of a second digit and a carry, make up the two
digits, joined by `sign`, and the carry. A carry counts `offset` less than its bit, as in `Balances`. -/
def DigitBalance (correct : Nat → Nat × Bool) (partner : Nat → Nat) (sign offset : Int) : Prop :=
  ∀ (x y : Nat) (carry : Bool), x < 10 → y < 10 →
    let result := correct (x + partner y + carry.toNat)
    result.1 < 10 ∧ (result.1 : Int) + 10 * (result.2.toNat - offset) = x + sign * y + (carry.toNat - offset)

theorem digitBalance_sum : DigitBalance correctSum id 1 0 := by
  intro x y carry hx hy
  have hcarry : carry.toNat ≤ 1 := Bool.toNat_le carry
  by_cases hten : x + y + carry.toNat < 10
  · have hout : ¬16 ≤ x + y + carry.toNat := by omega
    simp [correctSum, hten, hout]
    omega
  · have hout : 16 ≤ x + y + carry.toNat + 6 := by omega
    simp [correctSum, hten, hout]
    omega

/-- A difference adds the complement of each digit. -/
theorem digitBalance_difference : DigitBalance correctDifference (15 - ·) (-1) 1 := by
  intro x y carry hx hy
  have hcarry : carry.toNat ≤ 1 := Bool.toNat_le carry
  by_cases hsixteen : x + (15 - y) + carry.toNat < 16
  · simp [correctDifference, hsixteen]
    omega
  · simp [correctDifference, hsixteen]
    omega

/-- The lowest digits of one number are the partners of those of another one. -/
def Partners (partner : Nat → Nat) : (digits partners packed : Nat) → Prop
  | 0, _, _ => True
  | digits + 1, partners, packed =>
    partners % 16 = partner (packed % 16) ∧ Partners partner digits (partners / 16) (packed / 16)

theorem partners_self (digits packed : Nat) : Partners id digits packed packed := by
  induction digits generalizing packed with
  | zero => trivial
  | succ digits ih => exact ⟨rfl, ih _⟩

theorem partners_complement {digits packed : Nat} (h : packed < 16 ^ digits) :
    Partners (15 - ·) digits (16 ^ digits - 1 - packed) packed := by
  induction digits generalizing packed with
  | zero => trivial
  | succ digits ih =>
    rw [pow_succ] at h ⊢
    refine ⟨show (16 ^ digits * 16 - 1 - packed) % 16 = 15 - packed % 16 by omega, ?_⟩
    have hrest : (16 ^ digits * 16 - 1 - packed) / 16 = 16 ^ digits - 1 - packed / 16 := by omega
    rw [hrest]
    exact ih (by omega)

/-- **Digit after digit, sums of packed numbers are packed** and make up the numbers that the digits show. -/
theorem addDigits_packed {correct : Nat → Nat × Bool} {partner : Nat → Nat} {sign offset : Int}
    (hdigit : DigitBalance correct partner sign offset) {digits a b partners : Nat} (ha : IsPacked digits a)
    (hb : IsPacked digits b) (hpartners : Partners partner digits partners b) (carry : Bool) :
    let result := addDigits correct digits a partners carry
    IsPacked digits result.1 ∧ result.1 < 16 ^ digits ∧
      (unpack digits result.1 : Int) + (10 ^ digits : Nat) * (result.2.1.toNat - offset) =
        unpack digits a + sign * unpack digits b + (carry.toNat - offset) := by
  induction digits generalizing a b partners carry with
  | zero => simp [addDigits, IsPacked, unpack]
  | succ digits ih =>
    obtain ⟨hdigitLt, hfirst⟩ := hdigit (a % 16) (b % 16) carry ha.1 hb.1
    rw [← hpartners.1] at hdigitLt hfirst
    rcases hcorrect : correct (a % 16 + partners % 16 + carry.toNat) with ⟨digit, carryOut⟩
    rw [hcorrect] at hdigitLt hfirst
    obtain ⟨hpacked, hlt, hrest⟩ := ih ha.2 hb.2 hpartners.2 carryOut
    rcases hothers : addDigits correct digits (a / 16) (partners / 16) carryOut with ⟨rest, last, overflow⟩
    rw [hothers] at hpacked hlt hrest
    have hlow : (digit + 16 * rest) % 16 = digit := by omega
    have hhigh : (digit + 16 * rest) / 16 = rest := by omega
    simp only [addDigits, hcorrect, hothers, IsPacked, unpack, hlow, hhigh, pow_succ]
    refine ⟨⟨hdigitLt, hpacked⟩, by omega, ?_⟩
    push_cast at hrest ⊢
    grind

end Arithmetic

/-! ## Operands -/

namespace Width

open Arithmetic

/-- Number of packed digits of an operand. -/
def digits (width : Width) : Nat := 2 * width.bytes

/-- Whether an operand is packed; the bits above the width do not count. -/
def IsDecimal (width : Width) (value : UInt16) : Prop := IsPacked width.digits value.toNat

instance (width : Width) (value : UInt16) : Decidable (width.IsDecimal value) := decidableIsPacked _ _

/-- The number that the digits of an operand show. -/
def decimal (width : Width) (value : UInt16) : Nat := unpack width.digits value.toNat

theorem two_pow_bits (width : Width) : 2 ^ width.bits = 16 ^ width.digits := by cases width <;> rfl

theorem isDecimal_and_mask (width : Width) (value : UInt16) :
    width.IsDecimal (value &&& width.mask) ↔ width.IsDecimal value := by
  rw [IsDecimal, toNat_and_mask, unsigned, two_pow_bits, isPacked_mod, IsDecimal]

theorem decimal_and_mask (width : Width) (value : UInt16) :
    width.decimal (value &&& width.mask) = width.decimal value := by
  rw [decimal, toNat_and_mask, unsigned, two_pow_bits, unpack_mod, decimal]

end Width

namespace Arithmetic

/-- An operand of packed digits with nothing above them. -/
def Settled (width : Width) (value : UInt16) : Prop := value.toNat < 2 ^ width.bits ∧ width.IsDecimal value

/-- A settled operand is packed from its number. -/
theorem Settled.toNat_eq {width : Width} {value : UInt16} (h : Settled width value) :
    value.toNat = pack width.digits (width.decimal value) :=
  (pack_unpack h.2 (width.two_pow_bits ▸ h.1)).symm

/-- The sum of packed operands, or their difference if the second one is complemented. -/
theorem addDecimal_packed {correct : Nat → Nat × Bool} {partner : Nat → Nat} {sign offset : Int}
    (hdigit : DigitBalance correct partner sign offset) (width : Width) {a b partners : UInt16}
    (ha : width.IsDecimal a) (hb : width.IsDecimal b)
    (hpartners : Partners partner width.digits partners.toNat b.toNat) (carry : Bool) :
    let sum := addDecimal correct width a partners carry
    Settled width sum.value ∧
      (width.decimal sum.value : Int) + (10 ^ width.digits : Nat) * (sum.carry.toNat - offset) =
        width.decimal a + sign * width.decimal b + (carry.toNat - offset) := by
  obtain ⟨hpacked, hlt, hbalance⟩ := addDigits_packed hdigit ha hb hpartners carry
  have hvalue : (addDecimal correct width a partners carry).value.toNat =
      (addDigits correct width.digits a.toNat partners.toNat carry).1 := by
    rw [show (addDecimal correct width a partners carry).value =
      (addDigits correct width.digits a.toNat partners.toNat carry).1.toUInt16 from rfl, Nat.toUInt16_eq,
      UInt16.toNat_ofNat']
    refine Nat.mod_eq_of_lt (Nat.lt_of_lt_of_le hlt ?_)
    cases width <;> decide
  refine ⟨⟨?_, ?_⟩, ?_⟩
  · rwa [hvalue, width.two_pow_bits]
  · rwa [Width.IsDecimal, hvalue]
  · rwa [Width.decimal, hvalue]

theorem add_packed (width : Width) {a b : UInt16} (ha : width.IsDecimal a) (hb : width.IsDecimal b) (carry : Bool) :
    let sum := add a b carry width true
    Settled width sum.value ∧
      (width.decimal sum.value : Int) + (10 ^ width.digits : Nat) * (sum.carry.toNat - 0) =
        width.decimal a + 1 * width.decimal b + (carry.toNat - 0) := by
  have hsum := addDecimal_packed digitBalance_sum width ((width.isDecimal_and_mask a).2 ha)
    ((width.isDecimal_and_mask b).2 hb) (partners_self _ _) carry
  rwa [Width.decimal_and_mask, Width.decimal_and_mask] at hsum

theorem subtract_packed (width : Width) {a b : UInt16} (ha : width.IsDecimal a) (hb : width.IsDecimal b)
    (carry : Bool) :
    let difference := subtract a b carry width true
    Settled width difference.value ∧
      (width.decimal difference.value : Int) + (10 ^ width.digits : Nat) * (difference.carry.toNat - 1) =
        width.decimal a + -1 * width.decimal b + (carry.toNat - 1) := by
  have hpartners : Partners (15 - ·) width.digits (~~~b &&& width.mask).toNat (b &&& width.mask).toNat := by
    rw [toNat_complement, ← Width.toNat_and_mask, width.two_pow_bits]
    exact partners_complement (width.two_pow_bits ▸ width.toNat_and_mask_lt b)
  have hdifference := addDecimal_packed digitBalance_difference width ((width.isDecimal_and_mask a).2 ha)
    ((width.isDecimal_and_mask b).2 hb) hpartners carry
  rwa [Width.decimal_and_mask, Width.decimal_and_mask] at hdifference

theorem balances_add_decimal (width : Width) :
    Balances (10 ^ width.digits) width.decimal width.IsDecimal (Settled width) 1 0
      fun a b carry => add a b carry width true where
  one_lt_base := Nat.one_lt_pow (by cases width <;> decide) (by decide)
  value_lt _ h := unpack_lt h.2
  settles _ _ carry ha hb := (add_packed width ha hb carry).1
  balance _ _ carry ha hb := (add_packed width ha hb carry).2

theorem balances_subtract_decimal (width : Width) :
    Balances (10 ^ width.digits) width.decimal width.IsDecimal (Settled width) (-1) 1
      fun a b carry => subtract a b carry width true where
  one_lt_base := Nat.one_lt_pow (by cases width <;> decide) (by decide)
  value_lt _ h := unpack_lt h.2
  settles _ _ carry ha hb := (subtract_packed width ha hb carry).1
  balance _ _ carry ha hb := (subtract_packed width ha hb carry).2

/-- **Decimal sums and differences are those of the numbers that the digits show**, and through the carry they are those
of long numbers. -/
theorem decimal_arithmetic (width : Width) :
    (∀ a b carry, width.IsDecimal a → width.IsDecimal b →
      let sum := add a b carry width true
      let total := width.decimal a + width.decimal b + carry.toNat
      sum.value.toNat = pack width.digits (total % 10 ^ width.digits) ∧
        (sum.carry = true ↔ 10 ^ width.digits ≤ total)) ∧
    (∀ a b carry, width.IsDecimal a → width.IsDecimal b →
      let difference := subtract a b carry width true
      let total : Int := width.decimal a - width.decimal b - (1 - carry.toNat)
      difference.value.toNat = pack width.digits (total % (10 ^ width.digits : Nat)).toNat ∧
        (difference.carry = true ↔ 0 ≤ total)) ∧
    (∀ as bs carry, as.length = bs.length → (∀ a ∈ as, width.IsDecimal a) → (∀ b ∈ bs, width.IsDecimal b) →
      let value := number (10 ^ width.digits) width.decimal
      let sum := chain (fun a b carry => add a b carry width true) as bs carry
      let difference := chain (fun a b carry => subtract a b carry width true) as bs carry
      (sum.1.length = as.length ∧ ∀ v ∈ sum.1, Settled width v) ∧
      IsSum (10 ^ (width.digits * as.length)) (value as) (value bs) carry (value sum.1) sum.2 ∧
      (difference.1.length = as.length ∧ ∀ v ∈ difference.1, Settled width v) ∧
      IsDifference (10 ^ (width.digits * as.length)) (value as) (value bs) carry (value difference.1) difference.2) := by
  have hadd := balances_add_decimal width
  have hsubtract := balances_subtract_decimal width
  refine ⟨fun a b carry ha hb => ?_, fun a b carry ha hb => ?_, fun as bs carry hlength has hbs => ?_⟩
  · have hsum := hadd.isSum ha hb carry
    refine ⟨?_, hsum.carry_iff⟩
    rw [(hadd.settles a b carry ha hb).toNat_eq, hsum.value_eq]
  · have hdifference := hsubtract.isDifference ha hb carry
    refine ⟨?_, hdifference.carry_iff⟩
    rw [(hsubtract.settles a b carry ha hb).toNat_eq, ← hdifference.value_eq, Int.toNat_natCast]
  · rw [pow_mul]
    exact ⟨hadd.chain_settles hlength has hbs carry, hadd.chain_isSum hlength has hbs carry,
      hsubtract.chain_settles hlength has hbs carry, hsubtract.chain_isDifference hlength has hbs carry⟩

/-- Over two bytes each, 9999 and 1 make 10000, and 0 less 1 borrows through both. -/
theorem decimal_arithmetic_through :
    let sum := chain (fun a b carry => add a b carry .byte true) [0x99, 0x99] [0x01, 0x00] false
    let difference := chain (fun a b carry => subtract a b carry .byte true) [0x00, 0x00] [0x01, 0x00] true
    let value := number (10 ^ Width.byte.digits) Width.byte.decimal
    Width.byte.IsDecimal 0x99 ∧ Width.byte.IsDecimal 0x01 ∧ (add 0x99 0x01 false .byte true).value = 0x00 ∧
    (add 0x99 0x01 false .byte true).value.toNat = pack 2 ((99 + 1 + 0) % 100) ∧
    (subtract 0x99 0x01 false .byte true).value.toNat = pack 2 97 ∧
    sum = ([0x00, 0x00], true) ∧ difference = ([0x99, 0x99], false) ∧
    IsSum (10 ^ 4) (value [0x99, 0x99]) (value [0x01, 0x00]) false (value sum.1) sum.2 ∧
    IsDifference (10 ^ 4) (value [0x00, 0x00]) (value [0x01, 0x00]) true (value difference.1) difference.2 := by
  intro sum difference value
  have hpair {low high : UInt16} (hlow : Width.byte.IsDecimal low) (hhigh : Width.byte.IsDecimal high) :
      ∀ operand ∈ [low, high], Width.byte.IsDecimal operand :=
    List.forall_mem_cons.2 ⟨hlow, List.forall_mem_singleton.2 hhigh⟩
  have hone : ∀ operand ∈ [0x01, 0x00], Width.byte.IsDecimal operand := hpair (by decide) (by decide)
  obtain ⟨hadd, hsubtract, hlong⟩ := decimal_arithmetic .byte
  have hlongSum := (hlong [0x99, 0x99] [0x01, 0x00] false rfl (hpair (by decide) (by decide)) hone).2.1
  have hlongDifference := (hlong [0x00, 0x00] [0x01, 0x00] true rfl (hpair (by decide) (by decide)) hone).2.2.2
  exact ⟨by decide, by decide, by decide, (hadd 0x99 0x01 false (by decide) (by decide)).1,
    (hsubtract 0x99 0x01 false (by decide) (by decide)).1, by decide, by decide, hlongSum, hlongDifference⟩

end Arithmetic

end Emu816
