import Emu816.Arithmetic
import Emu816.Proofs.CheckedAddresses
import Mathlib.Data.Nat.Bitwise

/-!
# Checked decimal sums

The sum of packed decimal numbers in signed 32-bit arithmetic, digit by digit with shifts and masks, where a result out
of range is no result. All intermediate numbers are in range, also below zero and for digits that are none, and the
outcome is the decimal sum.

- `Checked.signed`, `Checked.shift`: arithmetic that stays in range.
- `Checked.rawSum`, `Checked.addDigit`, `Checked.addDigits`: one digit, and the digits from the lowest on.
- `Checked.Adjusts`: what a correction does to a digit; `adjusts_sum`, `adjusts_difference`: the two corrections do it.
- `Checked.decimal_eq`: the sum of any two operands, whatever their digits.
-/

namespace Emu816.Checked

/-! ## Signed numbers -/

/-- The 32-bit number of a value, unless it is out of range. -/
def signed (value : Int) : Option Int32 :=
  if -0x80000000 ≤ value ∧ value < 0x80000000 then some (Int32.ofInt value) else none

/-- The number moved up by bits of the word, unless a bit of it is lost. -/
def shift (number : Int32) (count : Nat) : Option Int32 :=
  if count < 32 then signed (number.toInt * (1 <<< count : Nat)) else none

/-- The number just below a number that is moved up. -/
def below (number : Int32) (count : Nat) : Option Int32 := do
  let bound ← shift number count
  signed (bound.toInt - 1)

/-- A word as a signed number. -/
def ofWord (word : UInt16) : Int32 := Int32.ofNat word.toNat

/-! ## Digits -/

/-- The sum so far, between two digits. -/
structure DigitSum where
  result : Int32
  carry : Bool
  overflow : Bool

/-- Corrects the digit at a place of a sum: six is added from ten on. -/
def adjustSum (raw : Int32) (place : Nat) : Option Int32 := do
  let limit ← below 0xA place
  if limit < raw then do
    let six ← shift 0x6 place
    signed (raw.toInt + six.toInt)
  else return raw

/-- Corrects the digit at a place of a difference: six is taken away unless the digit carries. -/
def adjustDifference (raw : Int32) (place : Nat) : Option Int32 := do
  let limit ← below 0x10 place
  if raw ≤ limit then do
    let six ← shift 0x6 place
    signed (raw.toInt - six.toInt)
  else return raw

/-- The sum of the digits of two numbers at a place, the carry and what is below the place, not yet corrected. -/
def rawSum (a b : Int32) (digit : Nat) (sum : DigitSum) : Option Int32 := do
  let place := 4 * digit
  let nibble ← shift 0xF place
  let carried ← shift (Int32.ofNat sum.carry.toNat) place
  let kept ← below 1 place
  let nibbles ← signed ((a &&& nibble).toInt + (b &&& nibble).toInt)
  let added ← signed (nibbles.toInt + carried.toInt)
  signed (added.toInt + (sum.result &&& kept).toInt)

/-- Adds a digit of two numbers to the sum of the digits below it. -/
def addDigit (adjust : Int32 → Nat → Option Int32) (a b sign : Int32) (digits digit : Nat) (sum : DigitSum) :
    Option DigitSum := do
  let raw ← rawSum a b digit sum
  let last ← sub digits 1
  let result ← adjust raw (4 * digit)
  let limit ← below 0x10 (4 * digit)
  return { result
           carry := limit < result
           overflow := if digit = last then ~~~(a ^^^ b) &&& (a ^^^ raw) &&& sign != 0 else sum.overflow }

/-- Adds the digits from `digit` on, `rest` in number. -/
def addDigits (adjust : Int32 → Nat → Option Int32) (a b sign : Int32) (digits : Nat) :
    (rest digit : Nat) → DigitSum → Option DigitSum
  | 0, _, sum => some sum
  | rest + 1, digit, sum => do
    let sum ← addDigit adjust a b sign digits digit sum
    addDigits adjust a b sign digits rest (digit + 1) sum

/-- The packed decimal sum of two operands and a carry. -/
def decimal (adjust : Int32 → Nat → Option Int32) (width : Width) (a b : UInt16) (carry : Bool) :
    Option Arithmetic.Sum := do
  let digits := 2 * width.bytes
  let sum ← addDigits adjust (ofWord a) (ofWord b) (ofWord width.signBit) digits digits 0 ⟨0, carry, false⟩
  return { value := (sum.result &&& ofWord width.mask).toUInt32.toUInt16, carry := sum.carry, overflow := sum.overflow }

/-- The decimal sum at a width. -/
def addDecimal (a b : UInt16) (carry : Bool) (width : Width) : Option Arithmetic.Sum :=
  decimal adjustSum width (a &&& width.mask) (b &&& width.mask) carry

/-- The decimal difference at a width. -/
def subtractDecimal (a b : UInt16) (carry : Bool) (width : Width) : Option Arithmetic.Sum :=
  decimal adjustDifference width (a &&& width.mask) (~~~b &&& width.mask) carry

/-! ## Numbers and digits -/

/-- Value of one at the place of a digit. -/
def scale (digit : Nat) : Nat := 1 <<< (4 * digit)

section Numbers

theorem scale_cases {digit : Nat} (h : digit < 4) :
    scale digit = 1 ∨ scale digit = 16 ∨ scale digit = 256 ∨ scale digit = 4096 :=
  (by decide : ∀ digit < 4, scale digit = 1 ∨ scale digit = 16 ∨ scale digit = 256 ∨ scale digit = 4096) digit h

theorem scale_succ (digit : Nat) : scale (digit + 1) = scale digit * 16 := by
  rw [scale, scale, Nat.shiftLeft_eq, Nat.shiftLeft_eq, Nat.mul_add, Nat.pow_add]
  omega

theorem signed_eq {value : Int} (hlow : -0x80000000 ≤ value) (hhigh : value < 0x80000000) :
    ∃ number, signed value = some number ∧ number.toInt = value :=
  ⟨Int32.ofInt value, if_pos ⟨hlow, hhigh⟩, Int32.toInt_ofInt_of_le hlow hhigh⟩

/-- A digit, or its limit, can be moved to its place. -/
theorem shift_eq (number : Int32) {digit : Nat} (hdigit : digit < 4) (hlow : 0 ≤ number.toInt)
    (hhigh : number.toInt ≤ 16) :
    ∃ moved, shift number (4 * digit) = some moved ∧ moved.toInt = number.toInt * scale digit := by
  have hcount : 4 * digit < 32 := by omega
  rw [shift, if_pos hcount]
  apply signed_eq
  · rcases scale_cases hdigit with h | h | h | h <;> rw [← scale, h] <;> omega
  · rcases scale_cases hdigit with h | h | h | h <;> rw [← scale, h] <;> omega

theorem below_eq (number : Int32) {digit : Nat} (hdigit : digit < 4) (hlow : 0 ≤ number.toInt)
    (hhigh : number.toInt ≤ 16) :
    ∃ bound, below number (4 * digit) = some bound ∧ bound.toInt = number.toInt * scale digit - 1 := by
  obtain ⟨moved, hmoved, hvalue⟩ := shift_eq number hdigit hlow hhigh
  rw [below, hmoved, ← hvalue]
  apply signed_eq
  · rcases scale_cases hdigit with h | h | h | h <;> rw [hvalue, h] <;> omega
  · rcases scale_cases hdigit with h | h | h | h <;> rw [hvalue, h] <;> omega

/-! ## Masks -/

theorem toNat_toBitVec {number : Int32} {value : Nat} (hvalue : value < 0x80000000) :
    number.toBitVec.toNat = value ↔ number.toInt = value := by
  have hlt := number.toBitVec.isLt
  rw [← Int32.toInt_toBitVec, BitVec.toInt_eq_toNat_cond]
  omega

theorem toNat_ofWord (word : UInt16) : (ofWord word).toBitVec.toNat = word.toNat :=
  Nat.mod_eq_of_lt (Nat.lt_of_lt_of_le word.toNat_lt (by decide))

/-- The bits below a place are a remainder, also of a number below zero. -/
theorem toInt_and_mask (number : Int32) {mask : Int32} {count : Nat} (hcount : count < 32)
    (hmask : mask.toInt = (1 <<< count : Nat) - 1) :
    (number &&& mask).toInt = number.toInt % (1 <<< count : Nat) := by
  have hone : 1 <<< count = 2 ^ count := by rw [Nat.shiftLeft_eq, Nat.one_mul]
  have hle : 2 ^ count ≤ 2 ^ 31 := Nat.pow_le_pow_right (by decide) (Nat.le_of_lt_succ hcount)
  have hpos : 0 < 2 ^ count := Nat.two_pow_pos count
  rw [hone] at hmask ⊢
  have hmask : mask.toBitVec.toNat = 2 ^ count - 1 := (toNat_toBitVec (by omega)).2 (by omega)
  have hbits : (number &&& mask).toBitVec.toNat = number.toBitVec.toNat % 2 ^ count := by
    rw [Int32.toBitVec_and, BitVec.toNat_and, hmask, Nat.and_two_pow_sub_one_eq_mod]
  have hlt : number.toBitVec.toNat % 2 ^ count < 0x80000000 := Nat.lt_of_lt_of_le (Nat.mod_lt _ hpos) hle
  -- a number below zero differs from its bits by a multiple of every smaller power
  have hdvd : (2 ^ count : Nat) ∣ 2 ^ 32 := Nat.pow_dvd_pow 2 (Nat.le_of_lt hcount)
  have hsame : number.toInt % (2 ^ count : Nat) = number.toBitVec.toNat % (2 ^ count : Nat) := by
    rw [← Int32.toInt_toBitVec, BitVec.toInt_eq_toNat_bmod, ← Int.emod_emod_of_dvd _ (Int.natCast_dvd_natCast.2 hdvd),
      Int.bmod_emod, Int.emod_emod_of_dvd _ (Int.natCast_dvd_natCast.2 hdvd)]
  rw [hsame, (toNat_toBitVec hlt).1 hbits, Int.natCast_mod]

/-- The bits at a place are a digit. -/
theorem toInt_and_nibble (word : UInt16) {nibble : Int32} {digit : Nat} (hdigit : digit < 4)
    (hnibble : nibble.toInt = 15 * scale digit) :
    (ofWord word &&& nibble).toInt = (word.toNat / scale digit % 16 : Nat) * scale digit := by
  have hbits (n k count : Nat) : n &&& (2 ^ k - 1) <<< count = (n >>> count % 2 ^ k) <<< count := by
    apply Nat.eq_of_testBit_eq
    intro i
    simp only [Nat.testBit_and, Nat.testBit_shiftLeft, Nat.testBit_shiftRight, Nat.testBit_mod_two_pow,
      Nat.testBit_two_pow_sub_one]
    by_cases hi : count ≤ i
    · simp [hi, Bool.and_comm]
    · simp [hi]
  have hword := word.toNat_lt
  have hscale : (2 ^ 4 - 1) <<< (4 * digit) = 15 * scale digit := by
    rw [scale, Nat.shiftLeft_eq, Nat.shiftLeft_eq, Nat.one_mul]
    rfl
  have hnibble : nibble.toBitVec.toNat = 15 * scale digit := by
    refine (toNat_toBitVec ?_).2 hnibble
    rcases scale_cases hdigit with h | h | h | h <;> rw [h] <;> decide
  have hvalue : (ofWord word &&& nibble).toBitVec.toNat = (word.toNat / scale digit % 16) * scale digit := by
    rw [Int32.toBitVec_and, BitVec.toNat_and, toNat_ofWord, hnibble, ← hscale, hbits]
    simp only [scale, Nat.shiftLeft_eq, Nat.shiftRight_eq_div_pow, Nat.one_mul]
    rfl
  have hle : (word.toNat / scale digit % 16) * scale digit ≤ word.toNat :=
    Nat.le_trans (Nat.mul_le_mul_right _ (Nat.mod_le _ _)) (Nat.div_mul_le_self _ _)
  rw [(toNat_toBitVec (by omega)).1 hvalue]
  rfl

/-- Overflow is told by the highest bit of the last digit. -/
theorem overflow_eq (a b : UInt16) {raw sign : Int32} {digit low digitSum : Nat} (hdigit : digit < 4)
    (hlow : low < scale digit) (hsum : digitSum < 32) (hraw : raw.toInt = low + digitSum * scale digit)
    (hsign : sign.toInt = 8 * scale digit) :
    (~~~(ofWord a ^^^ ofWord b) &&& (ofWord a ^^^ raw) &&& sign != 0) =
      Arithmetic.signsOverflow (a.toNat / scale digit) (b.toNat / scale digit) digitSum 8 := by
  have hscale : scale digit = 2 ^ (4 * digit) := by rw [scale, Nat.shiftLeft_eq, Nat.one_mul]
  have hword (word : UInt16) :
      (ofWord word).toBitVec.getLsbD (4 * digit + 3) = (word.toNat / scale digit).testBit 3 := by
    rw [← BitVec.testBit_toNat, toNat_ofWord, hscale, Nat.testBit_div_two_pow, Nat.add_comm]
  have hrawBit : raw.toBitVec.getLsbD (4 * digit + 3) = digitSum.testBit 3 := by
    have hbits : raw.toBitVec.toNat = 2 ^ (4 * digit) * digitSum + low := by
      rw [← hscale]
      refine (toNat_toBitVec ?_).2 (hraw.trans ?_)
      · rcases scale_cases hdigit with h | h | h | h <;> rw [h] at hlow ⊢ <;> omega
      · grind
    rw [← BitVec.testBit_toNat, hbits, Nat.testBit_two_pow_mul_add _ (hscale ▸ hlow), if_neg (by omega),
      Nat.add_sub_cancel_left]
  have hsignBit : sign.toBitVec = BitVec.twoPow 32 (4 * digit + 3) := by
    have hbits : sign.toBitVec.toNat = 8 * scale digit :=
      (toNat_toBitVec (by rcases scale_cases hdigit with h | h | h | h <;> rw [h] <;> decide)).2 hsign
    apply BitVec.eq_of_toNat_eq
    rw [hbits, BitVec.toNat_twoPow, Nat.mod_eq_of_lt (Nat.pow_lt_pow_right (by decide) (by omega)), hscale,
      Nat.pow_add, Nat.mul_comm]
  have hnonzero : BitVec.twoPow 32 (4 * digit + 3) ≠ 0#32 := by
    intro hzero
    have hvalue : sign.toInt = 0 := by rw [← Int32.toInt_toBitVec, hsignBit, hzero]; rfl
    rcases scale_cases hdigit with h | h | h | h <;> rw [h] at hsign <;> omega
  have hinside : 4 * digit + 3 < 32 := by omega
  have height (n : Nat) : n &&& 8 = (n.testBit 3).toNat * 8 := Nat.and_two_pow n 3
  rw [Bool.eq_iff_iff, bne_iff_ne, ne_eq, ← Int32.toBitVec_inj]
  simp only [Int32.toBitVec_and, Int32.toBitVec_not, Int32.toBitVec_xor, hsignBit, BitVec.and_twoPow,
    BitVec.getLsbD_and, BitVec.getLsbD_not, BitVec.getLsbD_xor, hword, hrawBit, hinside, decide_true,
    Arithmetic.signsOverflow, height]
  cases (a.toNat / scale digit).testBit 3 <;> cases (b.toNat / scale digit).testBit 3 <;>
    cases digitSum.testBit 3 <;> simp [hnonzero]

end Numbers

/-! ## One digit after another -/

section Sums

/-- What a correction of a raw digit sum at a place does to the number and its digit, with `low` below the place. -/
def Adjusts (adjust : Int32 → Nat → Option Int32) (correct : Nat → Nat × Bool) : Prop :=
  ∀ (raw : Int32) (digit low digitSum : Nat), digit < 4 → low < scale digit → digitSum < 32 →
    raw.toInt = low + digitSum * scale digit →
    ∃ result, adjust raw (4 * digit) = some result ∧ ∃ corrected : Int,
      result.toInt = low + corrected * scale digit ∧ corrected % 16 = (correct digitSum).1 ∧
        ((correct digitSum).2 = true ↔ 16 ≤ corrected)

/-- A number beyond a limit has as many ones at the place. -/
theorem limit_lt_iff {digit low : Nat} (hdigit : digit < 4) (hlow : low < scale digit) {limit number : Int32}
    {bound count : Int} (hlimit : limit.toInt = bound * scale digit - 1)
    (hnumber : number.toInt = low + count * scale digit) : limit < number ↔ bound ≤ count := by
  rw [Int32.lt_iff_toInt_lt, hlimit, hnumber]
  rcases scale_cases hdigit with h | h | h | h <;> rw [h] at hlow ⊢ <;> omega

/-- A few ones at a place, above or below zero, are in range. -/
theorem signed_place {digit low : Nat} (hdigit : digit < 4) (hlow : low < scale digit) (count : Int)
    (hmin : -16 ≤ count) (hmax : count ≤ 64) :
    ∃ number, signed (low + count * scale digit) = some number ∧ number.toInt = low + count * scale digit := by
  apply signed_eq
  · rcases scale_cases hdigit with h | h | h | h <;> rw [h] at hlow ⊢ <;> omega
  · rcases scale_cases hdigit with h | h | h | h <;> rw [h] at hlow ⊢ <;> omega

theorem adjusts_sum : Adjusts adjustSum Arithmetic.correctSum := by
  intro raw digit low digitSum hdigit hlow hsum hraw
  obtain ⟨limit, hlimit, hlimitValue⟩ := below_eq 0xA hdigit (by decide) (by decide)
  obtain ⟨six, hsix, hsixValue⟩ := shift_eq 0x6 hdigit (by decide) (by decide)
  have hsixValue : six.toInt = 6 * scale digit := hsixValue
  have hcompare : limit < raw ↔ (10 : Int) ≤ digitSum := limit_lt_iff hdigit hlow hlimitValue hraw
  simp only [adjustSum, hlimit, hsix, Option.bind_eq_bind, Option.bind_some, Option.pure_def, hcompare,
    Arithmetic.correctSum, decide_eq_true_eq]
  by_cases hten : digitSum < 10
  · rw [if_neg (by omega), if_pos hten]
    exact ⟨raw, rfl, digitSum, hraw, by omega, by omega⟩
  · rw [if_pos (by omega), if_neg hten, hraw, hsixValue, Int.add_assoc, ← Int.add_mul]
    obtain ⟨result, hresult, hvalue⟩ := signed_place hdigit hlow (digitSum + 6) (by omega) (by omega)
    exact ⟨result, hresult, digitSum + 6, hvalue, by omega, by omega⟩

theorem adjusts_difference : Adjusts adjustDifference Arithmetic.correctDifference := by
  intro raw digit low digitSum hdigit hlow hsum hraw
  obtain ⟨limit, hlimit, hlimitValue⟩ := below_eq 0x10 hdigit (by decide) (by decide)
  obtain ⟨six, hsix, hsixValue⟩ := shift_eq 0x6 hdigit (by decide) (by decide)
  have hsixValue : six.toInt = 6 * scale digit := hsixValue
  have hcompare : limit < raw ↔ (16 : Int) ≤ digitSum := limit_lt_iff hdigit hlow hlimitValue hraw
  simp only [adjustDifference, hlimit, hsix, Option.bind_eq_bind, Option.bind_some, Option.pure_def,
    ← Int32.not_lt, hcompare, Arithmetic.correctDifference]
  by_cases hsixteen : digitSum < 16
  · rw [if_pos (by omega), if_pos hsixteen, hraw, hsixValue, Int.add_sub_assoc, ← Int.sub_mul]
    -- the number may fall below zero here, its digit does not see that
    obtain ⟨result, hresult, hvalue⟩ := signed_place hdigit hlow (digitSum - 6) (by omega) (by omega)
    exact ⟨result, hresult, digitSum - 6, hvalue, by omega, nofun, fun h => by omega⟩
  · rw [if_neg (by omega), if_neg hsixteen]
    exact ⟨raw, rfl, digitSum, hraw, by omega, fun _ => by omega, fun _ => rfl⟩

variable {adjust : Int32 → Nat → Option Int32} {correct : Nat → Nat × Bool}

/-- The digits of two words at a place, and a carry, added. -/
def rawDigit (a b : UInt16) (digit : Nat) (carry : Bool) : Nat :=
  a.toNat / scale digit % 16 + b.toNat / scale digit % 16 + carry.toNat

theorem rawDigit_lt (a b : UInt16) (digit : Nat) (carry : Bool) : rawDigit a b digit carry < 32 := by
  have hcarry : carry.toNat ≤ 1 := Bool.toNat_le _
  rw [rawDigit]
  omega

/-- **The raw sum is formed within the range**: the raw digit at its place, and below it what was there before. -/
theorem rawSum_eq (a b : UInt16) {digit : Nat} (hdigit : digit < 4) (sum : DigitSum) :
    ∃ raw low, rawSum (ofWord a) (ofWord b) digit sum = some raw ∧ low < scale digit ∧
      sum.result.toInt % scale digit = (low : Nat) ∧
      raw.toInt = (low : Nat) + rawDigit a b digit sum.carry * scale digit := by
  have hpos : 0 < scale digit := by rcases scale_cases hdigit with h | h | h | h <;> rw [h] <;> decide
  have hcarry : (Int32.ofNat sum.carry.toNat).toInt = sum.carry.toNat := by cases sum.carry <;> rfl
  have hcarryLe : sum.carry.toNat ≤ 1 := Bool.toNat_le _
  have hraw := rawDigit_lt a b digit sum.carry
  obtain ⟨nibble, hnibble, hnibbleValue⟩ := shift_eq 0xF hdigit (by decide) (by decide)
  obtain ⟨carried, hcarried, hcarriedValue⟩ :=
    shift_eq (Int32.ofNat sum.carry.toNat) hdigit (by omega) (by omega)
  obtain ⟨kept, hkept, hkeptValue⟩ := below_eq 1 hdigit (by decide) (by decide)
  have hrest : (sum.result &&& kept).toInt = sum.result.toInt % scale digit :=
    toInt_and_mask _ (by omega) (by rw [hkeptValue]; exact congrArg (· - 1) (Int.one_mul _))
  obtain ⟨low, hlow⟩ := Int.eq_ofNat_of_zero_le (Int.emod_nonneg sum.result.toInt (b := scale digit) (by omega))
  have hlowLt : low < scale digit := by
    have := Int.emod_lt_of_pos sum.result.toInt (b := scale digit) (by omega)
    omega
  -- the two digits, with the carry, and with what is below
  obtain ⟨nibbles, hnibbles, hnibblesValue⟩ := signed_place hdigit hpos
    (a.toNat / scale digit % 16 + b.toNat / scale digit % 16 : Nat) (by omega) (by omega)
  obtain ⟨added, hadded, haddedValue⟩ := signed_place hdigit hpos (rawDigit a b digit sum.carry) (by omega) (by omega)
  obtain ⟨raw, hsum, hvalue⟩ := signed_place hdigit hlowLt (rawDigit a b digit sum.carry) (by omega) (by omega)
  have hfirst : (ofWord a &&& nibble).toInt + (ofWord b &&& nibble).toInt =
      (0 : Nat) + (a.toNat / scale digit % 16 + b.toNat / scale digit % 16 : Nat) * scale digit := by
    rw [toInt_and_nibble a hdigit hnibbleValue, toInt_and_nibble b hdigit hnibbleValue]
    grind
  have hsecond : nibbles.toInt + carried.toInt = (0 : Nat) + rawDigit a b digit sum.carry * scale digit := by
    rw [hnibblesValue, hcarriedValue, hcarry, rawDigit]
    grind
  have hthird : added.toInt + (sum.result &&& kept).toInt = low + rawDigit a b digit sum.carry * scale digit := by
    rw [haddedValue, hrest, hlow]
    grind
  refine ⟨raw, low, ?_, hlowLt, hlow, hvalue⟩
  simp only [rawSum, hnibble, hcarried, hkept, hfirst, hnibbles, hsecond, hadded, hthird, hsum, Option.bind_eq_bind,
    Option.bind_some]

/-- **A digit is added within the range**, and the digits below it are kept. -/
theorem addDigit_eq (hadjust : Adjusts adjust correct) (a b : UInt16) {sign : Int32} {digits digit : Nat}
    (hdigits : digits ≤ 4) (hdigit : digit < digits) (hsign : sign.toInt = 8 * scale (digits - 1)) (sum : DigitSum) :
    let digitSum := rawDigit a b digit sum.carry
    let overflow := Arithmetic.signsOverflow (a.toNat / scale digit) (b.toNat / scale digit) digitSum 8
    ∃ result, addDigit adjust (ofWord a) (ofWord b) sign digits digit sum =
        some ⟨result, (correct digitSum).2, if digit = digits - 1 then overflow else sum.overflow⟩ ∧
      result.toInt % scale (digit + 1) = sum.result.toInt % scale digit + (correct digitSum).1 * scale digit := by
  intro digitSum overflow
  have hplace : digit < 4 := Nat.lt_of_lt_of_le hdigit hdigits
  have hraw : digitSum < 32 := rawDigit_lt a b digit sum.carry
  obtain ⟨raw, low, hsum, hlow, hrest, hrawValue⟩ := rawSum_eq a b hplace sum
  obtain ⟨limit, hlimit, hlimitValue⟩ := below_eq 0x10 hplace (by decide) (by decide)
  obtain ⟨result, hresult, corrected, hvalue, hdigitValue, hcarryOut⟩ :=
    hadjust raw digit low digitSum hplace hlow hraw hrawValue
  have hcarries : decide (limit < result) = (correct digitSum).2 := by
    rw [Bool.eq_iff_iff, decide_eq_true_eq, hcarryOut]
    exact limit_lt_iff hplace hlow hlimitValue hvalue
  refine ⟨result, ?_, ?_⟩
  · simp only [addDigit, hsum, sub_of_le (Nat.one_le_of_lt hdigit), hresult, hlimit, hcarries, Option.bind_eq_bind,
      Option.bind_some, Option.pure_def]
    refine congrArg (fun flag => some (DigitSum.mk result _ flag)) ?_
    split
    case isTrue hlast => exact overflow_eq a b hplace hlow hraw hrawValue (hlast ▸ hsign)
    case isFalse => rfl
  · rw [hvalue, hrest, scale_succ]
    rcases scale_cases hplace with h | h | h | h <;> rw [h] at hlow ⊢ <;> omega

/-- The digits from a place on are the one there and those from the next place on. -/
theorem addDigits_succ (correct : Nat → Nat × Bool) (rest : Nat) (a b : UInt16) (digit : Nat) (carry : Bool) :
    Arithmetic.addDigits correct (rest + 1) (a.toNat / scale digit) (b.toNat / scale digit) carry =
      let first := correct (rawDigit a b digit carry)
      let others :=
        Arithmetic.addDigits correct rest (a.toNat / scale (digit + 1)) (b.toNat / scale (digit + 1)) first.2
      (first.1 + 16 * others.1, others.2.1,
        if rest = 0 then
          Arithmetic.signsOverflow (a.toNat / scale digit) (b.toNat / scale digit) (rawDigit a b digit carry) 8
        else others.2.2) := by
  rw [scale_succ, ← Nat.div_div_eq_div_mul, ← Nat.div_div_eq_div_mul]
  rfl

/-- **All digits are added within the range**, to the digits of the sum. -/
theorem addDigits_eq (hadjust : Adjusts adjust correct) (a b : UInt16) {sign : Int32} {digits : Nat}
    (hdigits : digits ≤ 4) (hsign : sign.toInt = 8 * scale (digits - 1)) {rest digit : Nat}
    (hrest : digit + rest = digits) (sum : DigitSum) :
    let expected := Arithmetic.addDigits correct rest (a.toNat / scale digit) (b.toNat / scale digit) sum.carry
    ∃ result, addDigits adjust (ofWord a) (ofWord b) sign digits rest digit sum =
        some ⟨result, expected.2.1, if rest = 0 then sum.overflow else expected.2.2⟩ ∧
      result.toInt % scale (digit + rest) = sum.result.toInt % scale digit + expected.1 * scale digit := by
  induction rest generalizing digit sum with
  | zero => exact ⟨sum.result, rfl, by simp [Arithmetic.addDigits]⟩
  | succ rest ih =>
    obtain ⟨result, hstep, hvalue⟩ := addDigit_eq hadjust a b hdigits (show digit < digits by omega) hsign sum
    obtain ⟨final, hrun, hfinal⟩ := ih (show digit + 1 + rest = digits by omega) ⟨result, _, _⟩
    rw [addDigits_succ]
    refine ⟨final, ?_, ?_⟩
    · rw [addDigits, hstep, Option.bind_eq_bind, Option.bind_some, hrun, if_neg (Nat.succ_ne_zero rest)]
      refine congrArg (fun flag => some (DigitSum.mk final _ flag)) ?_
      by_cases hlast : rest = 0
      · have hdigit : digit = digits - 1 := by omega
        rw [if_pos hlast, if_pos hdigit]
        exact (if_pos hlast).symm
      · rw [if_neg hlast]
        exact (if_neg hlast).symm
    · rw [Nat.add_right_comm, Nat.add_assoc] at hfinal
      rw [hfinal, hvalue, scale_succ]
      simp only [Int.natCast_add, Int.natCast_mul]
      grind

/-- **The sum of any two operands is formed within the range**, whatever their digits are. -/
theorem decimal_eq (hadjust : Adjusts adjust correct) (width : Width) (a b : UInt16) (carry : Bool) :
    decimal adjust width a b carry = some (Arithmetic.addDecimal correct width a b carry) := by
  have hsign : (ofWord width.signBit).toInt = 8 * scale (2 * width.bytes - 1) := by cases width <;> decide
  have hmask : (ofWord width.mask).toInt = (1 <<< (4 * (2 * width.bytes)) : Nat) - 1 := by cases width <;> decide
  have hdigits : 2 * width.bytes ≤ 4 ∧ 2 * width.bytes ≠ 0 := by cases width <;> decide
  obtain ⟨result, hrun, hvalue⟩ :=
    addDigits_eq hadjust a b hdigits.1 hsign (Nat.zero_add (2 * width.bytes)) ⟨0, carry, false⟩
  have hscale : scale 0 = 1 := rfl
  have hzero : (0 : Int32).toInt = 0 := rfl
  simp only [hscale, Nat.div_one, if_neg hdigits.2, Nat.zero_add, hzero, Int.zero_emod, Int.natCast_one, Int.mul_one,
    Int.zero_add] at hrun hvalue
  have hmasked := toInt_and_mask result (Nat.lt_of_le_of_lt (Nat.mul_le_mul_left 4 hdigits.1) (by decide)) hmask
  rw [← scale, hvalue] at hmasked
  have hlt : (Arithmetic.addDigits correct (2 * width.bytes) a.toNat b.toNat carry).1 < 0x80000000 := by
    have hpos : (0 : Int) < scale (2 * width.bytes) := by cases width <;> decide
    have hle : (scale (2 * width.bytes) : Int) ≤ 0x10000 := by cases width <;> decide
    have := Int.emod_lt_of_pos result.toInt hpos
    omega
  have hvalue16 : (result &&& ofWord width.mask).toUInt32.toUInt16 =
      (Arithmetic.addDigits correct (2 * width.bytes) a.toNat b.toNat carry).1.toUInt16 := by
    apply UInt16.toNat.inj
    rw [UInt32.toNat_toUInt16]
    exact congrArg (· % 2 ^ 16) ((toNat_toBitVec hlt).2 hmasked)
  simp only [decimal, hrun, hvalue16, Option.bind_eq_bind, Option.bind_some, Option.pure_def]
  rfl

theorem addDecimal_eq (a b : UInt16) (carry : Bool) (width : Width) :
    addDecimal a b carry width = some (Arithmetic.add a b carry width true) :=
  decimal_eq adjusts_sum width _ _ carry

theorem subtractDecimal_eq (a b : UInt16) (carry : Bool) (width : Width) :
    subtractDecimal a b carry width = some (Arithmetic.subtract a b carry width true) :=
  decimal_eq adjusts_difference width _ _ carry

end Sums

end Emu816.Checked
