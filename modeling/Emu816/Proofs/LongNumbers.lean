import Emu816.Arithmetic
import Emu816.Proofs.Words
import Mathlib.Data.Nat.Digits.Defs

/-!
# Long numbers

A number that is longer than an operand is a list of operands, lowest first. Two such numbers are added or subtracted
operand by operand, each operation taking the carry of the one before it.

- `IsSum`, `IsDifference`: what a sum and a difference leave at a modulus, and when they carry.
- `number`: the number that some operands make up at a base.
- `chain`: an operation from the lowest operands on, through its carry.
- `Balances`: an operation whose value and carry make up what it was given. Such operations of single operands make a
  sum or a difference of long numbers (`Balances.chain_isSum`, `Balances.chain_isDifference`).
-/

namespace Emu816.Arithmetic

/-! ## Sums and differences at a modulus -/

/-- The value is the sum of two numbers and a carry, cut off at the modulus, and the carry tells that it was. -/
structure IsSum (modulus a b : Nat) (carryIn : Bool) (value : Nat) (carryOut : Bool) : Prop where
  value_eq : value = (a + b + carryIn.toNat) % modulus
  carry_iff : carryOut = true ↔ modulus ≤ a + b + carryIn.toNat

/-- The value is the difference of two numbers less the borrow, which is a missing carry, going round at the modulus,
and the carry tells that nothing was borrowed. -/
structure IsDifference (modulus a b : Nat) (carryIn : Bool) (value : Nat) (carryOut : Bool) : Prop where
  value_eq : (value : Int) = ((a : Int) - b - (1 - carryIn.toNat)) % modulus
  carry_iff : carryOut = true ↔ 0 ≤ (a : Int) - b - (1 - carryIn.toNat)

section Balance

variable {modulus a b value : Nat} {carryIn carryOut : Bool}

/-- A value below the modulus that makes up the sum together with its carry. -/
theorem isSum_of_balance (hlt : value < modulus)
    (h : (value : Int) + modulus * carryOut.toNat = a + b + carryIn.toNat) :
    IsSum modulus a b carryIn value carryOut := by
  have hsum : value + modulus * carryOut.toNat = a + b + carryIn.toNat := by exact_mod_cast h
  constructor
  · rw [← hsum, Nat.add_mul_mod_self_left, Nat.mod_eq_of_lt hlt]
  · rw [← hsum]
    cases carryOut with
    | false => simpa using hlt
    | true => simp

/-- Nothing is lost of a sum of two numbers below the modulus. -/
theorem IsSum.balance (h : IsSum modulus a b carryIn value carryOut) (ha : a < modulus) (hb : b < modulus) :
    value + modulus * carryOut.toNat = a + b + carryIn.toNat := by
  have hcarryIn : carryIn.toNat ≤ 1 := Bool.toNat_le carryIn
  rw [h.value_eq]
  cases carryOut with
  | false =>
    have hlt : a + b + carryIn.toNat < modulus := by simpa using h.carry_iff
    rw [Nat.mod_eq_of_lt hlt, Bool.toNat_false, Nat.mul_zero, Nat.add_zero]
  | true =>
    have hle : modulus ≤ a + b + carryIn.toNat := h.carry_iff.1 rfl
    rw [Nat.mod_eq_sub_mod hle, Nat.mod_eq_of_lt (by omega), Bool.toNat_true, Nat.mul_one, Nat.sub_add_cancel hle]

/-- A value below the modulus that makes up the difference together with its borrow. -/
theorem isDifference_of_balance (hlt : value < modulus)
    (h : (value : Int) + modulus * (carryOut.toNat - 1) = a - b + (carryIn.toNat - 1)) :
    IsDifference modulus a b carryIn value carryOut := by
  have hdifference : (a : Int) - b - (1 - carryIn.toNat) = value + modulus * (carryOut.toNat - 1) := by omega
  constructor
  · rw [hdifference, Int.add_mul_emod_self_left, Int.emod_eq_of_lt (Int.natCast_nonneg _) (Int.ofNat_lt.2 hlt)]
  · rw [hdifference]
    cases carryOut with
    | false => simp; omega
    | true => simp

end Balance

/-! ## Chains of operations -/

/-- The number that some operands make up, lowest first. -/
def number (base : Nat) (value : UInt16 → Nat) (operands : List UInt16) : Nat :=
  Nat.ofDigits base (operands.map value)

/-- Operates on two long numbers from their lowest operands on. The carry of each operation goes into the next one, that
of the last is the carry of the whole. -/
def chain (operation : UInt16 → UInt16 → Bool → Sum) : List UInt16 → List UInt16 → Bool → List UInt16 × Bool
  | a :: as, b :: bs, carry =>
    let sum := operation a b carry
    let (values, carry) := chain operation as bs sum.carry
    (sum.value :: values, carry)
  | _, _, carry => ([], carry)

section Number

variable {base : Nat} {value : UInt16 → Nat}

@[simp] theorem number_nil : number base value [] = 0 := rfl

@[simp] theorem number_cons (operand : UInt16) (operands : List UInt16) :
    number base value (operand :: operands) = value operand + base * number base value operands := by
  rw [number, List.map_cons, Nat.ofDigits_cons, number]

theorem number_lt (hbase : 1 < base) {operands : List UInt16} (h : ∀ operand ∈ operands, value operand < base) :
    number base value operands < base ^ operands.length := by
  have hlt := Nat.ofDigits_lt_base_pow_length (b := base) (l := operands.map value) hbase (by simpa using h)
  rwa [List.length_map] at hlt

end Number

/-- The value of an operation and its carry, at the place above, make up the operands, joined by `sign`, and the carry
taken in. A carry counts `offset` less than its bit: with an offset of one, a missing carry is a borrow. From `valid`
operands the operation makes a `settled` value. -/
structure Balances (base : Nat) (value : UInt16 → Nat) (valid settled : UInt16 → Prop) (sign offset : Int)
    (operation : UInt16 → UInt16 → Bool → Sum) : Prop where
  one_lt_base : 1 < base
  value_lt : ∀ v, settled v → value v < base
  settles : ∀ a b carry, valid a → valid b → settled (operation a b carry).value
  balance : ∀ a b carry, valid a → valid b →
    (value (operation a b carry).value : Int) + base * ((operation a b carry).carry.toNat - offset) =
      value a + sign * value b + (carry.toNat - offset)

namespace Balances

variable {base : Nat} {value : UInt16 → Nat} {valid settled : UInt16 → Prop} {sign offset : Int}
  {operation : UInt16 → UInt16 → Bool → Sum}

/-- **Through the carries the balance of one operation becomes that of long numbers.** -/
theorem chain (h : Balances base value valid settled sign offset operation) {as bs : List UInt16}
    (hlength : as.length = bs.length) (has : ∀ a ∈ as, valid a) (hbs : ∀ b ∈ bs, valid b) (carry : Bool) :
    let result := Arithmetic.chain operation as bs carry
    result.1.length = as.length ∧ (∀ v ∈ result.1, settled v) ∧
      (number base value result.1 : Int) + (base : Int) ^ as.length * (result.2.toNat - offset) =
        number base value as + sign * number base value bs + (carry.toNat - offset) := by
  induction as generalizing bs carry with
  | nil =>
    obtain rfl : bs = [] := List.eq_nil_of_length_eq_zero hlength.symm
    simp [Arithmetic.chain]
  | cons a as ih =>
    obtain ⟨b, bs, rfl⟩ := List.exists_cons_of_length_eq_add_one hlength.symm
    have ha : valid a := has a List.mem_cons_self
    have hb : valid b := hbs b List.mem_cons_self
    obtain ⟨hlen, hsettled, hrest⟩ := ih (Nat.succ.inj hlength) (fun a ha => has a (List.mem_cons_of_mem _ ha))
      (fun b hb => hbs b (List.mem_cons_of_mem _ hb)) (operation a b carry).carry
    have hfirst := h.balance a b carry ha hb
    refine ⟨by simp [Arithmetic.chain, hlen], ?_, ?_⟩
    · simpa [Arithmetic.chain] using ⟨h.settles a b carry ha hb, hsettled⟩
    · simp only [Arithmetic.chain, number_cons, List.length_cons, pow_succ, Nat.cast_add, Nat.cast_mul]
      grind

section Chain

variable {as bs : List UInt16} (hlength : as.length = bs.length) (has : ∀ a ∈ as, valid a) (hbs : ∀ b ∈ bs, valid b)
  (carry : Bool)

include hlength has hbs

/-- A chain leaves as many operands, all of them settled. -/
theorem chain_settles (h : Balances base value valid settled sign offset operation) :
    (Arithmetic.chain operation as bs carry).1.length = as.length ∧
      ∀ v ∈ (Arithmetic.chain operation as bs carry).1, settled v :=
  let ⟨hlen, hsettled, _⟩ := h.chain hlength has hbs carry
  ⟨hlen, hsettled⟩

theorem chain_number_lt (h : Balances base value valid settled sign offset operation) :
    number base value (Arithmetic.chain operation as bs carry).1 < base ^ as.length := by
  obtain ⟨hlen, hsettled⟩ := h.chain_settles hlength has hbs carry
  exact hlen ▸ number_lt h.one_lt_base fun v hv => h.value_lt v (hsettled v hv)

/-- Sums of operands make a sum of long numbers. -/
theorem chain_isSum (h : Balances base value valid settled 1 0 operation) :
    IsSum (base ^ as.length) (number base value as) (number base value bs) carry
      (number base value (Arithmetic.chain operation as bs carry).1) (Arithmetic.chain operation as bs carry).2 := by
  obtain ⟨-, -, hbalance⟩ := h.chain hlength has hbs carry
  refine isSum_of_balance (h.chain_number_lt hlength has hbs carry) ?_
  simpa using hbalance

/-- Differences of operands make a difference of long numbers. -/
theorem chain_isDifference (h : Balances base value valid settled (-1) 1 operation) :
    IsDifference (base ^ as.length) (number base value as) (number base value bs) carry
      (number base value (Arithmetic.chain operation as bs carry).1) (Arithmetic.chain operation as bs carry).2 := by
  obtain ⟨-, -, hbalance⟩ := h.chain hlength has hbs carry
  refine isDifference_of_balance (h.chain_number_lt hlength has hbs carry) ?_
  simpa [Int.sub_eq_add_neg] using hbalance

end Chain

section Single

variable {a b : UInt16} (ha : valid a) (hb : valid b) (carry : Bool)

include ha hb

theorem isSum (h : Balances base value valid settled 1 0 operation) :
    IsSum base (value a) (value b) carry (value (operation a b carry).value) (operation a b carry).carry := by
  refine isSum_of_balance (h.value_lt _ (h.settles a b carry ha hb)) ?_
  simpa using h.balance a b carry ha hb

theorem isDifference (h : Balances base value valid settled (-1) 1 operation) :
    IsDifference base (value a) (value b) carry (value (operation a b carry).value) (operation a b carry).carry := by
  refine isDifference_of_balance (h.value_lt _ (h.settles a b carry ha hb)) ?_
  simpa [Int.sub_eq_add_neg] using h.balance a b carry ha hb

end Single

end Balances

end Emu816.Arithmetic
