import Emu816.Proofs.BinaryArithmetic
import Emu816.Proofs.RegisterSets

/-!
# Shifts and rotations

A shift doubles or halves an operand; together with its carry it loses nothing. A rotation takes in the carry that
another one has left, so that shifts of single operands make up a shift of a long number.

- `Arithmetic.shiftLeft_balance`, `Arithmetic.shiftRight_balance`: one operand as a number.
- `Arithmetic.Shifted`: a shift with the bits that go in and out; `Shifted.Flows`: several of them, joined by the
  carry.
- `Shifted.Flows.doubled`, `Shifted.Flows.halved`: what they do to a long number.
- `Shift`: the instructions; `Shift.moves_shifted`: each doubles or halves; `Shift.Moves.undone`: in turn they cancel.
- `LongShift`: the instructions for a long number; `Shift.shiftLong`: such a sequence, done with operands at hand.
-/

namespace Emu816

namespace Arithmetic

/-! ## Bits -/

/-- Whether the bit at a place is set. -/
theorem and_bit_ne_zero {bit : UInt16} {place : Nat} (hbit : bit.toNat = 2 ^ place) (value : UInt16) :
    (value &&& bit != 0) = value.toNat.testBit place := by
  rw [Bool.eq_iff_iff, bne_iff_ne, ne_eq, ← UInt16.toNat_inj, UInt16.toNat_and, hbit, Nat.and_two_pow]
  cases value.toNat.testBit place <;> simp

section Balance

variable (width : Width) (value : UInt16) (carry : Bool)

/-- The bits move up, below them the carry. -/
theorem toNat_shiftLeft :
    (shiftLeft width value carry).1.toNat = (2 * width.unsigned value + carry.toNat) % 2 ^ width.bits := by
  have hcarry : carry.toUInt16.toNat = carry.toNat := by cases carry <;> rfl
  have hlt : carry.toNat < 2 ^ 1 := Bool.toNat_lt carry
  have hmoved : ((value <<< 1) ||| carry.toUInt16).toNat = (2 * value.toNat + carry.toNat) % 2 ^ 16 := by
    have hjoined := Nat.two_pow_add_eq_or_of_lt hlt value.toNat
    have hsmall : carry.toNat % 2 ^ 16 = carry.toNat := Nat.mod_eq_of_lt (Nat.lt_of_lt_of_le hlt (by decide))
    rw [Nat.pow_one] at hjoined
    rw [UInt16.toNat_or, UInt16.toNat_shiftLeft, hcarry, hjoined, Nat.or_mod_two_pow, hsmall, Nat.shiftLeft_eq,
      Nat.mul_comm 2]
    rfl
  rw [show (shiftLeft width value carry).1 = ((value <<< 1) ||| carry.toUInt16) &&& width.mask from rfl,
    Width.toNat_and_mask, Width.unsigned, hmoved, Width.unsigned]
  cases width <;> simp only [Width.bits] <;> omega

/-- The bits move down, above them the carry. -/
theorem toNat_shiftRight :
    (shiftRight width value carry).1.toNat = width.unsigned value / 2 + 2 ^ (width.bits - 1) * carry.toNat := by
  have hcarry : (if carry then width.signBit else 0).toNat = 2 ^ (width.bits - 1) * carry.toNat := by
    cases carry <;> cases width <;> rfl
  have hlt : width.unsigned value / 2 < 2 ^ (width.bits - 1) := by
    have hvalue := width.unsigned_lt value
    cases width <;> simp only [Width.bits, Nat.reduceSub, Nat.reducePow] at hvalue ⊢ <;> omega
  rw [show (shiftRight width value carry).1 =
      ((value &&& width.mask) >>> 1) ||| (if carry then width.signBit else 0) from rfl,
    UInt16.toNat_or, UInt16.toNat_shiftRight, Width.toNat_and_mask, hcarry, Nat.add_comm,
    Nat.two_pow_add_eq_or_of_lt hlt, Nat.or_comm]
  rfl

/-- **Shifting up doubles**: the result and the bit above it are twice the operand and the carry. -/
theorem shiftLeft_balance :
    (shiftLeft width value carry).1.toNat + 2 ^ width.bits * (shiftLeft width value carry).2.toNat =
      2 * width.unsigned value + carry.toNat := by
  have hsign : width.signBit.toNat = 2 ^ (width.bits - 1) := by cases width <;> rfl
  have hout : (shiftLeft width value carry).2.toNat = value.toNat / 2 ^ (width.bits - 1) % 2 := by
    rw [show (shiftLeft width value carry).2 = (value &&& width.signBit != 0) from rfl, and_bit_ne_zero hsign,
      Nat.toNat_testBit]
  have hcarry := Bool.toNat_lt carry
  rw [toNat_shiftLeft, hout, Width.unsigned]
  cases width <;> simp only [Width.bits, Nat.reduceSub, Nat.reducePow] <;> omega

/-- **Shifting down halves**: twice the result and the bit below it are the operand and the carry above it. -/
theorem shiftRight_balance :
    2 * (shiftRight width value carry).1.toNat + (shiftRight width value carry).2.toNat =
      width.unsigned value + 2 ^ width.bits * carry.toNat := by
  have hout : (shiftRight width value carry).2.toNat = value.toNat % 2 := by
    rw [show (shiftRight width value carry).2 = (value &&& 1 != 0) from rfl,
      and_bit_ne_zero (show (1 : UInt16).toNat = 2 ^ 0 from rfl),
      Nat.toNat_testBit, Nat.pow_zero, Nat.div_one]
  rw [toNat_shiftRight, hout, Width.unsigned]
  cases width <;> simp only [Width.bits, Nat.reduceSub, Nat.reducePow] <;> omega

end Balance

/-! ## Shifts in turn -/

/-- A shift of an operand, with the bit that it takes in and the one that it leaves. -/
structure Shifted where
  operand : UInt16
  carryIn : Bool
  result : UInt16
  carryOut : Bool

namespace Shifted

/-- The shift seen from its end. -/
def back (s : Shifted) : Shifted := ⟨s.result, s.carryOut, s.operand, s.carryIn⟩

/-- The operand is doubled. -/
def Doubles (width : Width) (s : Shifted) : Prop :=
  width.unsigned s.result + 2 ^ width.bits * s.carryOut.toNat = 2 * width.unsigned s.operand + s.carryIn.toNat

/-- The operand is halved: seen from its end, the shift doubles. -/
def Halves (width : Width) (s : Shifted) : Prop := s.back.Doubles width

/-- The carry goes into the first of some shifts, from each into the next, and out of the last. -/
def Flows : Bool → List Shifted → Bool → Prop
  | carryIn, [], carryOut => carryOut = carryIn
  | carryIn, s :: rest, carryOut => s.carryIn = carryIn ∧ Flows s.carryOut rest carryOut

section Single

variable {width : Width} {s t : Shifted}

/-- What is doubled shows in the result and its carry. -/
theorem Doubles.operand_eq (hs : s.Doubles width) (ht : t.Doubles width) (hresult : t.result = s.result)
    (hcarry : t.carryOut = s.carryOut) :
    width.unsigned t.operand = width.unsigned s.operand ∧ t.carryIn = s.carryIn := by
  rw [Doubles, hresult, hcarry, hs] at ht
  generalize s.carryIn = carry, t.carryIn = carry' at ht ⊢
  cases carry <;> cases carry' <;> simp at ht ⊢ <;> omega

/-- The result of a doubling and its carry depend on what is doubled. -/
theorem Doubles.result_eq (hs : s.Doubles width) (ht : t.Doubles width) (hoperand : t.operand = s.operand)
    (hcarry : t.carryIn = s.carryIn) :
    width.unsigned t.result = width.unsigned s.result ∧ t.carryOut = s.carryOut := by
  have hresult := width.unsigned_lt s.result
  have hresult' := width.unsigned_lt t.result
  rw [Doubles, hoperand, hcarry, ← hs] at ht
  generalize s.carryOut = carry, t.carryOut = carry' at ht ⊢
  cases carry <;> cases carry' <;> simp at ht ⊢ <;> omega

end Single

section Flow

variable {shifts rest : List Shifted} {carryIn between carryOut : Bool}

theorem Flows.append (h : Flows carryIn shifts between) (h' : Flows between rest carryOut) :
    Flows carryIn (shifts ++ rest) carryOut := by
  induction shifts generalizing carryIn with
  | nil =>
    obtain rfl : between = carryIn := h
    exact h'
  | cons s shifts ih => exact ⟨h.1, ih h.2⟩

/-- Seen from its end, the carry flows backwards. -/
theorem Flows.back (h : Flows carryIn shifts carryOut) :
    Flows carryOut (shifts.map Shifted.back).reverse carryIn := by
  induction shifts generalizing carryIn with
  | nil => exact Eq.symm h
  | cons s shifts ih =>
    obtain ⟨rfl, hrest⟩ := h
    rw [List.map_cons, List.reverse_cons]
    exact (ih hrest).append ⟨rfl, rfl⟩

end Flow

section Numbers

variable {width : Width} {shifts : List Shifted} {carryIn carryOut : Bool}

/-- **Through the carries, doublings of operands double a long number**, from its lowest operand on. -/
theorem Flows.balance (h : Flows carryIn shifts carryOut) (hshifts : ∀ s ∈ shifts, s.Doubles width) :
    number (2 ^ width.bits) width.unsigned (shifts.map result) + 2 ^ (width.bits * shifts.length) * carryOut.toNat =
      2 * number (2 ^ width.bits) width.unsigned (shifts.map operand) + carryIn.toNat := by
  -- the rest takes in what the first operand leaves, so any carry may go in
  induction shifts generalizing carryIn with
  | nil =>
    obtain rfl : carryOut = carryIn := h
    simp
  | cons s rest ih =>
    obtain ⟨rfl, hrest⟩ := h
    obtain ⟨hs, hshifts⟩ := List.forall_mem_cons.1 hshifts
    have hlong := ih hrest hshifts
    rw [Doubles] at hs
    rw [List.map_cons, List.map_cons, number_cons, number_cons, List.length_cons, Nat.mul_succ, pow_add]
    grind

/-- A number of operands has as many bits as they have together. -/
theorem number_lt_two_pow (width : Width) (operands : List UInt16) :
    number (2 ^ width.bits) width.unsigned operands < 2 ^ (width.bits * operands.length) := by
  rw [pow_mul]
  exact number_lt (Nat.one_lt_two_pow (by cases width <;> decide)) fun operand _ => width.unsigned_lt operand

/-- A long number is doubled, and its highest bit goes into the carry. -/
theorem Flows.doubled (h : Flows false shifts carryOut) (hsome : shifts ≠ [])
    (hshifts : ∀ s ∈ shifts, s.Doubles width) :
    let before := number (2 ^ width.bits) width.unsigned (shifts.map operand)
    number (2 ^ width.bits) width.unsigned (shifts.map result) = 2 * before % 2 ^ (width.bits * shifts.length) ∧
      carryOut = before.testBit (width.bits * shifts.length - 1) := by
  intro before
  have hbalance := h.balance hshifts
  have hresult := number_lt_two_pow width (shifts.map result)
  rw [List.length_map] at hresult
  obtain ⟨place, hplace⟩ : ∃ place, width.bits * shifts.length = place + 1 := by
    refine Nat.exists_eq_succ_of_ne_zero (Nat.mul_ne_zero (by cases width <;> decide) ?_)
    rwa [Ne, List.length_eq_zero_iff]
  rw [hplace] at hbalance hresult ⊢
  rw [Nat.add_sub_cancel, ← Nat.add_zero (2 * before), ← Bool.toNat_false, ← hbalance, Nat.add_mul_mod_self_left,
    Nat.mod_eq_of_lt hresult]
  refine ⟨rfl, ?_⟩
  rw [Nat.pow_succ] at hbalance hresult
  -- twice the number is the result with the carry above it, so the carry is the highest bit of the number
  cases carryOut with
  | false =>
    rw [Bool.toNat_false] at hbalance
    have hlt : before < 2 ^ place := by omega
    exact (Nat.testBit_lt_two_pow hlt).symm
  | true =>
    rw [Bool.toNat_true, Bool.toNat_false] at hbalance
    obtain ⟨rest, hrest⟩ : ∃ rest, before = 2 ^ place + rest := Nat.exists_eq_add_of_le (by omega)
    have hlt : rest < 2 ^ place := by omega
    rw [hrest, Nat.testBit_two_pow_add_eq, Nat.testBit_lt_two_pow hlt]
    rfl

/-- A long number is halved, and its lowest bit goes into the carry; the shifts start with the highest operand. -/
theorem Flows.halved (h : Flows false shifts carryOut) (hshifts : ∀ s ∈ shifts, s.Halves width) :
    let before := number (2 ^ width.bits) width.unsigned (shifts.map operand).reverse
    number (2 ^ width.bits) width.unsigned (shifts.map result).reverse = before / 2 ∧
      carryOut = before.testBit 0 := by
  intro before
  have hdoubles : ∀ s ∈ (shifts.map Shifted.back).reverse, s.Doubles width := by simpa [Halves] using hshifts
  have hbalance := h.back.balance hdoubles
  rw [List.map_reverse, List.map_reverse, List.map_map, List.map_map] at hbalance
  change before + _ * false.toNat = 2 * number _ _ (shifts.map result).reverse + carryOut.toNat at hbalance
  rw [Bool.toNat_false, Nat.mul_zero, Nat.add_zero] at hbalance
  rw [Nat.testBit_zero, hbalance]
  cases carryOut with
  | false => exact ⟨by simp, by simp⟩
  | true => exact ⟨by simp; omega, by simp⟩

end Numbers

end Shifted

end Arithmetic

/-! ## Status bits and the accumulator -/

namespace Registers

variable (r : Registers)

theorem setFlag_a (mask : UInt8) (enabled : Bool) : (r.setFlag mask enabled).a = r.a := r.setP_a _

theorem flag_setFlag_carry (enabled : Bool) : (r.setFlag Status.carry enabled).flag Status.carry = enabled := by
  rw [flag, setFlag, setP_p]
  generalize r.p = p
  exact forall_byte
    (P := fun p => ∀ enabled : Bool,
      ((if enabled then p ||| Status.carry else p &&& ~~~Status.carry) &&& Status.carry == Status.carry) = enabled)
    (by decide +kernel) p enabled

/-- A write to a bit leaves others alone. -/
theorem flag_setFlag_of_disjoint {mask bits : UInt8} (h : mask &&& bits = 0) (enabled : Bool) :
    (r.setFlag mask enabled).flag bits = r.flag bits := by
  rw [flag, setFlag, setP_p, Status.and_of_disjoint h, flag]

theorem accumulatorWidth_setFlag {mask : UInt8} (h : mask &&& Status.narrowMemory = 0) (enabled : Bool) :
    (r.setFlag mask enabled).accumulatorWidth = r.accumulatorWidth := by
  rw [accumulatorWidth, setFlag, setP_p, Status.and_of_disjoint h, accumulatorWidth]

variable (width : Width) (outcome : UInt16 × Bool)

/-- The result bits leave the carry alone. -/
theorem flag_carry_shifted : (r.shifted width outcome).2.flag Status.carry = outcome.2 := by
  rw [shifted, setResult, setNegative, setZero, flag_setFlag_of_disjoint _ (by decide),
    flag_setFlag_of_disjoint _ (by decide), flag_setFlag_carry]

theorem accumulatorWidth_shifted : (r.shifted width outcome).2.accumulatorWidth = r.accumulatorWidth := by
  rw [shifted, setResult, setNegative, setZero, accumulatorWidth_setFlag _ (by decide),
    accumulatorWidth_setFlag _ (by decide), accumulatorWidth_setFlag _ (by decide)]

theorem shifted_a : (r.shifted width outcome).2.a = r.a := by
  rw [shifted, setResult, setNegative, setZero, setFlag_a, setFlag_a, setFlag_a]

/-- The status does not show where the program is. -/
theorem shifted_setPc_p (pc : UInt16) :
    ((r.setPc pc).shifted width outcome).2.p = (r.shifted width outcome).2.p := by
  simp only [shifted, setResult, setNegative, setZero, setFlag, setP_p]
  rfl

theorem setAccumulator_p (value : UInt16) : (r.setAccumulator value).p = r.p := by
  unfold setAccumulator
  split <;> rfl

/-- The accumulator takes a value as far as its width goes. -/
theorem accumulator_setAccumulator (value : UInt16) :
    (r.setAccumulator value).accumulator = value &&& r.accumulatorWidth.mask := by
  have hwidth : (r.setAccumulator value).accumulatorWidth = r.accumulatorWidth := by
    unfold setAccumulator
    split <;> rfl
  rw [accumulator, hwidth, setAccumulator]
  cases r.accumulatorWidth with
  | byte => exact and_lowByte_merge r.a value
  | word => rfl

/-- What is above the width stays in the accumulator. -/
theorem setAccumulator_hidden (value : UInt16) :
    (r.setAccumulator value).a &&& ~~~r.accumulatorWidth.mask = r.a &&& ~~~r.accumulatorWidth.mask := by
  rw [setAccumulator]
  cases r.accumulatorWidth with
  | byte => exact and_highByte_merge r.a value
  | word => exact UInt16.and_zero.trans UInt16.and_zero.symm

end Registers

/-! ## Instructions that shift -/

/-- An instruction that shifts its operand. -/
inductive Shift where
  | asl | lsr | rol | ror
  deriving DecidableEq

namespace Shift

/-- Its name. -/
def mnemonic : Shift → Mnemonic
  | asl => .asl
  | lsr => .lsr
  | rol => .rol
  | ror => .ror

/-- What it does with an operand. -/
def effect : Shift → Registers → UInt16 → UInt16 × Registers
  | asl => Registers.shiftLeft
  | lsr => Registers.shiftRight
  | rol => Registers.rotateLeft
  | ror => Registers.rotateRight

/-- Whether it shifts up. -/
def isUp : Shift → Bool
  | asl | rol => true
  | lsr | ror => false

/-- Whether it takes in the carry; otherwise it takes in a zero. -/
def takesCarry : Shift → Bool
  | asl | lsr => false
  | rol | ror => true

/-- The bit that it takes in. -/
def carryIn (shift : Shift) (r : Registers) : Bool := shift.takesCarry && r.flag Status.carry

theorem carryIn_of_takesCarry {shift : Shift} (h : shift.takesCarry = true) (r : Registers) :
    shift.carryIn r = r.flag Status.carry := by
  rw [carryIn, h, Bool.true_and]

theorem carryIn_of_not_takesCarry {shift : Shift} (h : shift.takesCarry = false) (r : Registers) :
    shift.carryIn r = false := by
  rw [carryIn, h, Bool.false_and]

theorem operation_eq (shift : Shift) (mode : Mode) :
    Instruction.operation ⟨shift.mnemonic, mode⟩ = .modify shift.effect := by
  cases shift <;> rfl

/-- The result and the bit that is left. -/
def outcome (shift : Shift) (r : Registers) (operand : UInt16) : UInt16 × Bool :=
  if shift.isUp then Arithmetic.shiftLeft r.accumulatorWidth operand (shift.carryIn r)
  else Arithmetic.shiftRight r.accumulatorWidth operand (shift.carryIn r)

variable (shift : Shift) (r : Registers) (operand : UInt16)

theorem effect_eq : shift.effect r operand = r.shifted r.accumulatorWidth (shift.outcome r operand) := by
  cases shift <;> rfl

theorem effect_setPc (pc : UInt16) :
    shift.effect (r.setPc pc) operand = (r.setPc pc).shifted r.accumulatorWidth (shift.outcome r operand) := by
  cases shift <;> rfl

/-- The shift of an operand, with the carry that it leaves in the status. -/
def shifted : Arithmetic.Shifted :=
  ⟨operand, shift.carryIn r, (shift.effect r operand).1, (shift.effect r operand).2.flag Status.carry⟩

theorem outcome_lt : (shift.outcome r operand).1.toNat < 2 ^ r.accumulatorWidth.bits := by
  unfold outcome
  split
  case isTrue =>
    rw [Arithmetic.toNat_shiftLeft]
    exact Nat.mod_lt _ (Nat.two_pow_pos _)
  case isFalse =>
    have hbalance := Arithmetic.shiftRight_balance r.accumulatorWidth operand (shift.carryIn r)
    have hcarry := Bool.toNat_lt (shift.carryIn r)
    have hoperand := r.accumulatorWidth.unsigned_lt operand
    generalize shift.carryIn r = carry at hbalance hcarry ⊢
    cases carry <;> simp at hbalance ⊢ <;> omega

theorem outcome_and_mask :
    (shift.outcome r operand).1 &&& r.accumulatorWidth.mask = (shift.outcome r operand).1 :=
  UInt16.toNat_inj.1 (by rw [Width.toNat_and_mask, Width.unsigned_of_lt (shift.outcome_lt r operand)])

/-- The operand moves in the direction of the shift. -/
def Moves (shift : Shift) (width : Width) (s : Arithmetic.Shifted) : Prop :=
  if shift.isUp then s.Doubles width else s.Halves width

theorem shifted_eq : shift.shifted r operand =
    ⟨operand, shift.carryIn r, (shift.outcome r operand).1, (shift.outcome r operand).2⟩ := by
  rw [shifted, effect_eq, Registers.flag_carry_shifted]
  rfl

/-- **A shift doubles or halves its operand**, as its direction says. -/
theorem moves_shifted : shift.Moves r.accumulatorWidth (shift.shifted r operand) := by
  have hresult := Width.unsigned_of_lt (shift.outcome_lt r operand)
  rw [Moves, shifted_eq]
  split
  case isTrue hup =>
    rw [Arithmetic.Shifted.Doubles, hresult, outcome, if_pos hup]
    exact Arithmetic.shiftLeft_balance _ _ _
  case isFalse hdown =>
    rw [Arithmetic.Shifted.Halves, Arithmetic.Shifted.Doubles]
    dsimp only [Arithmetic.Shifted.back]
    rw [hresult, outcome, if_neg hdown]
    exact (Arithmetic.shiftRight_balance _ _ _).symm

/-- **Shifts in opposite directions undo each other**, when the second one takes in what the first one has left. -/
theorem Moves.undone {first second : Shift} {width : Width} {s t : Arithmetic.Shifted} (hs : first.Moves width s)
    (ht : second.Moves width t) (hopposite : second.isUp = !first.isUp) (hoperand : t.operand = s.result)
    (hcarry : t.carryIn = s.carryOut) :
    width.unsigned t.result = width.unsigned s.operand ∧ t.carryOut = s.carryIn := by
  rw [Moves] at hs ht
  cases hup : first.isUp with
  | true =>
    rw [hup] at hs hopposite
    rw [hopposite] at ht
    exact Arithmetic.Shifted.Doubles.operand_eq hs ht hoperand hcarry
  | false =>
    rw [hup] at hs hopposite
    rw [hopposite] at ht
    exact Arithmetic.Shifted.Doubles.result_eq hs ht hoperand hcarry

end Shift

/-! ## Long numbers -/

/-- Shifts that make up one of a long number: the first one takes in a zero, the others the carry of the one before.
-/
structure LongShift (first next : Shift) (width : Width) (s : Arithmetic.Shifted) (rest : List Arithmetic.Shifted)
    (carryOut : Bool) : Prop where
  flows : Arithmetic.Shifted.Flows false (s :: rest) carryOut
  first : first.Moves width s
  next : ∀ t ∈ rest, next.Moves width t

namespace LongShift

variable {width : Width} {s : Arithmetic.Shifted} {rest : List Arithmetic.Shifted} {carryOut : Bool}

/-- **A long number is doubled**, lowest operand first. -/
theorem doubled (h : LongShift .asl .rol width s rest carryOut) :
    let value := Arithmetic.number (2 ^ width.bits) width.unsigned
    let before := value ((s :: rest).map Arithmetic.Shifted.operand)
    value ((s :: rest).map Arithmetic.Shifted.result) = 2 * before % 2 ^ (width.bits * (rest.length + 1)) ∧
      carryOut = before.testBit (width.bits * (rest.length + 1) - 1) :=
  h.flows.doubled (List.cons_ne_nil _ _) (List.forall_mem_cons.2 ⟨h.first, h.next⟩)

/-- **A long number is halved**, highest operand first. -/
theorem halved (h : LongShift .lsr .ror width s rest carryOut) :
    let value := Arithmetic.number (2 ^ width.bits) width.unsigned
    let before := value ((s :: rest).map Arithmetic.Shifted.operand).reverse
    value ((s :: rest).map Arithmetic.Shifted.result).reverse = before / 2 ∧ carryOut = before.testBit 0 :=
  h.flows.halved (List.forall_mem_cons.2 ⟨h.first, h.next⟩)

end LongShift

/-! ## Operands at hand -/

namespace Shift

/-- Shifts operands one after the other, the carry going through the status. -/
def shiftAll (shift : Shift) : List UInt16 → Registers → List UInt16 × Registers
  | [], r => ([], r)
  | operand :: rest, r =>
    match shift.effect r operand with
    | (result, r) =>
      match shift.shiftAll rest r with
      | (results, r) => (result :: results, r)

/-- Shifts the first operand in one way, and the others in another. -/
def shiftLong (first next : Shift) (operand : UInt16) (rest : List UInt16) (r : Registers) :
    List UInt16 × Registers :=
  match first.effect r operand with
  | (result, r) =>
    match next.shiftAll rest r with
    | (results, r) => (result :: results, r)

theorem accumulatorWidth_effect (shift : Shift) (r : Registers) (operand : UInt16) :
    (shift.effect r operand).2.accumulatorWidth = r.accumulatorWidth := by
  rw [effect_eq, Registers.accumulatorWidth_shifted]

/-- The shifts of some operands. -/
theorem exists_shiftAll (next : Shift) (hcarry : next.takesCarry = true) (r : Registers) (operands : List UInt16) :
    ∃ shifts : List Arithmetic.Shifted, shifts.map Arithmetic.Shifted.operand = operands ∧
      shifts.map Arithmetic.Shifted.result = (next.shiftAll operands r).1 ∧
      Arithmetic.Shifted.Flows (r.flag Status.carry) shifts ((next.shiftAll operands r).2.flag Status.carry) ∧
      ∀ s ∈ shifts, next.Moves r.accumulatorWidth s := by
  induction operands generalizing r with
  | nil => exact ⟨[], rfl, rfl, rfl, List.forall_mem_nil _⟩
  | cons operand rest ih =>
    obtain ⟨shifts, hoperands, hresults, hflows, hshifts⟩ := ih (next.effect r operand).2
    rw [accumulatorWidth_effect] at hshifts
    exact ⟨next.shifted r operand :: shifts, congrArg (operand :: ·) hoperands,
      congrArg ((next.effect r operand).1 :: ·) hresults, ⟨carryIn_of_takesCarry hcarry r, hflows⟩,
      List.forall_mem_cons.2 ⟨next.moves_shifted r operand, hshifts⟩⟩

/-- The shifts of the operands of a long number. -/
theorem exists_shiftLong (first next : Shift) (hfirst : first.takesCarry = false) (hnext : next.takesCarry = true)
    (operand : UInt16) (rest : List UInt16) (r : Registers) :
    ∃ s shifts, (s :: shifts).map Arithmetic.Shifted.operand = operand :: rest ∧
      (s :: shifts).map Arithmetic.Shifted.result = (first.shiftLong next operand rest r).1 ∧
      LongShift first next r.accumulatorWidth s shifts
        ((first.shiftLong next operand rest r).2.flag Status.carry) := by
  obtain ⟨shifts, hoperands, hresults, hflows, hshifts⟩ := exists_shiftAll next hnext (first.effect r operand).2 rest
  rw [accumulatorWidth_effect] at hshifts
  exact ⟨first.shifted r operand, shifts, congrArg (operand :: ·) hoperands,
    congrArg ((first.effect r operand).1 :: ·) hresults, ⟨carryIn_of_not_takesCarry hfirst r, hflows⟩,
    first.moves_shifted r operand, hshifts⟩

section Long

variable (operand : UInt16) (rest : List UInt16) (r : Registers)

/-- A long number is doubled, lowest operand first. -/
theorem doubled_shiftLong :
    let value := Arithmetic.number (2 ^ r.accumulatorWidth.bits) r.accumulatorWidth.unsigned
    let places := r.accumulatorWidth.bits * (operand :: rest).length
    let after := shiftLong .asl .rol operand rest r
    value after.1 = 2 * value (operand :: rest) % 2 ^ places ∧
      after.2.flag Status.carry = (value (operand :: rest)).testBit (places - 1) := by
  obtain ⟨s, shifts, hoperands, hresults, hlong⟩ := exists_shiftLong .asl .rol rfl rfl operand rest r
  have hlength := congrArg List.length hoperands
  rw [List.length_map, List.length_cons] at hlength
  have hdoubled := hlong.doubled
  rw [hoperands, hresults, hlength] at hdoubled
  exact hdoubled

/-- A long number is halved, highest operand first. -/
theorem halved_shiftLong :
    let value := Arithmetic.number (2 ^ r.accumulatorWidth.bits) r.accumulatorWidth.unsigned
    let after := shiftLong .lsr .ror operand rest r
    value after.1.reverse = value (operand :: rest).reverse / 2 ∧
      after.2.flag Status.carry = (value (operand :: rest).reverse).testBit 0 := by
  obtain ⟨s, shifts, hoperands, hresults, hlong⟩ := exists_shiftLong .lsr .ror rfl rfl operand rest r
  have hhalved := hlong.halved
  rw [hoperands, hresults] at hhalved
  exact hhalved

end Long

/-- The rotations are opposite, and take in the carry. -/
theorem rotations {first second : Shift} (h : (first, second) = (rol, ror) ∨ (first, second) = (ror, rol)) :
    first.takesCarry = true ∧ second.takesCarry = true ∧ second.isUp = !first.isUp := by
  rcases h with h | h <;> cases h <;> exact ⟨rfl, rfl, rfl⟩

/-- **A rotation is undone** by the other one, with the carry. -/
theorem effect_undone {first second : Shift} (h : (first, second) = (rol, ror) ∨ (first, second) = (ror, rol))
    (r : Registers) (operand : UInt16) :
    let done := first.effect r operand
    let undone := second.effect done.2 done.1
    undone.1 = operand &&& r.accumulatorWidth.mask ∧ undone.2.flag Status.carry = r.flag Status.carry := by
  intro done undone
  obtain ⟨htakes, htakes', hopposite⟩ := rotations h
  have hmoves := second.moves_shifted done.2 done.1
  have hlt := second.outcome_lt done.2 done.1
  rw [accumulatorWidth_effect] at hmoves hlt
  obtain ⟨hback, hleft⟩ := Moves.undone (first.moves_shifted r operand) hmoves hopposite rfl
    (carryIn_of_takesCarry htakes' _)
  have hresult : undone.1 = (second.outcome done.2 done.1).1 := congrArg Prod.fst (second.effect_eq _ _)
  change r.accumulatorWidth.unsigned undone.1 = r.accumulatorWidth.unsigned operand at hback
  rw [← hresult] at hlt
  rw [Width.unsigned_of_lt hlt, ← Width.toNat_and_mask] at hback
  exact ⟨UInt16.toNat_inj.1 hback, hleft.trans (carryIn_of_takesCarry htakes _)⟩

end Shift

end Emu816
