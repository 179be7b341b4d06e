import Emu816.Proofs.ChangedOperands
import Emu816.Proofs.Shifts
import Emu816.Proofs.StoredOperands

/-!
# Shifts of long numbers

A number that is longer than an operand is shifted operand by operand, the bit that leaves one operand going into the
next through the carry.

- `Shift.Executed`: a step that executes a shift; `Shift.step_shifted`: what it does.
- `InTurn`: steps that shift a long number; `InTurn.longShift`: the shifts that they do.
- `rotation_undone`: two steps that cancel.
- `long_shifts`: steps and instructions, for single operands and for long numbers.
-/

namespace Emu816

open Arithmetic

/-! ## Steps -/

section Memory

variable {μ : Type} [Memory μ]

/-- The step executes the shift, in an addressing mode. -/
def Shift.Executed (shift : Shift) (mode : Mode) (start : Cpu × μ) : Prop :=
  ∃ pbr pc opcode, eventAt start = .executed pbr pc opcode ∧ Instruction.decode opcode = ⟨shift.mnemonic, mode⟩

/-- The shift that a step does, with the carry before and after it. -/
def Shift.done (shift : Shift) (start : Cpu × μ) : Shifted :=
  ⟨operandOf start, shift.carryIn start.1.regs, resultOf start, (Action.step.apply start).1.regs.flag Status.carry⟩

variable {start : Cpu × μ} {shift : Shift} {mode : Mode}

/-- A shift in memory has a place for its operand. -/
theorem Shift.placeSize_ne_zero {opcode : UInt8} (hdecode : Instruction.decode opcode = ⟨shift.mnemonic, mode⟩)
    (hmode : mode ≠ .accumulator) : mode.placeSize ≠ 0 := by
  have hplace := placeSize_of_writesOperand opcode
  rw [hdecode] at hplace
  exact hplace (by cases shift <;> simpa [Instruction.writesOperand, mnemonic] using hmode)

/-- A step that shifts the accumulator. -/
theorem Shift.step_accumulator (h : shift.Executed .accumulator start) :
    let r := start.1.regs
    let width := r.accumulatorWidth
    let outcome := shift.outcome r (operandOf start)
    let after := (Action.step.apply start).1.regs
    after.p = (r.shifted width outcome).2.p ∧ resultOf start = outcome.1 ∧ operandOf start = r.accumulator ∧
      resultOf start = after.accumulator ∧ after.a &&& ~~~width.mask = r.a &&& ~~~width.mask := by
  intro r width outcome after
  obtain ⟨pbr, pc, opcode, hevent, hdecode⟩ := h
  obtain ⟨hdata, hoperand, hregs⟩ := modified_accumulator hevent hdecode (shift.operation_eq .accumulator)
  rw [shift.effect_setPc] at hregs
  let shifted := ((r.setPc (r.pc + 1)).shifted width outcome).2
  change after = shifted.setAccumulator outcome.1 at hregs
  have hwidth : shifted.accumulatorWidth = width := Registers.accumulatorWidth_shifted _ _ _
  have hresult : resultOf start = after.accumulator := if_pos hdata
  have hput := Registers.accumulator_setAccumulator shifted outcome.1
  have hhidden := Registers.setAccumulator_hidden shifted outcome.1
  rw [← hregs, hwidth, shift.outcome_and_mask] at hput
  rw [← hregs, hwidth, Registers.shifted_a] at hhidden
  refine ⟨?_, hresult.trans hput, hoperand, hresult, hhidden⟩
  rw [hregs, Registers.setAccumulator_p]
  exact Registers.shifted_setPc_p r width outcome _

/-- A step that shifts an operand in memory. -/
theorem Shift.step_place (h : shift.Executed mode start) (hmode : mode ≠ .accumulator) :
    let r := start.1.regs
    let width := r.accumulatorWidth
    let outcome := shift.outcome r (operandOf start)
    let after := (Action.step.apply start).1.regs
    after.p = (r.shifted width outcome).2.p ∧ resultOf start = outcome.1 ∧ after.a = r.a ∧ ∃ place,
      dataOf start = cells .read .data place (width.split (operandOf start)) ++
        cells .write .data place (width.split (resultOf start)) := by
  intro r width outcome after
  obtain ⟨pbr, pc, opcode, hevent, hdecode⟩ := h
  obtain ⟨⟨place, bytes, hbytes, hoperand, hdata⟩, hresult, hregs⟩ :=
    modified_place hevent hdecode (placeSize_ne_zero hdecode hmode) (shift.operation_eq mode)
  rw [shift.effect_setPc] at hdata hresult hregs
  have hresult : resultOf start = outcome.1 := hresult.trans (shift.outcome_and_mask r _)
  refine ⟨?_, hresult, (congrArg Registers.a hregs).trans (Registers.shifted_a _ _ _), place, ?_⟩
  · exact (congrArg Registers.p hregs).trans (Registers.shifted_setPc_p r width outcome _)
  · rw [hoperand, Width.split_join _ hbytes, hresult]
    exact hdata

/-- **A step that shifts** does with its operand what the instruction says. The result bits tell of the result. In the
accumulator it leaves the bits above the width alone, in memory the accumulator. -/
theorem Shift.step_shifted (h : shift.Executed mode start) :
    let r := start.1.regs
    let width := r.accumulatorWidth
    let after := (Action.step.apply start).1.regs
    shift.done start = shift.shifted r (operandOf start) ∧ (resultOf start).toNat < 2 ^ width.bits ∧
      after.flag Status.zero = (resultOf start &&& width.mask == 0) ∧
      after.flag Status.negative = (resultOf start &&& width.signBit != 0) ∧
      (mode = .accumulator → operandOf start = r.accumulator ∧ resultOf start = after.accumulator ∧
        after.a &&& ~~~width.mask = r.a &&& ~~~width.mask) ∧
      (mode ≠ .accumulator → after.a = r.a ∧ ∃ place,
        dataOf start = cells .read .data place (width.split (operandOf start)) ++
          cells .write .data place (width.split (resultOf start))) := by
  intro r width after
  let outcome := shift.outcome r (operandOf start)
  -- in memory and in the accumulator alike the status is that of the shift
  obtain ⟨hp, hresult⟩ : after.p = (r.shifted width outcome).2.p ∧ resultOf start = outcome.1 := by
    by_cases hmode : mode = .accumulator
    · subst hmode
      exact ⟨(step_accumulator h).1, (step_accumulator h).2.1⟩
    · exact ⟨(step_place h hmode).1, (step_place h hmode).2.1⟩
  have hflag (mask : UInt8) : after.flag mask = (r.shifted width outcome).2.flag mask :=
    congrArg (fun p => p &&& mask == mask) hp
  obtain ⟨hzero, hnegative⟩ := Registers.flag_setResult (r.setFlag Status.carry outcome.2) outcome.1 width
  refine ⟨?_, ?_, ?_, ?_, ?_, fun hmode => (step_place h hmode).2.2⟩
  · rw [done, shifted_eq, hresult, hflag, Registers.flag_carry_shifted]
  · rw [hresult]
    exact shift.outcome_lt r _
  · rw [hflag, hresult]
    exact hzero
  · rw [hflag, hresult]
    exact hnegative
  · rintro rfl
    exact (step_accumulator h).2.2

/-! ## Steps in turn -/

/-- The carry after a step. -/
def carryAfter (start : Cpu × μ) : Bool := (Action.step.apply start).1.regs.flag Status.carry

/-- Steps that shift a long number: the first one in one way and the others in the other way, at one width, and each
with the carry that the one before it has left. -/
structure InTurn (width : Width) (first next : Shift) (start : Cpu × μ) (rest : List (Cpu × μ)) : Prop where
  first : ∃ mode, first.Executed mode start
  next : ∀ step ∈ rest, ∃ mode, next.Executed mode step
  width : ∀ step ∈ start :: rest, step.1.regs.accumulatorWidth = width
  carry : (start :: rest).IsChain fun step step' => step'.1.regs.flag Status.carry = carryAfter step

theorem Shift.moves_done (h : ∃ mode, shift.Executed mode start) :
    shift.Moves start.1.regs.accumulatorWidth (shift.done start) := by
  obtain ⟨mode, hmode⟩ := h
  rw [(step_shifted hmode).1]
  exact shift.moves_shifted _ _

/-- The carry goes from each step into the next. -/
theorem flows_done {next : Shift} (hnext : next.takesCarry = true) (start : Cpu × μ) (rest : List (Cpu × μ))
    (h : (start :: rest).IsChain fun step step' => step'.1.regs.flag Status.carry = carryAfter step) :
    Shifted.Flows (carryAfter start) (rest.map next.done)
      (carryAfter ((start :: rest).getLast (List.cons_ne_nil _ _))) := by
  induction rest generalizing start with
  | nil => rfl
  | cons step rest ih =>
    obtain ⟨hstep, hrest⟩ := List.isChain_cons_cons.1 h
    exact ⟨(Shift.carryIn_of_takesCarry hnext step.1.regs).trans hstep, ih step hrest⟩

/-- The shifts that the steps do. -/
theorem InTurn.longShift {width : Width} {first next : Shift} {rest : List (Cpu × μ)}
    (h : InTurn width first next start rest) (hfirst : first.takesCarry = false) (hnext : next.takesCarry = true) :
    LongShift first next width (first.done start) (rest.map next.done)
      (carryAfter ((start :: rest).getLast (List.cons_ne_nil _ _))) := by
  refine ⟨⟨Shift.carryIn_of_not_takesCarry hfirst _, flows_done hnext start rest h.carry⟩, ?_, ?_⟩
  · have hmoves := Shift.moves_done h.first
    rwa [h.width start List.mem_cons_self] at hmoves
  · rw [List.forall_mem_map]
    intro step hstep
    have hmoves := Shift.moves_done (h.next step hstep)
    rwa [h.width step (List.mem_cons_of_mem _ hstep)] at hmoves

/-- The operands and the results of the steps. -/
theorem map_done (first next : Shift) (start : Cpu × μ) (rest : List (Cpu × μ)) :
    (first.done start :: rest.map next.done).map Shifted.operand = (start :: rest).map operandOf ∧
      (first.done start :: rest.map next.done).map Shifted.result = (start :: rest).map resultOf := by
  simp only [List.map_cons, List.map_map]
  exact ⟨rfl, rfl⟩

/-- An operand has no bits above the width. -/
theorem Shift.operandOf_lt (h : shift.Executed mode start) :
    (operandOf start).toNat < 2 ^ start.1.regs.accumulatorWidth.bits := by
  obtain ⟨-, -, -, -, haccumulator, hplace⟩ := step_shifted h
  by_cases hmode : mode = .accumulator
  · rw [(haccumulator hmode).1]
    exact Width.toNat_and_mask_lt _ _
  · obtain ⟨-, place, hdata⟩ := hplace hmode
    have hsome : start.1.regs.accumulatorWidth.split (operandOf start) ≠ [] := by
      cases start.1.regs.accumulatorWidth <;> exact List.cons_ne_nil _ _
    have hoperand := (operandOf_of_cells hdata hsome).1
    rw [Width.join_split] at hoperand
    rw [hoperand]
    exact Width.toNat_and_mask_lt _ _

/-- **A rotation is undone** by one of its result the other way, with the carry that it left. -/
theorem rotation_undone {first second : Shift} {next : Cpu × μ} {mode' : Mode}
    (hrotations : (first, second) = (.rol, .ror) ∨ (first, second) = (.ror, .rol))
    (hfirst : first.Executed mode start) (hsecond : second.Executed mode' next)
    (hwidth : next.1.regs.accumulatorWidth = start.1.regs.accumulatorWidth)
    (hoperand : operandOf next = resultOf start) (hcarry : next.1.regs.flag Status.carry = carryAfter start) :
    resultOf next = operandOf start ∧ carryAfter next = start.1.regs.flag Status.carry := by
  have hmoves := Shift.moves_done ⟨mode, hfirst⟩
  have hmoves' := Shift.moves_done ⟨mode', hsecond⟩
  rw [hwidth] at hmoves'
  obtain ⟨htakes, htakes', hopposite⟩ := Shift.rotations hrotations
  obtain ⟨hback, hleft⟩ := Shift.Moves.undone hmoves hmoves' hopposite hoperand
    ((Shift.carryIn_of_takesCarry htakes' _).trans hcarry)
  change start.1.regs.accumulatorWidth.unsigned (resultOf next) =
    start.1.regs.accumulatorWidth.unsigned (operandOf start) at hback
  have hlt := (Shift.step_shifted hsecond).2.1
  rw [hwidth] at hlt
  rw [Width.unsigned_of_lt hlt, Width.unsigned_of_lt (Shift.operandOf_lt hfirst)] at hback
  exact ⟨UInt16.toNat_inj.1 hback, hleft.trans (Shift.carryIn_of_takesCarry htakes _)⟩

end Memory

/-- **Shifts are those of long numbers.** Whether in memory or in the accumulator, a shift doubles or halves its
operand, what is lost of it being the carry; the result bits tell of its result, which is written where the operand
was, and above the width the accumulator stays as it is. So a shift of the lowest operand and rotations of the others
double a long number, as far as it goes, and leave its highest bit in the carry. From the highest operand down they
halve it, and leave its lowest bit. This holds of steps, whatever is done between them as long as it keeps the carry,
and of operands at hand. Rotations undo each other, with the carry. -/
theorem long_shifts (width : Width) :
    let value := number (2 ^ width.bits) width.unsigned
    (∀ {μ : Type} [Memory μ] (start : Cpu × μ) (shift : Shift) (mode : Mode), shift.Executed mode start →
      start.1.regs.accumulatorWidth = width →
      let r := start.1.regs
      let after := (Action.step.apply start).1.regs
      shift.Moves width ⟨operandOf start, shift.carryIn r, resultOf start, carryAfter start⟩ ∧
      after.flag Status.zero = (resultOf start &&& width.mask == 0) ∧
      after.flag Status.negative = (resultOf start &&& width.signBit != 0) ∧
      (mode = .accumulator → operandOf start = r.accumulator ∧ resultOf start = after.accumulator ∧
        after.a &&& ~~~width.mask = r.a &&& ~~~width.mask) ∧
      (mode ≠ .accumulator → after.a = r.a ∧ ∃ place,
        dataOf start = cells .read .data place (width.split (operandOf start)) ++
          cells .write .data place (width.split (resultOf start)))) ∧
    (∀ {μ : Type} [Memory μ] (start : Cpu × μ) (rest : List (Cpu × μ)),
      let starts := start :: rest
      let last := starts.getLast (List.cons_ne_nil _ _)
      (InTurn width .asl .rol start rest →
        value (starts.map resultOf) = 2 * value (starts.map operandOf) % 2 ^ (width.bits * starts.length) ∧
        carryAfter last = (value (starts.map operandOf)).testBit (width.bits * starts.length - 1)) ∧
      (InTurn width .lsr .ror start rest →
        value (starts.map resultOf).reverse = value (starts.map operandOf).reverse / 2 ∧
        carryAfter last = (value (starts.map operandOf).reverse).testBit 0)) ∧
    (∀ {μ : Type} [Memory μ] (start next : Cpu × μ) (first second : Shift) (mode mode' : Mode),
      (first, second) = (.rol, .ror) ∨ (first, second) = (.ror, .rol) → first.Executed mode start →
      second.Executed mode' next → start.1.regs.accumulatorWidth = width → next.1.regs.accumulatorWidth = width →
      operandOf next = resultOf start → next.1.regs.flag Status.carry = carryAfter start →
      resultOf next = operandOf start ∧ carryAfter next = start.1.regs.flag Status.carry) ∧
    (∀ (r : Registers) (operand : UInt16) (rest : List UInt16), r.accumulatorWidth = width →
      let up := Shift.shiftLong .asl .rol operand rest r
      let down := Shift.shiftLong .lsr .ror operand rest r
      let operands := operand :: rest
      value up.1 = 2 * value operands % 2 ^ (width.bits * operands.length) ∧
      up.2.flag Status.carry = (value operands).testBit (width.bits * operands.length - 1) ∧
      value down.1.reverse = value operands.reverse / 2 ∧
      down.2.flag Status.carry = (value operands.reverse).testBit 0) ∧
    (∀ (r : Registers) (operand : UInt16) (first second : Shift), r.accumulatorWidth = width →
      (first, second) = (.rol, .ror) ∨ (first, second) = (.ror, .rol) →
      let done := first.effect r operand
      let undone := second.effect done.2 done.1
      undone.1 = operand &&& width.mask ∧ undone.2.flag Status.carry = r.flag Status.carry) := by
  intro value
  refine ⟨?_, ?_, ?_, ?_, ?_⟩
  · intro μ _ start shift mode hexecuted hwidth r after
    obtain ⟨-, -, hzero, hnegative, haccumulator, hplace⟩ := Shift.step_shifted hexecuted
    have hmoves := Shift.moves_done ⟨mode, hexecuted⟩
    rw [hwidth] at hmoves hzero hnegative haccumulator hplace
    exact ⟨hmoves, hzero, hnegative, haccumulator, hplace⟩
  · intro μ _ start rest starts last
    constructor
    · intro h
      obtain ⟨hoperands, hresults⟩ := map_done .asl .rol start rest
      have hlong := (h.longShift rfl rfl).doubled
      rw [hoperands, hresults, List.length_map] at hlong
      exact hlong
    · intro h
      obtain ⟨hoperands, hresults⟩ := map_done .lsr .ror start rest
      have hlong := (h.longShift rfl rfl).halved
      rw [hoperands, hresults] at hlong
      exact hlong
  · intro μ _ start next first second mode mode' hrotations hfirst hsecond hwidth hwidth'
    exact rotation_undone hrotations hfirst hsecond (hwidth'.trans hwidth.symm)
  · intro r operand rest hwidth up down operands
    obtain ⟨hdoubled, hhighest⟩ := Shift.doubled_shiftLong operand rest r
    obtain ⟨hhalved, hlowest⟩ := Shift.halved_shiftLong operand rest r
    rw [hwidth] at hdoubled hhighest hhalved hlowest
    exact ⟨hdoubled, hhighest, hhalved, hlowest⟩
  · intro r operand first second hwidth hrotations
    subst hwidth
    exact Shift.effect_undone hrotations r operand

/-- A number of three bytes, the highest of them in the accumulator below one that stays as it is. -/
theorem long_shifts_three_bytes :
    let memory : FlatMemory := ⟨fun addr => if addr = 0x10 then 0x81 else if addr = 0x11 then 0x80
      else [0x06, 0x10, 0x26, 0x11, 0x2A, 0x6A].getD (addr.toNat - 0x8000) 0⟩
    let low : Cpu × FlatMemory := ({ regs := { a := 0x7FC0, pc := 0x8000 } }, memory)
    let middle := Action.step.apply low
    let high := Action.step.apply middle
    let undo := Action.step.apply high
    let value := number (2 ^ Width.byte.bits) Width.byte.unsigned
    let down := Shift.shiftLong .lsr .ror 0x03 [0x01] low.1.regs
    InTurn .byte .asl .rol low [middle, high] ∧ value ([low, middle, high].map operandOf) = 0xC08081 ∧
      value ([low, middle, high].map resultOf) = 0x810102 ∧ carryAfter high = true ∧
      undo.1.regs.a &&& ~~~Width.byte.mask = 0x7F00 ∧ Shift.ror.Executed .accumulator undo ∧ resultOf undo = 0xC0 ∧
      low.1.regs.accumulatorWidth = .byte ∧ value down.1.reverse = 0x0180 ∧
      (Shift.effect .rol (Shift.effect .ror low.1.regs 0x99).2 (Shift.effect .ror low.1.regs 0x99).1).1 = 0x99 := by
  intro memory low middle high undo value down
  have hlow : Shift.asl.Executed .direct low := ⟨0, 0x8000, 0x06, by decide, by decide⟩
  have hmiddle : Shift.rol.Executed .direct middle := ⟨0, 0x8002, 0x26, by decide, by decide⟩
  have hhigh : Shift.rol.Executed .accumulator high := ⟨0, 0x8004, 0x2A, by decide, by decide⟩
  have hundo : Shift.ror.Executed .accumulator undo := ⟨0, 0x8005, 0x6A, by decide, by decide⟩
  have hwidth : ∀ step ∈ [low, middle, high, undo], step.1.regs.accumulatorWidth = .byte := by decide
  obtain ⟨hwidthLow, hwidths⟩ := List.forall_mem_cons.1 hwidth
  obtain ⟨hwidthHigh, hwidthUndo⟩ := List.forall_mem_cons.1 (List.forall_mem_cons.1 hwidths).2
  have hcarries (start : Cpu × FlatMemory) :
      let next := Action.step.apply start
      [start, next, Action.step.apply next].IsChain
        fun step step' => step'.1.regs.flag Status.carry = carryAfter step :=
    List.isChain_cons_cons.2 ⟨rfl, List.isChain_cons_cons.2 ⟨rfl, List.IsChain.singleton _⟩⟩
  have hturn : InTurn .byte .asl .rol low [middle, high] :=
    { first := ⟨.direct, hlow⟩
      next := List.forall_mem_cons.2 ⟨⟨.direct, hmiddle⟩, List.forall_mem_singleton.2 ⟨.accumulator, hhigh⟩⟩
      width := by decide
      carry := hcarries low }
  have hoperands :
      number (2 ^ Width.byte.bits) Width.byte.unsigned ([low, middle, high].map operandOf) = 0xC08081 := by
    decide
  have hoperand : operandOf high = 0xC0 := by decide
  have hagain : operandOf undo = resultOf high := by decide
  have hleft : undo.1.regs.flag Status.carry = carryAfter high := by decide
  have habove : high.1.regs.a &&& ~~~Width.byte.mask = 0x7F00 := by decide
  have hundoes : undo = Action.step.apply high := rfl
  obtain ⟨hsteps, hlong, hback, hregisters, heffect⟩ := long_shifts .byte
  have hdown := (hregisters low.1.regs 0x03 [0x01] hwidthLow).2.2.1
  have hrotated := (heffect low.1.regs 0x99 .ror .rol hwidthLow (Or.inr rfl)).1
  clear_value undo high middle low
  obtain ⟨hdoubled, hcarry⟩ := (hlong low [middle, high]).1 hturn
  have hhidden := ((hsteps high .rol .accumulator hhigh hwidthHigh).2.2.2.1 rfl).2.2
  rw [← hundoes, habove] at hhidden
  have hundone := (hback high undo .rol .ror .accumulator .accumulator (Or.inl rfl) hhigh hundo hwidthHigh
    (hwidthUndo undo List.mem_cons_self) hagain hleft).1
  rw [hoperands] at hdoubled hcarry
  have htwice : 2 * 0xC08081 % 2 ^ 24 = 0x810102 := by norm_num
  have hhighest : Nat.testBit 0xC08081 23 = true := by decide
  exact ⟨hturn, hoperands, hdoubled.trans htwice, hcarry.trans hhighest, hhidden, hundo, hundone.trans hoperand,
    hwidthLow, hdown, hrotated⟩

end Emu816
