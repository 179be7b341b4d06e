import Emu816.Proofs.Costs
import Emu816.Proofs.Ram
import Emu816.Proofs.Steps

/-!
# Cycles of instructions

The cycles that an instruction goes through, counted from the bottom up, are its published cost.

- `ensures_resolve_cost`: the cycles of an addressing mode.
- `Takes`, `takes_operation`: the cycles of every operation after its opcode.
- `executed_cycles`: the cycles of a step that executes an instruction.
-/

namespace Emu816

open Microcode

variable {r : Registers}

/-- The cycles of an addressing mode. The widths are as they were when it is through. -/
theorem ensures_resolve_cost (mode : Mode) (access : Access) :
    (resolve mode access).Ensures (r.setPc (r.pc + 1)) fun log _ r' =>
      (∀ group, r'.widthOf group = r.widthOf group) ∧
      ∀ mnemonic rest, (mode.cost access).Charges
        (Instruction.conditions ⟨mnemonic, mode⟩ r (answers log ++ rest)) log.length := by
  cases mode with
  | direct | directX | directY | directIndirect | directIndirectLong | directXIndirect | directIndirectLongY =>
    simp [resolve, Mode.cost, Cost.Charges, Cost.total, Instruction.conditions]
    omega
  | directIndirectY =>
    cases access with
    | read =>
      simp [resolve, Mode.cost, Cost.Charges, Cost.total, Instruction.conditions, Mode.indexBase, Mode.index]
      omega
    | write =>
      simp [resolve, Mode.cost, Cost.Charges, Cost.total, Instruction.conditions]
      omega
  | absoluteX | absoluteY =>
    -- the bytes read after the opcode are the base that the addition starts from
    cases access <;>
      simp [resolve, Mode.cost, Cost.Charges, Cost.total, Instruction.conditions, Mode.indexBase, Mode.index]
  | _ => simp [resolve, Mode.cost, Cost.Charges, Cost.total]

/-! ## Values -/

theorem length_readAt (place : Place) (width : Width) :
    (readAt place width).Ensures r fun log _ _ => log.length = width.bytes := by
  cases width <;> simp [readAt, Width.bytes]

theorem length_writeAt (place : Place) (width : Width) (value : UInt16) :
    (writeAt place width value).Ensures r fun log _ _ => log.length = width.bytes := by
  cases width <;> simp [writeAt, Width.bytes]

theorem length_fetchWidth (width : Width) : (fetchWidth width).Ensures r fun log _ _ => log.length = width.bytes := by
  cases width <;> simp [fetchWidth, Width.bytes]

theorem length_pushWidth (width : Width) (value : UInt16) :
    (pushWidth width value).Ensures r fun log _ _ => log.length = width.bytes := by
  cases width <;> simp [pushWidth, Width.bytes]

theorem length_pullWidth (width : Width) : (pullWidth width).Ensures r fun log _ _ => log.length = width.bytes := by
  cases width <;> simp [pullWidth, Width.bytes]

theorem charges_bytes (group : RegisterClass) (instruction : Instruction) (r : Registers) (bytes : List UInt8) :
    group.cost.Charges (instruction.conditions r bytes) (r.widthOf group).bytes := by
  cases group with
  | accumulator =>
    cases hwidth : r.accumulatorWidth <;>
      simp [Cost.Charges, Cost.total, RegisterClass.cost, Instruction.conditions, Registers.widthOf, Width.bytes,
        hwidth]
  | index =>
    cases hwidth : r.indexWidth <;>
      simp [Cost.Charges, Cost.total, RegisterClass.cost, Instruction.conditions, Registers.widthOf, Width.bytes,
        hwidth]

/-- Cycles that nothing adds to. -/
theorem charges_reference (cycles : Nat) (c : Conditions) : ({ reference := cycles } : Cost).Charges c cycles := by
  simp [Cost.Charges, Cost.total]

/-! ## Operations -/

/-- After the opcode the code goes through the cycles that the cost says. -/
def Takes {α : Type} (instruction : Instruction) (r : Registers) (cost : Cost) (code : Microcode α) : Prop :=
  code.Ensures (r.setPc (r.pc + 1)) fun log _ _ =>
    cost.Charges (instruction.conditions r (answers log)) log.length

theorem takes_readOperand (mnemonic : Mnemonic) (mode : Mode) (group : RegisterClass) :
    Takes ⟨mnemonic, mode⟩ r (mode.cost .read + group.cost) (readOperand mode (r.widthOf group)) := by
  by_cases hconstant : mode = .immediate ∨ mode = .immediateIndex
  · have hcost : mode.cost .read = { reference := 0 } := by
      rcases hconstant with rfl | rfl <;> rfl
    unfold Takes
    rw [readOperand_of_constant hconstant, hcost]
    refine (length_fetchWidth _).mono ?_
    intro log _ _ hlength
    rw [hlength, ← Nat.zero_add (r.widthOf group).bytes]
    exact (charges_reference 0 _).add (charges_bytes group _ r _)
  · unfold Takes
    rw [readOperand_of_place hconstant, ensures_bind]
    refine (ensures_resolve_cost mode .read).mono ?_
    rintro log place r' ⟨-, hplace⟩
    refine (length_readAt place _).mono ?_
    intro log' _ _ hlength
    rw [answers_append, List.length_append, hlength]
    exact (hplace mnemonic _).add (charges_bytes group _ r _)

theorem takes_load (mnemonic : Mnemonic) (mode : Mode) (group : RegisterClass)
    (effect : Registers → UInt16 → Registers) :
    Takes ⟨mnemonic, mode⟩ r (mode.cost .read + group.cost) (ofOperation mode (.load group effect)) := by
  simp only [Takes, ofOperation, ensures_bind, ensures_get, ensures_modify, List.nil_append, List.append_nil,
    Registers.setPc_widthOf]
  exact takes_readOperand mnemonic mode group

theorem takes_store (mnemonic : Mnemonic) (mode : Mode) (group : RegisterClass) (source : Registers → UInt16) :
    Takes ⟨mnemonic, mode⟩ r (mode.cost .write + group.cost) (ofOperation mode (.store group source)) := by
  simp only [Takes, ofOperation, ensures_bind, ensures_get, List.nil_append, Registers.setPc_widthOf]
  refine (ensures_resolve_cost mode .write).mono ?_
  rintro log place r' ⟨-, hplace⟩
  refine (length_writeAt place _ _).mono ?_
  intro log' _ _ hlength
  rw [answers_append, List.length_append, hlength]
  exact (hplace mnemonic _).add (charges_bytes group _ r _)

/-- A change of an operand reads it, spends a cycle and writes it. -/
theorem takes_modify (mnemonic : Mnemonic) {mode : Mode} (hmode : mode ≠ .accumulator)
    (effect : Registers → UInt16 → UInt16 × Registers) :
    Takes ⟨mnemonic, mode⟩ r
      (mode.cost .write + (RegisterClass.accumulator.cost + ({ reference := 1 } + RegisterClass.accumulator.cost)))
      (ofOperation mode (.modify effect)) := by
  simp only [Takes, ofOperation, hmode, if_false, ensures_bind, ensures_get, ensures_idle, ensures_modifyGet,
    List.nil_append, Registers.setPc_accumulatorWidth]
  refine (ensures_resolve_cost mode .write).mono ?_
  rintro log place r' ⟨-, hplace⟩
  refine (length_readAt place _).mono ?_
  intro log' value r'' hread
  refine (length_writeAt place _ _).mono ?_
  intro log'' _ _ hwrite
  simp only [answers_append, List.length_append, List.length_singleton, hread, hwrite]
  exact (hplace mnemonic _).add ((charges_bytes .accumulator _ r _).add
    ((charges_reference 1 _).add (charges_bytes .accumulator _ r _)))

theorem takes_modify_accumulator (mnemonic : Mnemonic) (effect : Registers → UInt16 → UInt16 × Registers) :
    Takes ⟨mnemonic, .accumulator⟩ r { reference := 1 } (ofOperation .accumulator (.modify effect)) := by
  simp only [Takes, ofOperation, if_true, ensures_bind, ensures_get, ensures_idle, ensures_modify]
  exact charges_reference 1 _

theorem takes_internal (instruction : Instruction) (cycles : Nat) (effect : Registers → Registers) :
    Takes instruction r { reference := cycles } (ofOperation instruction.mode (.internal cycles effect)) := by
  simp [Takes, ofOperation, charges_reference]

theorem takes_maskStatus (instruction : Instruction) (effect : UInt8 → UInt8 → UInt8) :
    Takes instruction r { reference := 2 } (ofOperation instruction.mode (.maskStatus effect)) := by
  simp [Takes, ofOperation, charges_reference]

/-- What a branch does to the log. -/
theorem ensures_branch (mnemonic : Mnemonic) (mode : Mode) (condition : Registers → Bool)
    (hcondition : condition (r.setPc (r.pc + 1)) = mnemonic.branches r) :
    (ofOperation mode (.branch condition)).Ensures (r.setPc (r.pc + 1)) fun log _ _ =>
      let c := Instruction.conditions ⟨mnemonic, mode⟩ r (answers log)
      log.length = 1 + c.taken.toNat + c.far.toNat := by
  have hnext : r.pc + 1 + 1 = r.pc + 2 := by grind
  simp only [ofOperation, branch, ensures_bind, ensures_get, ensures_fetch, List.nil_append]
  intro offset
  cases htaken : mnemonic.branches r with
  | false => simp [hcondition, htaken, Instruction.conditions]
  | true =>
    by_cases hfar : r.emulation = true ∧ Word.high (r.pc + 2) ≠ Word.high (r.pc + 2 + Word.signExtend offset)
    · simp [hcondition, htaken, Instruction.conditions, hnext, hfar]
    · simp [hcondition, htaken, Instruction.conditions, hnext, hfar]
      simpa using hfar

theorem takes_branch (mnemonic : Mnemonic) (mode : Mode) {condition : Registers → Bool}
    (hcondition : condition (r.setPc (r.pc + 1)) = mnemonic.branches r) :
    Takes ⟨mnemonic, mode⟩ r { reference := 1, taken := 1, far := 1 } (ofOperation mode (.branch condition)) := by
  refine (ensures_branch mnemonic mode condition hcondition).mono ?_
  intro log _ _ hlength
  rw [hlength]
  simp [Cost.Charges, Cost.total]

/-- The unconditional branch has the cycle of a taken one in its reference cost. -/
theorem takes_branch_always (mode : Mode) :
    Takes ⟨.bra, mode⟩ r { reference := 2, far := 1 } (ofOperation mode (.branch fun _ => true)) := by
  refine (ensures_branch .bra mode (fun _ => true) rfl).mono ?_
  intro log _ _ hlength
  rw [hlength]
  simp [Cost.Charges, Cost.total, Instruction.conditions, Mnemonic.branches]

theorem takes_push (instruction : Instruction) {cost : Cost} {width : Registers → Width}
    (source : Registers → UInt16)
    (hcost : ∀ bytes, cost.Charges (instruction.conditions r bytes) (width (r.setPc (r.pc + 1))).bytes) :
    Takes instruction r ({ reference := 1 } + cost) (ofOperation instruction.mode (.push width source)) := by
  simp only [Takes, ofOperation, ensures_bind, ensures_get, ensures_idle, List.nil_append]
  refine (length_pushWidth _ _).mono ?_
  intro log _ _ hlength
  rw [List.length_append, List.length_singleton, hlength]
  exact (charges_reference 1 _).add (hcost _)

theorem takes_pull (instruction : Instruction) {cost : Cost} {width : Registers → Width}
    (effect : Registers → UInt16 → Registers)
    (hcost : ∀ bytes, cost.Charges (instruction.conditions r bytes) (width (r.setPc (r.pc + 1))).bytes) :
    Takes instruction r ({ reference := 2 } + cost) (ofOperation instruction.mode (.pull width effect)) := by
  simp only [Takes, ofOperation, ensures_bind, ensures_get, ensures_idles, ensures_modify, List.nil_append,
    List.append_nil]
  refine (length_pullWidth _).mono ?_
  intro log _ _ hlength
  rw [List.length_append, List.length_replicate, hlength]
  exact (charges_reference 2 _).add (hcost _)

theorem takes_pushIndirect (instruction : Instruction) :
    Takes instruction r { reference := 5, offPage := 1 } (ofOperation instruction.mode .pushIndirect) := by
  simp [Takes, ofOperation, Cost.Charges, Cost.total, Instruction.conditions]
  omega

/-- An emulated processor has no program bank on the stack. -/
theorem takes_retInterrupt (instruction : Instruction) :
    Takes instruction r { reference := 6, discount := 1 } (ofOperation instruction.mode .retInterrupt) := by
  cases hmode : r.emulation <;>
    simp [Takes, ofOperation, Cost.Charges, Cost.total, Instruction.conditions, hmode]

theorem takes_interrupt (instruction : Instruction) (source : SoftwareInterrupt) :
    Takes instruction r { reference := 7, discount := 1 } (ofOperation instruction.mode (.interrupt source)) := by
  cases hmode : r.emulation <;>
    simp [Takes, ofOperation, enterSoftware, enter, Cost.Charges, Cost.total, Instruction.conditions, hmode]

theorem takes_operation (mnemonic : Mnemonic) (mode : Mode) :
    Takes ⟨mnemonic, mode⟩ r (Instruction.operationCost ⟨mnemonic, mode⟩)
      (ofOperation mode (Instruction.operation ⟨mnemonic, mode⟩)) := by
  cases mnemonic with
  | lda | ora | and | eor | adc | sbc | cmp => exact takes_load _ _ .accumulator _
  | bit =>
    simp only [Instruction.operation]
    split <;> exact takes_load _ _ .accumulator _
  | ldx | ldy | cpx | cpy => exact takes_load _ _ .index _
  | sta | stz => exact takes_store _ _ .accumulator _
  | stx | sty => exact takes_store _ _ .index _
  | asl | lsr | rol | ror | inc | dec | tsb | trb =>
    by_cases hmode : mode = .accumulator
    · subst hmode
      exact takes_modify_accumulator _ _
    · simp only [Instruction.operationCost, if_neg hmode]
      exact takes_modify _ hmode _
  | inx | iny | dex | dey | tax | tay | txa | tya | txy | tyx | tsx | txs | tcs | tsc | tcd | tdc | xba | xce | nop
  | clc | sec | cli | sei | cld | sed | clv => exact takes_internal ⟨_, mode⟩ _ _
  | rep | sep => exact takes_maskStatus ⟨_, mode⟩ _
  | bpl | bvc | bcc | bne => exact takes_branch _ mode (beq_false _)
  | bmi | bvs | bcs | beq => exact takes_branch _ mode (beq_true _)
  | bra => exact takes_branch_always mode
  | pha => exact takes_push ⟨_, mode⟩ _ fun bytes => charges_bytes .accumulator _ r bytes
  | phx | phy => exact takes_push ⟨_, mode⟩ _ fun bytes => charges_bytes .index _ r bytes
  | pla => exact takes_pull ⟨_, mode⟩ _ fun bytes => charges_bytes .accumulator _ r bytes
  | plx | ply => exact takes_pull ⟨_, mode⟩ _ fun bytes => charges_bytes .index _ r bytes
  | php | phb | phk => exact takes_push ⟨_, mode⟩ _ fun bytes => charges_reference Width.byte.bytes _
  | phd => exact takes_push ⟨_, mode⟩ _ fun bytes => charges_reference Width.word.bytes _
  | plp | plb => exact takes_pull ⟨_, mode⟩ _ fun bytes => charges_reference Width.byte.bytes _
  | pld => exact takes_pull ⟨_, mode⟩ _ fun bytes => charges_reference Width.word.bytes _
  | brl | pea | per | jsl | rts | rtl | wdm | wai | stp =>
    simp [Takes, Instruction.operation, Instruction.operationCost, ofOperation, charges_reference]
  | mvn | mvp =>
    simp [Takes, Instruction.operation, Instruction.operationCost, ofOperation, blockMove, charges_reference]
  | pei => exact takes_pushIndirect ⟨_, mode⟩
  | rti => exact takes_retInterrupt ⟨_, mode⟩
  | brk | cop => exact takes_interrupt ⟨_, mode⟩ _
  | jmp =>
    simp only [Instruction.operation, Instruction.operationCost]
    split <;> simp [Takes, ofOperation, charges_reference]
  | jml =>
    simp only [Instruction.operation, Instruction.operationCost]
    split <;> simp [Takes, ofOperation, charges_reference]
  | jsr =>
    simp only [Instruction.operation, Instruction.operationCost]
    split <;> simp [Takes, ofOperation, charges_reference]

/-! ## Steps -/

theorem ensures_instruction_cost (r : Registers) :
    Cpu.instruction.Ensures r fun log opcode _ =>
      (Instruction.publishedCost opcode).Charges
        ((Instruction.decode opcode).conditions r (answers log).tail) log.length := by
  rw [Cpu.ensures_instruction]
  intro opcode
  refine (takes_operation _ _).mono ?_
  intro log _ _ hlog
  rw [answers_read, List.tail_cons, List.length_cons, Nat.add_comm, Instruction.publishedCost_eq]
  exact (charges_reference 1 _).add hlog

theorem length_transfers_le (log : List Cycle) : (transfers log).length ≤ log.length := List.length_filterMap_le _ _

/-- **The cycles of an instruction are its published cost** under the conditions that it meets. They are between 2 and
9, and each of its transfers takes one of them. -/
theorem executed_cycles (cpu : Cpu) {μ : Type} [Memory μ] (memory : μ) (pbr : UInt8) (pc : UInt16) (opcode : UInt8)
    (hexecuted : (cpu.step memory).1.event = .executed pbr pc opcode) :
    let cycles := (cpu.step memory).1.cycles
    let bytes := (answers (cpu.log memory)).tail
    (Instruction.publishedCost opcode).Charges ((Instruction.decode opcode).conditions cpu.regs bytes) cycles ∧
    2 ≤ cycles ∧ cycles ≤ 9 ∧ (cpu.transfers memory).length ≤ cycles := by
  intro cycles bytes
  have hcost : cpu.activity.Ensures fun log result => ∀ pbr pc opcode, result.1 = .executed pbr pc opcode →
      (Instruction.publishedCost opcode).Charges
        ((Instruction.decode opcode).conditions cpu.regs (answers log).tail) log.length := by
    rw [Cpu.ensures_activity]
    split
    · exact nofun
    · exact nofun
    · exact Microcode.ensures_of_forall fun _ _ _ => nofun
    · refine (ensures_instruction_cost cpu.regs).mono ?_
      rintro log opcode _ hlog _ _ _ ⟨⟩
      exact hlog
  have hcycles := Cpu.step_of_ensures hcost memory pbr pc opcode hexecuted
  rw [← cpu.step_cycles memory] at hcycles
  obtain ⟨hleast, hmost⟩ := Instruction.publishedCost_bounds hcycles
  refine ⟨hcycles, hleast, hmost, ?_⟩
  calc (cpu.transfers memory).length
      ≤ (cpu.log memory).length := length_transfers_le _
    _ = cycles := (cpu.step_cycles memory).symm

/-- An addition of words through an index: two cycles more than the table says. -/
theorem executed_cycles_add :
    let memory : FlatMemory := ⟨fun addr => if addr = 0 then 0x7D else 0x10⟩
    let cpu : Cpu := { regs := { p := 0, emulation := false } }
    (cpu.step memory).1.event = .executed 0 0 0x7D ∧ (cpu.step memory).1.cycles = 6 := by
  intro memory cpu
  have hevent : (cpu.step memory).1.event = .executed 0 0 0x7D := by decide
  have hcost := (executed_cycles cpu memory 0 0 0x7D hevent).1
  have htotal : (Instruction.publishedCost 0x7D).total
      ((Instruction.decode 0x7D).conditions cpu.regs (answers (cpu.log memory)).tail) = 6 := by decide
  exact ⟨hevent, hcost.trans htotal⟩

end Emu816
