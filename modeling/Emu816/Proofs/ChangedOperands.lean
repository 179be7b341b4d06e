import Emu816.Proofs.AddressRuns
import Emu816.Proofs.WriteSets

/-!
# Operands that are changed

Some instructions change their operand where it is: in the accumulator, or at a place in memory, where they read it
and write it back.

- `dataOf`: the transfers of a step that carry an operand; `operandOf`, `resultOf`: the operand of a step that changes
  one, before and after it.
- `modified_accumulator`, `modified_place`: a step that executes one of them.
-/

namespace Emu816

/-! ## Operands of a step -/

section Memory

variable {μ : Type} [Memory μ]

/-- The transfers of a step that carry an operand. -/
def dataOf (start : Cpu × μ) : List Transfer := transfersFor .data (start.1.transfers start.2)

/-- The bytes of an operand that go over the bus in one direction. -/
def dataBytes (start : Cpu × μ) (direction : Direction) : List UInt8 :=
  ((dataOf start).filter fun t => t.direction = direction).map Transfer.byte

/-- The operand that a step changes: what it reads from memory, or else the accumulator. -/
def operandOf (start : Cpu × μ) : UInt16 :=
  if dataOf start = [] then start.1.regs.accumulator
  else start.1.regs.accumulatorWidth.join (dataBytes start .read)

/-- What the step leaves in its place. -/
def resultOf (start : Cpu × μ) : UInt16 :=
  if dataOf start = [] then (Action.step.apply start).1.regs.accumulator
  else start.1.regs.accumulatorWidth.join (dataBytes start .write)

end Memory

/-- The bytes of cells go over the bus in one direction. -/
theorem byte_filter_cells (direction other : Direction) (purpose : Purpose) (place : Place) (bytes : List UInt8) :
    ((cells direction purpose place bytes).filter fun t => t.direction = other).map Transfer.byte =
      if direction = other then bytes else [] := by
  have hdirection := direction_cells direction purpose place bytes
  split
  case isTrue hsame =>
    rw [List.filter_eq_self.2 fun t ht => decide_eq_true ((hdirection t ht).trans hsame), byte_cells]
  case isFalse hother =>
    rw [List.filter_eq_nil_iff.2 fun t ht => by simpa [hdirection t ht] using hother, List.map_nil]

/-- On the way to its operand an instruction reads no operand. -/
theorem Reaches.transfersFor_data {opcode : UInt8} {mode : Mode} {r : Registers} {lead : List Transfer}
    {place : Place} (h : Reaches opcode mode r lead place) : transfersFor .data lead = [] := by
  obtain ⟨operand, pointer, -, -, rfl, -⟩ := h
  rw [transfersFor_append, transfersFor_fetches, transfersFor_cells]
  rfl

/-- An operand that is read at a place and written back there. -/
theorem operandOf_of_cells {μ : Type} [Memory μ] {start : Cpu × μ} {place : Place} {before after : List UInt8}
    (h : dataOf start = cells .read .data place before ++ cells .write .data place after) (hsome : before ≠ []) :
    operandOf start = start.1.regs.accumulatorWidth.join before ∧
      resultOf start = start.1.regs.accumulatorWidth.join after := by
  have hdata : dataOf start ≠ [] := by
    rw [h]
    intro hnil
    have hbytes := congrArg (List.map Transfer.byte) (List.append_eq_nil_iff.1 hnil).1
    rw [byte_cells] at hbytes
    exact hsome hbytes
  have hbytes (direction : Direction) : dataBytes start direction =
      (if .read = direction then before else []) ++ (if .write = direction then after else []) := by
    rw [dataBytes, h, List.filter_append, List.map_append, byte_filter_cells, byte_filter_cells]
  rw [operandOf, resultOf, if_neg hdata, if_neg hdata, hbytes, hbytes]
  exact ⟨congrArg _ (List.append_nil before), rfl⟩

/-! ## Instructions that change their operand -/

namespace Microcode

/-- The accumulator is changed without a transfer. -/
theorem ensures_modify_accumulator (r : Registers) (opcode : UInt8)
    (effect : Registers → UInt16 → UInt16 × Registers) :
    (ofOperation .accumulator (.modify effect)).Ensures (r.setPc (r.pc + 1)) fun log _ r' =>
      let outcome := effect (r.setPc (r.pc + 1)) r.accumulator
      ⟨.read, .code, r.programAddress, opcode⟩ :: transfers log = [⟨.read, .code, r.programAddress, opcode⟩] ∧
        r' = outcome.2.setAccumulator outcome.1 := by
  simp only [ofOperation, if_true, ensures_bind, ensures_get, ensures_idle, ensures_modify, List.nil_append,
    List.append_nil, transfers_idle, transfers_nil]
  exact ⟨trivial, rfl⟩

end Microcode

/-! ## Steps -/

section Memory

variable {μ : Type} [Memory μ] {start : Cpu × μ} {pbr : UInt8} {pc : UInt16} {opcode : UInt8} {mode : Mode}
  {mnemonic : Mnemonic} {effect : Registers → UInt16 → UInt16 × Registers}

/-- **A step that changes the accumulator** has no operand in memory. -/
theorem modified_accumulator (hevent : eventAt start = .executed pbr pc opcode)
    (hdecode : Instruction.decode opcode = ⟨mnemonic, .accumulator⟩)
    (hoperation : Instruction.operation ⟨mnemonic, .accumulator⟩ = .modify effect) :
    let r := start.1.regs
    let outcome := effect (r.setPc (r.pc + 1)) (operandOf start)
    dataOf start = [] ∧ operandOf start = r.accumulator ∧
      (Action.step.apply start).1.regs = outcome.2.setAccumulator outcome.1 := by
  intro r
  let post (log : List Cycle) (r' : Registers) : Prop :=
    let outcome := effect (r.setPc (r.pc + 1)) r.accumulator
    transfers log = [⟨.read, .code, r.programAddress, opcode⟩] ∧ r' = outcome.2.setAccumulator outcome.1
  obtain ⟨-, -, hlog, hregs⟩ := Cpu.step_of_executed hevent post (by
    rw [hdecode, hoperation]
    exact Microcode.ensures_modify_accumulator r opcode effect)
  have hdata : dataOf start = [] := by
    rw [dataOf, Cpu.transfers, hlog]
    rfl
  have hoperand : operandOf start = r.accumulator := if_pos hdata
  refine ⟨hdata, hoperand, ?_⟩
  rw [hoperand]
  exact hregs

/-- **A step that changes an operand in memory** reads it and writes it back where it was. -/
theorem modified_place (hevent : eventAt start = .executed pbr pc opcode)
    (hdecode : Instruction.decode opcode = ⟨mnemonic, mode⟩) (hmode : mode.placeSize ≠ 0)
    (hoperation : Instruction.operation ⟨mnemonic, mode⟩ = .modify effect) :
    let r := start.1.regs
    let width := r.accumulatorWidth
    let outcome := effect (r.setPc (r.pc + UInt16.ofNat (mode.placeSize + 1))) (operandOf start)
    (∃ place bytes, bytes.length = width.bytes ∧ operandOf start = width.join bytes ∧
      dataOf start = cells .read .data place bytes ++ cells .write .data place (width.split outcome.1)) ∧
    resultOf start = outcome.1 &&& width.mask ∧ (Action.step.apply start).1.regs = outcome.2 := by
  intro r width
  let post (log : List Cycle) (r' : Registers) : Prop := ∃ lead place bytes,
    Reaches opcode mode r lead place ∧ bytes.length = width.bytes ∧
      let outcome := effect (r.setPc (r.pc + UInt16.ofNat (mode.placeSize + 1))) (width.join bytes)
      transfers log = lead ++ (cells .read .data place bytes ++ cells .write .data place (width.split outcome.1)) ∧
      r' = outcome.2
  obtain ⟨-, -, lead, place, bytes, hreaches, hbytes, hlog, hregs⟩ := Cpu.step_of_executed hevent post (by
    rw [hdecode, hoperation]
    exact Microcode.ensures_modify_place opcode effect hmode)
  have hdata : dataOf start =
      cells .read .data place bytes ++ cells .write .data place
        (width.split (effect (r.setPc (r.pc + UInt16.ofNat (mode.placeSize + 1))) (width.join bytes)).1) := by
    rw [dataOf, Cpu.transfers, hlog, transfersFor_append, hreaches.transfersFor_data, transfersFor_append,
      transfersFor_cells, transfersFor_cells]
    rfl
  have hsome : bytes ≠ [] := by
    rintro rfl
    cases hwidth : width <;> rw [hwidth] at hbytes <;> cases hbytes
  obtain ⟨hoperand, hresult⟩ := operandOf_of_cells hdata hsome
  rw [Width.join_split] at hresult
  refine ⟨⟨place, bytes, hbytes, hoperand, ?_⟩, ?_, ?_⟩
  · rw [hoperand]
    exact hdata
  · rw [hoperand]
    exact hresult
  · rw [hoperand]
    exact hregs

end Memory

end Emu816
