import Emu816.Proofs.AddressRuns
import Emu816.Proofs.WriteSets

/-!
# Where steps access memory

The addresses of a step follow from the registers at its start and from the bytes that it fetches. Instruction bytes lie
in the program bank, pointers, the stack and vectors in bank 0, and data where operand and pointer lead to.

- `Mode.pointerPlace`, `Operation.dataAddresses`: where a pointer lies, and where the data lie.
- `Operation.destination`: where a jump or a branch leads.
- `operates_ofOperation`: every operation accesses what its mode says, and leads where it has to.
- `step_addresses`: the addresses of a step.
-/

namespace Emu816

/-! ## Pointers -/

namespace Mode

/-- Number of bytes of the pointer of an instruction, which may be an operand's or a jump's. -/
def indirection : Mode → Nat
  | .absoluteIndirect | .absoluteXIndirect => 2
  | .absoluteIndirectLong => 3
  | mode => mode.pointerSize

/-- The place of the pointer. The one of an indexed jump lies in the program bank, any other one in bank 0. -/
def pointerPlace (mode : Mode) (r : Registers) (operand : List UInt8) : Place :=
  match mode with
  | .absoluteIndirect | .absoluteIndirectLong => .bank0 (wordOf operand)
  | .absoluteXIndirect => .long (Address.ofBank r.pbr (wordOf operand + r.x))
  | _ => .bank0 (mode.anchor r operand)

/-- A pointer to an operand lies in bank 0. -/
theorem indirection_of_place {mode : Mode} (h : mode.placeSize ≠ 0) :
    mode.indirection = mode.pointerSize ∧ ∀ r operand, mode.pointerPlace r operand = .bank0 (mode.anchor r operand) := by
  cases mode with
  | absoluteIndirect | absoluteIndirectLong | absoluteXIndirect => exact absurd rfl h
  | _ => exact ⟨rfl, fun _ _ => rfl⟩

end Mode

/-! ## Data -/

namespace Operation

/-- The addresses at which an operation accesses data. A changed operand is read and then written. -/
def dataAddresses (operation : Operation) (mode : Mode) (r : Registers) (operand pointer : List UInt8) : List UInt32 :=
  let place := mode.place r operand pointer
  match operation with
  | load group _ => if mode = .immediate ∨ mode = .immediateIndex then [] else place.addresses (r.widthOf group).bytes
  | store group _ => place.addresses (r.widthOf group).bytes
  | modify _ =>
    if mode = .accumulator then []
    else place.addresses r.accumulatorWidth.bytes ++ place.addresses r.accumulatorWidth.bytes
  | blockMove _ => [Address.ofBank (operand.getD 1 0) r.x, Address.ofBank (operand.getD 0 0) r.y]
  | _ => []

/-- Whether an operation goes with a mode. -/
def fits (mode : Mode) : Operation → Bool
  | load _ _ => mode = .immediate ∨ mode = .immediateIndex ∨ mode.placeSize ≠ 0
  | store _ _ => mode.placeSize ≠ 0
  | modify _ => mode = .accumulator ∨ mode.placeSize ≠ 0
  | pushIndirect => mode = .directIndirect
  | jumpIndirect => mode = .absoluteIndirect
  | jumpIndexed | callIndexed => mode = .absoluteXIndirect
  | jumpLongIndirect => mode = .absoluteIndirectLong
  | blockMove _ => mode = .blockMove
  | _ => mode.indirection = 0

/-- The operation of every opcode goes with its mode. -/
theorem fits_decode (opcode : UInt8) :
    (Instruction.decode opcode).operation.fits (Instruction.decode opcode).mode = true :=
  forall_byte
    (P := fun opcode => (Instruction.decode opcode).operation.fits (Instruction.decode opcode).mode = true)
    (by decide +kernel) opcode

end Operation

/-! ## Instructions -/

/-- What an instruction accesses, from its operand bytes and the bytes of its pointer. -/
structure Accesses (operation : Operation) (mode : Mode) (r : Registers) (opcode : UInt8) (operand pointed : List UInt8)
    (log : List Transfer) : Prop where
  code : transfersFor .code log = fetches r (opcode :: operand)
  length : operand.length = operation.operandSize mode r.listingWidths
  pointer : transfersFor .pointer log = cells .read .pointer (mode.pointerPlace r operand) pointed
  indirection : pointed.length = mode.indirection
  data : addressesFor .data log = operation.dataAddresses mode r operand pointed
  stack : ∃ bytes, transfersFor .stack log = pushes r bytes ∨ transfersFor .stack log = pulls r bytes
  vector : ∃ vector bytes, transfersFor .vector log = cells .read .vector (.bank0 vector) bytes

namespace Accesses

variable {operation : Operation} {mode : Mode} {r : Registers} {opcode : UInt8} {operand : List UInt8}
  {log : List Transfer}

/-- An instruction that accesses its own bytes and the stack. -/
theorem of_stack (hmode : mode.indirection = 0) (hlength : operand.length = operation.operandSize mode r.listingWidths)
    (hdata : operation.dataAddresses mode r operand [] = [])
    (hcode : transfersFor .code log = fetches r (opcode :: operand))
    (hstack : ∃ bytes, transfersFor .stack log = pushes r bytes ∨ transfersFor .stack log = pulls r bytes)
    (hothers : transfersFor .pointer log = [] ∧ transfersFor .data log = [] ∧ transfersFor .vector log = []) :
    Accesses operation mode r opcode operand [] log := by
  obtain ⟨hpointer, hnone, hvector⟩ := hothers
  constructor
  · exact hcode
  · exact hlength
  · exact hpointer
  · exact hmode.symm
  · rw [hdata, addressesFor, hnone]
    rfl
  · exact hstack
  · exact ⟨0, [], hvector⟩

/-- An instruction that accesses its own bytes only. -/
theorem of_code (hmode : mode.indirection = 0) (hlength : operand.length = operation.operandSize mode r.listingWidths)
    (hdata : operation.dataAddresses mode r operand [] = []) :
    Accesses operation mode r opcode operand [] (fetches r (opcode :: operand)) := by
  refine of_stack hmode hlength hdata ?_ ⟨[], .inl ?_⟩ ⟨?_, ?_, ?_⟩
  · simp
  · simp [pushes]
  · simp
  · simp
  · simp

/-- An instruction that accesses data at the place of its operand. -/
theorem of_reaches (hmode : mode.placeSize ≠ 0) (hsize : operation.operandSize mode r.listingWidths = mode.placeSize)
    {lead data : List Transfer} {place : Place}
    (hreaches : Reaches opcode mode r lead place) (hpurpose : ∀ t ∈ data, t.purpose = .data)
    (hdata : ∀ operand pointed, place = mode.place r operand pointed →
      data.map Transfer.addr = operation.dataAddresses mode r operand pointed) :
    ∃ operand pointed, Accesses operation mode r opcode operand pointed (lead ++ data) := by
  obtain ⟨operand, pointed, hoperand, hpointed, rfl, hplace⟩ := hreaches
  obtain ⟨hindirection, hpointer⟩ := Mode.indirection_of_place hmode
  have hothers (purpose : Purpose) : transfersFor purpose data = if .data = purpose then data else [] :=
    transfersFor_of_forall hpurpose purpose
  refine ⟨operand, pointed, ?_, hoperand.trans hsize.symm, ?_, ?_, ?_, ⟨[], .inl ?_⟩, 0, [], ?_⟩
  · simp [hothers]
  · simp [hothers, hpointer]
  · rw [hindirection, hpointed]
  · simp [addressesFor, hothers, hdata operand pointed hplace]
  · simp [hothers, pushes]
  · simp [hothers, cells]

end Accesses

/-- Where an operation leads that jumps or branches, from its operand bytes and the bytes of its pointer: a bank and an
offset there. -/
def Operation.destination (operation : Operation) (r : Registers) (operand pointed : List UInt8) :
    Option (UInt8 × UInt16) :=
  match operation with
  | branch condition =>
    let next := r.pc + 2
    some (r.pbr, if condition (r.setPc (r.pc + 1)) then next + Word.signExtend (operand.getD 0 0) else next)
  | branchLong => some (r.pbr, r.pc + 3 + wordOf operand)
  | jump | call => some (r.pbr, wordOf operand)
  | jumpLong | callLong => some (operand.getD 2 0, wordOf operand)
  | jumpIndirect | jumpIndexed | callIndexed => some (r.pbr, wordOf pointed)
  | jumpLongIndirect => some (pointed.getD 2 0, wordOf pointed)
  | _ => none

/-- Behind its opcode an operation accesses what its mode says, and leads where it has to. -/
def Operates (operation : Operation) (mode : Mode) : Prop :=
  ∀ (r : Registers) (opcode : UInt8), (Microcode.ofOperation mode operation).Ensures (r.setPc (r.pc + 1)) fun log _ r' =>
    ∃ operand pointed, Accesses operation mode r opcode operand pointed
        (⟨.read, .code, r.programAddress, opcode⟩ :: transfers log) ∧
      ∀ pbr pc, operation.destination r operand pointed = some (pbr, pc) → r'.pbr = pbr ∧ r'.pc = pc

/-- An operation that leads nowhere of its own. -/
theorem leads_of_none {operation : Operation} {r : Registers} {operand pointed : List UInt8}
    {P : UInt8 → UInt16 → Prop} (h : operation.destination r operand pointed = none) :
    ∀ pbr pc, operation.destination r operand pointed = some (pbr, pc) → P pbr pc := by
  intro pbr pc hsome
  rw [h] at hsome
  cases hsome

section Operations

open Microcode

variable {mode : Mode}

theorem operates_load {group : RegisterClass} {effect : Registers → UInt16 → Registers}
    (hfits : (Operation.load group effect).fits mode = true) : Operates (.load group effect) mode := by
  intro r opcode
  simp only [ofOperation, ensures_bind, ensures_get, ensures_modify, List.nil_append, List.append_nil]
  by_cases hconstant : mode = .immediate ∨ mode = .immediateIndex
  · have hmode : mode.indirection = 0 := by rcases hconstant with rfl | rfl <;> rfl
    have hdata (operand : List UInt8) : (Operation.load group effect).dataAddresses mode r operand [] = [] :=
      if_pos hconstant
    have hsize : (Operation.load group effect).operandSize mode r.listingWidths = (r.widthOf group).bytes := by
      rw [Operation.operandSize, if_pos hconstant, Registers.size_listingWidths]
    rw [readOperand_of_constant hconstant, Registers.setPc_widthOf]
    cases hwidth : r.widthOf group with
    | byte =>
      rw [hwidth] at hsize
      simp [fetchWidth]
      exact fun byte => ⟨[byte], [], .of_code hmode hsize.symm (hdata _), leads_of_none rfl⟩
    | word =>
      rw [hwidth] at hsize
      simp [fetchWidth]
      exact fun low high => ⟨[low, high], [], .of_code hmode hsize.symm (hdata _), leads_of_none rfl⟩
  · have hmode : mode.placeSize ≠ 0 := by
      rcases of_decide_eq_true hfits with h | h | h
      · exact absurd (.inl h) hconstant
      · exact absurd (.inr h) hconstant
      · exact h
    rw [readOperand_of_place hconstant, ensures_bind]
    refine (ensures_resolve_place mode .read).mono ?_
    rintro log place r' ⟨operand, hleads, -⟩
    refine (ensures_readAt_cells place _).mono ?_
    rintro log' _ _ ⟨bytes, hlength, hbytes, -⟩
    have hsize : (Operation.load group effect).operandSize mode r.listingWidths = mode.placeSize := if_neg hconstant
    have hdata : ∀ operand pointed, place = mode.place r operand pointed →
        (cells .read .data place bytes).map Transfer.addr =
          (Operation.load group effect).dataAddresses mode r operand pointed := by
      rintro operand pointed rfl
      rw [addr_cells, hlength]
      exact (if_neg hconstant).symm
    obtain ⟨operand, pointed, haccesses⟩ := Accesses.of_reaches hmode hsize (hleads.reaches hmode opcode)
      (fun _ => purpose_of_mem_cells) hdata
    refine ⟨operand, pointed, ?_, leads_of_none rfl⟩
    rw [transfers_append, hbytes]
    exact haccesses

theorem operates_store {group : RegisterClass} {source : Registers → UInt16} (hmode : mode.placeSize ≠ 0) :
    Operates (.store group source) mode := by
  intro r opcode
  have hmakes : Makes opcode mode r _ (ofOperation mode (.store group source)) := makes_store hmode group rfl
  refine hmakes.mono ?_
  rintro log _ r' ⟨lead, place, hreaches, hlog⟩
  have hdata : ∀ operand pointed, place = mode.place r operand pointed →
      (cells .write .data place ((r.widthOf group).split (source (r.setPc (r.pc + 1))))).map Transfer.addr =
        (Operation.store group source).dataAddresses mode r operand pointed := by
    rintro operand pointed rfl
    rw [addr_cells, Width.length_split]
    rfl
  obtain ⟨operand, pointed, haccesses⟩ := Accesses.of_reaches hmode rfl hreaches (fun _ => purpose_of_mem_cells) hdata
  refine ⟨operand, pointed, ?_, leads_of_none rfl⟩
  rw [hlog]
  exact haccesses

theorem operates_modify {effect : Registers → UInt16 → UInt16 × Registers}
    (hfits : (Operation.modify effect).fits mode = true) : Operates (.modify effect) mode := by
  intro r opcode
  by_cases haccumulator : mode = .accumulator
  · subst haccumulator
    simp [ofOperation]
    exact ⟨[], [], .of_code rfl rfl rfl, leads_of_none rfl⟩
  · have hmode : mode.placeSize ≠ 0 := (of_decide_eq_true hfits).resolve_left haccumulator
    have hmakes : Makes opcode mode r _ (ofOperation mode (.modify effect)) := makes_modify_place hmode effect
    refine hmakes.mono ?_
    rintro log _ r' ⟨lead, place, before, after, hreaches, hbefore, hafter, hlog⟩
    have hdata : ∀ operand pointed, place = mode.place r operand pointed →
        (cells .read .data place before ++ cells .write .data place after).map Transfer.addr =
          (Operation.modify effect).dataAddresses mode r operand pointed := by
      rintro operand pointed rfl
      rw [List.map_append, addr_cells, addr_cells, hbefore, hafter]
      exact (if_neg haccumulator).symm
    obtain ⟨operand, pointed, haccesses⟩ := Accesses.of_reaches hmode rfl hreaches
      (List.forall_mem_append.2 ⟨fun _ => purpose_of_mem_cells, fun _ => purpose_of_mem_cells⟩) hdata
    refine ⟨operand, pointed, ?_, leads_of_none rfl⟩
    rw [hlog]
    exact haccesses

theorem operates_branch (condition : Registers → Bool) (hmode : mode.indirection = 0) :
    Operates (.branch condition) mode := by
  intro r opcode
  have hnext : r.pc + 1 + 1 = r.pc + 2 := by grind
  simp only [ofOperation, branch, ensures_bind, ensures_get, ensures_fetch, List.nil_append, Registers.setPc_pc,
    Registers.setPc_setPc, hnext]
  intro offset
  cases hcondition : condition (r.setPc (r.pc + 1)) with
  | false =>
    refine ⟨[offset], [], .of_code hmode rfl rfl, ?_⟩
    simp [Operation.destination, hcondition]
  | true =>
    have hleads : ∀ pbr pc, (Operation.branch condition).destination r [offset] [] = some (pbr, pc) →
        r.pbr = pbr ∧ r.pc + 2 + Word.signExtend offset = pc := by
      simp [Operation.destination, hcondition]
    simp only [if_true, ensures_bind, ensures_get, ensures_idle, ensures_ite, ensures_jumpTo]
    split
    · exact ⟨[offset], [], .of_code hmode rfl rfl, hleads⟩
    · exact ⟨[offset], [], .of_code hmode rfl rfl, hleads⟩

theorem operates_push (width : Registers → Width) (source : Registers → UInt16) (hmode : mode.indirection = 0) :
    Operates (.push width source) mode := by
  intro r opcode
  simp only [ofOperation, ensures_bind, ensures_get, ensures_idle, List.nil_append]
  cases width (r.setPc (r.pc + 1)) with
  | byte =>
    simp [pushWidth]
    exact ⟨[], [], .of_stack hmode rfl rfl rfl ⟨[_], .inl rfl⟩ ⟨rfl, rfl, rfl⟩, leads_of_none rfl⟩
  | word =>
    simp [pushWidth]
    exact ⟨[], [], .of_stack hmode rfl rfl rfl ⟨[_, _], .inl rfl⟩ ⟨rfl, rfl, rfl⟩, leads_of_none rfl⟩

theorem operates_pull (width : Registers → Width) (effect : Registers → UInt16 → Registers)
    (hmode : mode.indirection = 0) : Operates (.pull width effect) mode := by
  intro r opcode
  simp only [ofOperation, ensures_bind, ensures_get, ensures_idles, ensures_modify, List.nil_append, List.append_nil]
  cases width (r.setPc (r.pc + 1)) with
  | byte =>
    simp [pullWidth]
    exact fun byte => ⟨[], [], .of_stack hmode rfl rfl rfl ⟨[byte], .inr rfl⟩ ⟨rfl, rfl, rfl⟩, leads_of_none rfl⟩
  | word =>
    simp [pullWidth]
    intro low high
    refine ⟨[], [], .of_stack hmode rfl rfl rfl ⟨[low, high], .inr ?_⟩ ⟨rfl, rfl, rfl⟩, leads_of_none rfl⟩
    simp [pulls, UInt16.add_assoc]

theorem operates_retInterrupt (hmode : mode.indirection = 0) : Operates .retInterrupt mode := by
  intro r opcode
  cases hemulation : r.emulation with
  | false =>
    rw [ensures_retInterrupt_native (r := r.setPc (r.pc + 1)) hemulation]
    intro status low high bank
    refine ⟨[], [], .of_stack hmode rfl rfl rfl ⟨[status, low, high, bank], .inr ?_⟩ ⟨rfl, rfl, rfl⟩, leads_of_none rfl⟩
    simp [pulls, UInt16.add_assoc]
  | true =>
    rw [ensures_retInterrupt_emulated (r := r.setPc (r.pc + 1)) hemulation]
    intro status low high
    refine ⟨[], [], .of_stack hmode rfl rfl rfl ⟨[status, low, high], .inr ?_⟩ ⟨rfl, rfl, rfl⟩, leads_of_none rfl⟩
    simp [pulls, UInt16.add_assoc]

theorem operates_internal (cycles : Nat) (effect : Registers → Registers) (hmode : mode.indirection = 0) :
    Operates (.internal cycles effect) mode := by
  intro r opcode
  simp [ofOperation]
  exact ⟨[], [], .of_code hmode rfl rfl, leads_of_none rfl⟩

theorem operates_maskStatus (effect : UInt8 → UInt8 → UInt8) (hmode : mode.indirection = 0) :
    Operates (.maskStatus effect) mode := by
  intro r opcode
  simp [ofOperation]
  exact fun mask => ⟨[mask], [], .of_code hmode rfl rfl, leads_of_none rfl⟩

theorem operates_skip (hmode : mode.indirection = 0) : Operates .skip mode := by
  intro r opcode
  simp [ofOperation]
  exact fun signature => ⟨[signature], [], .of_code hmode rfl rfl, leads_of_none rfl⟩

theorem operates_rest (state : RunState) (hmode : mode.indirection = 0) : Operates (.rest state) mode := by
  intro r opcode
  simp [ofOperation]
  exact ⟨[], [], .of_code hmode rfl rfl, leads_of_none rfl⟩

theorem operates_branchLong (hmode : mode.indirection = 0) : Operates .branchLong mode := by
  intro r opcode
  have hnext : r.pc + 1 + 1 + 1 = r.pc + 3 := by grind
  simp [ofOperation]
  intro low high
  refine ⟨[low, high], [], .of_code hmode rfl rfl, ?_⟩
  simp [Operation.destination, wordOf, hnext]

theorem operates_jump (hmode : mode.indirection = 0) : Operates .jump mode := by
  intro r opcode
  simp [ofOperation]
  intro low high
  refine ⟨[low, high], [], .of_code hmode rfl rfl, ?_⟩
  simp [Operation.destination, wordOf]

theorem operates_jumpLong (hmode : mode.indirection = 0) : Operates .jumpLong mode := by
  intro r opcode
  simp [ofOperation]
  intro low high bank
  refine ⟨[low, high, bank], [], .of_code hmode rfl rfl, ?_⟩
  simp [Operation.destination, wordOf, Address.bank_ofBank, Address.offset_ofBank]
  exact rfl

theorem operates_pushConstant (hmode : mode.indirection = 0) : Operates .pushConstant mode := by
  intro r opcode
  simp [ofOperation]
  intro low high
  refine ⟨[low, high], [], .of_stack hmode rfl rfl rfl ⟨[_, _], .inl rfl⟩ ⟨rfl, rfl, rfl⟩, leads_of_none rfl⟩

theorem operates_pushRelative (hmode : mode.indirection = 0) : Operates .pushRelative mode := by
  intro r opcode
  simp [ofOperation]
  intro low high
  refine ⟨[low, high], [], .of_stack hmode rfl rfl rfl ⟨[_, _], .inl rfl⟩ ⟨rfl, rfl, rfl⟩, leads_of_none rfl⟩

theorem operates_call (hmode : mode.indirection = 0) : Operates .call mode := by
  intro r opcode
  simp [ofOperation]
  intro low high
  refine ⟨[low, high], [], .of_stack hmode rfl rfl rfl ⟨[_, _], .inl rfl⟩ ⟨rfl, rfl, rfl⟩, ?_⟩
  simp [Operation.destination, wordOf]

theorem operates_callLong (hmode : mode.indirection = 0) : Operates .callLong mode := by
  intro r opcode
  simp [ofOperation]
  intro low high bank
  let next := r.pc + 1 + 1 + 1
  refine ⟨[low, high, bank], [], .of_stack hmode rfl rfl rfl ⟨[r.pbr, Word.high next, Word.low next], .inl ?_⟩
    ⟨rfl, rfl, rfl⟩, ?_⟩
  · simp [pushes, next]
  · simp [Operation.destination, wordOf]
    exact rfl

theorem operates_ret (hmode : mode.indirection = 0) : Operates .ret mode := by
  intro r opcode
  simp [ofOperation]
  intro low high
  refine ⟨[], [], .of_stack hmode rfl rfl rfl ⟨[low, high], .inr ?_⟩ ⟨rfl, rfl, rfl⟩, leads_of_none rfl⟩
  simp [pulls, UInt16.add_assoc]

theorem operates_retLong (hmode : mode.indirection = 0) : Operates .retLong mode := by
  intro r opcode
  simp [ofOperation]
  intro low high bank
  refine ⟨[], [], .of_stack hmode rfl rfl rfl ⟨[low, high, bank], .inr ?_⟩ ⟨rfl, rfl, rfl⟩, leads_of_none rfl⟩
  simp [pulls, UInt16.add_assoc]

theorem operates_pushIndirect : Operates .pushIndirect .directIndirect := by
  intro r opcode
  simp [ofOperation]
  intro offset low high
  let target := Word.ofBytes low high
  refine ⟨[offset], [low, high], ⟨?_, rfl, ?_, rfl, ?_, ⟨[Word.high target, Word.low target], .inl ?_⟩, 0, [], ?_⟩,
    leads_of_none rfl⟩
  · simp [fetches]
  · simp [cells, Mode.pointerPlace, Mode.anchor]
  · simp [addressesFor, Operation.dataAddresses]
  · simp [pushes, target]
  · simp [cells]

theorem operates_jumpIndirect : Operates .jumpIndirect .absoluteIndirect := by
  intro r opcode
  simp [ofOperation]
  intro low high tl th
  refine ⟨[low, high], [tl, th], ⟨rfl, rfl, rfl, rfl, rfl, ⟨[], .inl rfl⟩, 0, [], rfl⟩, ?_⟩
  simp [Operation.destination, wordOf]

theorem operates_jumpIndexed : Operates .jumpIndexed .absoluteXIndirect := by
  intro r opcode
  simp [ofOperation]
  intro low high tl th
  refine ⟨[low, high], [tl, th], ⟨rfl, rfl, rfl, rfl, rfl, ⟨[], .inl rfl⟩, 0, [], rfl⟩, ?_⟩
  simp [Operation.destination, wordOf]

theorem operates_callIndexed : Operates .callIndexed .absoluteXIndirect := by
  intro r opcode
  simp [ofOperation]
  intro low high tl th
  refine ⟨[low, high], [tl, th], ⟨rfl, rfl, rfl, rfl, rfl, ⟨[_, _], .inl rfl⟩, 0, [], rfl⟩, ?_⟩
  simp [Operation.destination, wordOf]

theorem operates_jumpLongIndirect : Operates .jumpLongIndirect .absoluteIndirectLong := by
  intro r opcode
  simp [ofOperation]
  intro low high tl th bank
  refine ⟨[low, high], [tl, th, bank], ⟨rfl, rfl, rfl, rfl, rfl, ⟨[], .inl rfl⟩, 0, [], rfl⟩, ?_⟩
  simp [Operation.destination, wordOf, Address.bank_ofBank, Address.offset_ofBank]
  exact rfl

theorem operates_blockMove (stride : UInt16) : Operates (.blockMove stride) .blockMove := by
  intro r opcode
  simp [ofOperation, blockMove]
  intro target source byte
  refine ⟨[target, source], [], ⟨rfl, rfl, rfl, rfl, ?_, ⟨[], .inl rfl⟩, 0, [], rfl⟩, leads_of_none rfl⟩
  simp [addressesFor, Operation.dataAddresses]
  exact ⟨rfl, rfl⟩

/-- The entry into a handler pushes some bytes and reads the handler's address. -/
theorem ensures_enter_transfers (r : Registers) (status : UInt8) (vector : UInt16) :
    (enter status vector).Ensures r fun log _ _ => ∃ bytes low high,
      transfers log = pushes r bytes ++ cells .read .vector (.bank0 vector) [low, high] := by
  cases hemulation : r.emulation with
  | false =>
    rw [ensures_enter_native hemulation]
    intro low high
    refine ⟨frame r status, low, high, ?_⟩
    simp [frame, hemulation, pushes, cells, sub_sub_word, Place.address, Place.next]
  | true =>
    rw [ensures_enter_emulated hemulation]
    intro low high
    refine ⟨frame r status, low, high, ?_⟩
    simp [frame, hemulation, pushes, cells, sub_sub_word, Place.address, Place.next]

theorem operates_interrupt (source : SoftwareInterrupt) (hmode : mode.indirection = 0) :
    Operates (.interrupt source) mode := by
  intro r opcode
  simp only [ofOperation, enterSoftware, ensures_bind, ensures_get, ensures_fetch, List.nil_append]
  intro signature
  refine (ensures_enter_transfers _ _ _).mono ?_
  rintro log _ r' ⟨bytes, low, high, hlog⟩
  rw [transfers_append, hlog]
  refine ⟨[signature], [], ⟨?_, rfl, ?_, hmode.symm, ?_, ⟨bytes, .inl ?_⟩, source.vector r.emulation, [low, high], ?_⟩,
    leads_of_none rfl⟩
  · simp [fetches]
  · simp [cells]
  · simp [addressesFor, Operation.dataAddresses]
  · simp [pushes_setPc]
  · simp

/-- **Every operation accesses what its mode says** and leads where it has to. -/
theorem operates_ofOperation {operation : Operation} (hfits : operation.fits mode = true) : Operates operation mode := by
  cases operation with
  | load group effect => exact operates_load hfits
  | store group source => exact operates_store (of_decide_eq_true hfits)
  | modify effect => exact operates_modify hfits
  | internal cycles effect => exact operates_internal cycles effect (of_decide_eq_true hfits)
  | maskStatus effect => exact operates_maskStatus effect (of_decide_eq_true hfits)
  | branch condition => exact operates_branch condition (of_decide_eq_true hfits)
  | branchLong => exact operates_branchLong (of_decide_eq_true hfits)
  | push width source => exact operates_push width source (of_decide_eq_true hfits)
  | pull width effect => exact operates_pull width effect (of_decide_eq_true hfits)
  | pushConstant => exact operates_pushConstant (of_decide_eq_true hfits)
  | pushIndirect =>
    obtain rfl := of_decide_eq_true hfits
    exact operates_pushIndirect
  | pushRelative => exact operates_pushRelative (of_decide_eq_true hfits)
  | jump => exact operates_jump (of_decide_eq_true hfits)
  | jumpIndirect =>
    obtain rfl := of_decide_eq_true hfits
    exact operates_jumpIndirect
  | jumpIndexed =>
    obtain rfl := of_decide_eq_true hfits
    exact operates_jumpIndexed
  | jumpLong => exact operates_jumpLong (of_decide_eq_true hfits)
  | jumpLongIndirect =>
    obtain rfl := of_decide_eq_true hfits
    exact operates_jumpLongIndirect
  | call => exact operates_call (of_decide_eq_true hfits)
  | callIndexed =>
    obtain rfl := of_decide_eq_true hfits
    exact operates_callIndexed
  | callLong => exact operates_callLong (of_decide_eq_true hfits)
  | ret => exact operates_ret (of_decide_eq_true hfits)
  | retLong => exact operates_retLong (of_decide_eq_true hfits)
  | retInterrupt => exact operates_retInterrupt (of_decide_eq_true hfits)
  | interrupt source => exact operates_interrupt source (of_decide_eq_true hfits)
  | blockMove stride =>
    obtain rfl := of_decide_eq_true hfits
    exact operates_blockMove stride
  | skip => exact operates_skip (of_decide_eq_true hfits)
  | rest state => exact operates_rest state (of_decide_eq_true hfits)

end Operations

/-! ## Steps -/

/-- What a step accesses, and where it leads if it jumps or branches. Without an instruction it accesses the stack and a
vector at most. -/
structure StepAccesses (r : Registers) (log : List Transfer) (event : StepEvent) (r' : Registers) : Prop where
  executed : ∀ pbr pc opcode, event = .executed pbr pc opcode → ∃ operand pointed,
    Accesses (Instruction.decode opcode).operation (Instruction.decode opcode).mode r opcode operand pointed log ∧
    ∀ pbr pc, (Instruction.decode opcode).operation.destination r operand pointed = some (pbr, pc) →
      r'.pbr = pbr ∧ r'.pc = pc
  idle : (∀ pbr pc opcode, event ≠ .executed pbr pc opcode) → ∃ bytes vector target,
    log = pushes r bytes ++ cells .read .vector (.bank0 vector) target

theorem ensures_activity_accesses (cpu : Cpu) :
    cpu.activity.Ensures fun log result => StepAccesses cpu.regs (transfers log) result.1 result.2.1 := by
  rw [Cpu.ensures_activity]
  split
  · exact ⟨fun _ _ _ hevent => (by cases hevent), fun _ => ⟨[], 0, [], rfl⟩⟩
  · exact ⟨fun _ _ _ hevent => (by cases hevent), fun _ => ⟨[], 0, [], rfl⟩⟩
  · rename_i kind _
    simp only [Microcode.enterHardware, Microcode.ensures_bind, Microcode.ensures_get, Microcode.ensures_idle,
      Microcode.ensures_ite, List.nil_append]
    have henter (status : UInt8) (vector : UInt16) (before : List Cycle) (hbefore : transfers before = []) :
        (Microcode.enter status vector).Ensures cpu.regs fun log _ r' =>
          StepAccesses cpu.regs (transfers (before ++ log)) (.interrupt kind (kind.vector cpu.regs.emulation)) r' := by
      refine (ensures_enter_transfers cpu.regs status vector).mono ?_
      rintro log _ r' ⟨bytes, low, high, hlog⟩
      refine ⟨fun _ _ _ hevent => (by cases hevent), fun _ => ⟨bytes, vector, [low, high], ?_⟩⟩
      rw [transfers_append, hbefore, hlog]
      rfl
    split
    · exact henter _ _ [.idle, .idle] rfl
    · exact henter _ _ [.idle] rfl
  · rw [Cpu.ensures_instruction]
    intro opcode
    refine (operates_ofOperation (Operation.fits_decode opcode) cpu.regs opcode).mono ?_
    intro log _ r' h
    refine ⟨?_, fun hnone => absurd rfl (hnone _ _ _)⟩
    rintro _ _ _ ⟨⟩
    exact h

theorem step_accesses (cpu : Cpu) {μ : Type} [Memory μ] (memory : μ) :
    StepAccesses cpu.regs (cpu.transfers memory) (cpu.step memory).1.event (cpu.step memory).2.1.regs :=
  Cpu.step_of_ensures (ensures_activity_accesses cpu) memory

/-- A place of a mode of the direct page or the stack lies in bank 0. -/
theorem Operation.lt_of_mem_dataAddresses {operation : Operation} {mode : Mode} (hfits : operation.fits mode = true)
    (hmode : mode ∈ [.direct, .directX, .directY, .stackRelative]) {r : Registers} {operand pointer : List UInt8} :
    ∀ addr ∈ operation.dataAddresses mode r operand pointer, addr < 0x10000 := by
  have hplace : ∃ offset, mode.place r operand pointer = .bank0 offset := by
    cases mode with
    | direct | directX | directY | stackRelative => exact ⟨_, rfl⟩
    | _ => simp at hmode
  obtain ⟨offset, hplace⟩ := hplace
  have hdata (count : Nat) : ∀ addr ∈ (mode.place r operand pointer).addresses count, addr < 0x10000 := by
    rw [hplace]
    exact fun _ => lt_of_mem_inBank
  cases operation with
  | load group effect =>
    rw [dataAddresses]
    split
    · nofun
    · exact hdata _
  | store group source => exact hdata _
  | modify effect =>
    rw [dataAddresses]
    split
    · nofun
    · exact List.forall_mem_append.2 ⟨hdata _, hdata _⟩
  | blockMove stride =>
    obtain rfl := of_decide_eq_true hfits
    simp at hmode
  | _ => nofun

/-- The addresses of a step. -/
structure StepAddresses (r : Registers) (log : List Transfer) (event : StepEvent) : Prop where
  /-- Instruction bytes come from the program bank, one after the other. -/
  code : addressesFor .code log = inBank r.pbr r.pc (bytesFor .code log).length
  /-- There are as many operand bytes as the mode has. They lead to the pointer, and both lead to the data. -/
  executed : ∀ pbr pc opcode, event = .executed pbr pc opcode → ∃ operand, bytesFor .code log = opcode :: operand ∧
    operand.length = (Instruction.decode opcode).mode.operandLength r.listingWidths.narrowMemory
      r.listingWidths.narrowIndex ∧
    addressesFor .pointer log =
      ((Instruction.decode opcode).mode.pointerPlace r operand).addresses (Instruction.decode opcode).mode.indirection ∧
    addressesFor .data log = (Instruction.decode opcode).operation.dataAddresses (Instruction.decode opcode).mode r
      operand (bytesFor .pointer log)
  /-- Without an instruction there are no such accesses. -/
  idle : (∀ pbr pc opcode, event ≠ .executed pbr pc opcode) →
    addressesFor .code log = [] ∧ addressesFor .pointer log = [] ∧ addressesFor .data log = []
  /-- Bytes on the stack are pushed down or pulled up from the stack pointer. -/
  stack : ∃ bytes, transfersFor .stack log = pushes r bytes ∨ transfersFor .stack log = pulls r bytes
  vector : ∃ vector count, addressesFor .vector log = inBank 0 vector count

namespace StepAddresses

variable {r : Registers} {log : List Transfer} {event : StepEvent}

theorem of_accesses {r' : Registers} (h : StepAccesses r log event r') : StepAddresses r log event := by
  by_cases hexecuted : ∃ pbr pc opcode, event = .executed pbr pc opcode
  · obtain ⟨pbr, pc, opcode, rfl⟩ := hexecuted
    obtain ⟨operand, pointed, haccesses, -⟩ := h.executed pbr pc opcode rfl
    have hcode : bytesFor .code log = opcode :: operand := by rw [bytesFor, haccesses.code, byte_fetches]
    have hpointed : bytesFor .pointer log = pointed := by rw [bytesFor, haccesses.pointer, byte_cells]
    refine ⟨?_, ?_, fun hnone => absurd rfl (hnone pbr pc opcode), haccesses.stack, ?_⟩
    · rw [hcode, addressesFor, haccesses.code, addr_fetches]
    · rintro _ _ _ ⟨⟩
      refine ⟨operand, hcode, ?_, ?_, ?_⟩
      · rw [haccesses.length, Operation.operandSize_eq]
      · rw [addressesFor, haccesses.pointer, addr_cells, haccesses.indirection]
      · rw [haccesses.data, hpointed]
    · obtain ⟨vector, bytes, hvector⟩ := haccesses.vector
      exact ⟨vector, bytes.length, by rw [addressesFor, hvector, addr_cells]; rfl⟩
  · have hnone (pbr : UInt8) (pc : UInt16) (opcode : UInt8) : event ≠ .executed pbr pc opcode :=
      fun h => hexecuted ⟨pbr, pc, opcode, h⟩
    obtain ⟨bytes, vector, target, rfl⟩ := h.idle hnone
    refine ⟨?_, fun pbr pc opcode h => absurd h (hnone pbr pc opcode), fun _ => ⟨?_, ?_, ?_⟩, ⟨bytes, .inl ?_⟩,
      vector, target.length, ?_⟩
    · simp [addressesFor, bytesFor, inBank]
    · simp [addressesFor]
    · simp [addressesFor]
    · simp [addressesFor]
    · simp
    · simp [addressesFor]
      rfl

/-- Pointers lie in bank 0, but for the one of an indexed jump. -/
theorem pointer_lt (h : StepAddresses r log event) {pbr : UInt8} {pc : UInt16} {opcode : UInt8}
    (hevent : event = .executed pbr pc opcode) (hmode : (Instruction.decode opcode).mode ≠ .absoluteXIndirect) :
    ∀ addr ∈ addressesFor .pointer log, addr < 0x10000 := by
  obtain ⟨operand, -, -, hpointer, -⟩ := h.executed pbr pc opcode hevent
  obtain ⟨offset, hplace⟩ : ∃ offset, (Instruction.decode opcode).mode.pointerPlace r operand = .bank0 offset := by
    cases hdecode : (Instruction.decode opcode).mode with
    | absoluteXIndirect => exact absurd hdecode hmode
    | _ => exact ⟨_, rfl⟩
  rw [hpointer, hplace]
  exact fun _ => lt_of_mem_inBank

/-- Data of the direct page and of the stack lie in bank 0. -/
theorem data_lt (h : StepAddresses r log event) {pbr : UInt8} {pc : UInt16} {opcode : UInt8}
    (hevent : event = .executed pbr pc opcode)
    (hmode : (Instruction.decode opcode).mode ∈ [.direct, .directX, .directY, .stackRelative]) :
    ∀ addr ∈ addressesFor .data log, addr < 0x10000 := by
  obtain ⟨operand, -, -, -, hdata⟩ := h.executed pbr pc opcode hevent
  rw [hdata]
  exact Operation.lt_of_mem_dataAddresses (Operation.fits_decode opcode) hmode

theorem stack_lt (h : StepAddresses r log event) : ∀ addr ∈ addressesFor .stack log, addr < 0x10000 := by
  obtain ⟨bytes, hpushes | hpulls⟩ := h.stack
  · rw [addressesFor, hpushes]
    exact List.forall_mem_map.2 fun _ => lt_of_mem_pushes
  · rw [addressesFor, hpulls]
    exact List.forall_mem_map.2 fun _ => lt_of_mem_pulls

theorem vector_lt (h : StepAddresses r log event) : ∀ addr ∈ addressesFor .vector log, addr < 0x10000 := by
  obtain ⟨vector, count, hvector⟩ := h.vector
  rw [hvector]
  exact fun _ => lt_of_mem_inBank

end StepAddresses

/-- **Every access of a step stays in its bank**: instruction bytes in the program bank; pointers, the stack, vectors and
operands of the direct page and the stack in bank 0. Other data lie at the sum of a base and an index, and go on into the
next bank. -/
theorem step_addresses (cpu : Cpu) {μ : Type} [Memory μ] (memory : μ) :
    let r := cpu.regs
    let log := cpu.transfers memory
    let event := (cpu.step memory).1.event
    StepAddresses r log event ∧
    (∀ pbr pc opcode, event = .executed pbr pc opcode →
      ((Instruction.decode opcode).mode ≠ .absoluteXIndirect →
        ∀ addr ∈ addressesFor .pointer log, addr < 0x10000) ∧
      ((Instruction.decode opcode).mode ∈ [.direct, .directX, .directY, .stackRelative] →
        ∀ addr ∈ addressesFor .data log, addr < 0x10000)) ∧
    (∀ addr ∈ addressesFor .vector log, addr < 0x10000) ∧
    (∀ addr ∈ addressesFor .stack log, addr < 0x10000) ∧
    (r.emulation = false → ∃ count,
      addressesFor .stack log = (List.range count).map (fun i => (r.s - UInt16.ofNat i).toUInt32) ∨
      addressesFor .stack log = inBank 0 (r.s + 1) count) ∧
    (r.WellModed → r.emulation = true → ∀ addr ∈ addressesFor .stack log, 0x0100 ≤ addr ∧ addr ≤ 0x01FF) := by
  intro r log event
  have h : StepAddresses r log event := .of_accesses (step_accesses cpu memory)
  refine ⟨h, fun pbr pc opcode hevent => ⟨h.pointer_lt hevent, h.data_lt hevent⟩, h.vector_lt, h.stack_lt, ?_, ?_⟩
  · intro hnative
    obtain ⟨bytes, hpushes | hpulls⟩ := h.stack
    · exact ⟨bytes.length, .inl (by rw [addressesFor, hpushes, addr_pushes hnative])⟩
    · exact ⟨bytes.length, .inr (by rw [addressesFor, hpulls, addr_pulls hnative])⟩
  · intro hr hemulation addr haddr
    obtain ⟨t, ht, rfl⟩ := List.mem_map.1 haddr
    obtain ⟨hlog, hpurpose⟩ := List.mem_filter.1 ht
    obtain ⟨-, -, hpage⟩ := Cpu.step_of_ensures (ensures_activity_stepRules cpu) memory hr
    exact hpage hemulation t hlog (of_decide_eq_true hpurpose)

/-- On an emulated processor a word is pulled from the last and the first cell of page 1. -/
theorem pulled_word_wraps_in_page :
    let memory : FlatMemory := ⟨fun _ => 0x60⟩
    let cpu : Cpu := { regs := { s := 0x01FE, pc := 0x8000 } }
    cpu.regs.WellModed ∧ (cpu.step memory).1.event = .executed 0 0x8000 0x60 ∧
    addressesFor .stack (cpu.transfers memory) = [0x01FF, 0x0100] ∧
    ∀ offset, addressesFor .stack (cpu.transfers memory) ≠ inBank 0 offset 2 := by
  intro memory cpu
  have haddr : addressesFor .stack (cpu.transfers memory) = [0x01FF, 0x0100] := by decide
  refine ⟨⟨by decide, by decide⟩, by decide, haddr, ?_⟩
  intro offset hoffset
  rw [haddr, inBank_succ, inBank_succ, Address.ofBank_zero, Address.ofBank_zero] at hoffset
  obtain ⟨hfirst, hsecond⟩ := List.cons_eq_cons.1 hoffset
  have hoffset : offset = 0x01FF := UInt16.toUInt32_inj.1 hfirst.symm
  rw [hoffset] at hsecond
  exact absurd hsecond (by decide)

end Emu816
