import Emu816.Proofs.AccessAddresses
import Mathlib.Data.List.Basic

/-!
# Indexed jumps

A jump or call through an indexed pointer finds it in the program bank: the sum of operand and index wraps there. A
pointer at the last offset of the bank has its second byte in the next bank.

- `indexed_jump`: where the pointer lies and where the program goes on.
-/

namespace Emu816

/-- The address behind an offset of a bank lies in the next bank if the offset is the last one. -/
theorem wrap_ofBank_add_one (bank : UInt8) (offset : UInt16) :
    Address.wrap (Address.ofBank bank offset + 1) =
      if offset = 0xFFFF then Address.ofBank (bank + 1) 0 else Address.ofBank bank (offset + 1) := by
  have hbank := bank.toNat_lt
  have hoffset := offset.toNat_lt
  apply UInt32.toNat.inj
  rw [Address.toNat_wrap, UInt32.toNat_add, Address.toNat_ofBank]
  split
  · rename_i hlast
    rw [hlast, Address.toNat_ofBank, UInt8.toNat_add]
    simp only [UInt32.reduceToNat, UInt16.reduceToNat, UInt8.reduceToNat]
    omega
  · rename_i hinside
    have hinside : offset.toNat ≠ 0xFFFF := fun h => hinside (UInt16.toNat.inj h)
    rw [Address.toNat_ofBank, UInt16.toNat_add]
    simp only [UInt32.reduceToNat, UInt16.reduceToNat]
    omega

/-- An operation with an indexed pointer jumps through it. -/
theorem Operation.of_fits_indexed {operation : Operation} (hfits : operation.fits .absoluteXIndirect = true) :
    operation = .jumpIndexed ∨ operation = .callIndexed := by
  cases operation with
  | jumpIndexed => exact .inl rfl
  | callIndexed => exact .inr rfl
  | _ => simp [fits, Mode.indirection, Mode.placeSize] at hfits

variable {μ : Type} [Memory μ]

/-- **An indexed jump or call goes where its pointer says**, and stays in the program bank. The first byte of the pointer
lies there, at the sum of operand and index; the second byte lies behind it, in the next bank if the first one is the
last of its bank. -/
theorem indexed_jump (cpu : Cpu) (memory : μ) {pbr : UInt8} {pc : UInt16} {opcode : UInt8}
    (hevent : (cpu.step memory).1.event = .executed pbr pc opcode)
    (hmode : (Instruction.decode opcode).mode = .absoluteXIndirect) :
    ∃ low high first second,
      let offset := Word.ofBytes low high + cpu.regs.x
      transfersFor .code (cpu.transfers memory) = fetches cpu.regs [opcode, low, high] ∧
      transfersFor .pointer (cpu.transfers memory) =
        [⟨.read, .pointer, Address.ofBank cpu.regs.pbr offset, first⟩,
          ⟨.read, .pointer, if offset = 0xFFFF then Address.ofBank (cpu.regs.pbr + 1) 0
            else Address.ofBank cpu.regs.pbr (offset + 1), second⟩] ∧
      (cpu.step memory).2.1.regs.pc = Word.ofBytes first second ∧
      (cpu.step memory).2.1.regs.pbr = cpu.regs.pbr := by
  obtain ⟨operand, pointed, haccesses, hleads⟩ := (step_accesses cpu memory).executed pbr pc opcode hevent
  have hfits := Operation.fits_decode opcode
  rw [hmode] at haccesses hfits
  have hsize : (Instruction.decode opcode).operation.operandSize .absoluteXIndirect cpu.regs.listingWidths = 2 := by
    rcases Operation.of_fits_indexed hfits with h | h <;> rw [h] <;> rfl
  have hdestination : (Instruction.decode opcode).operation.destination cpu.regs operand pointed =
      some (cpu.regs.pbr, wordOf pointed) := by
    rcases Operation.of_fits_indexed hfits with h | h <;> rw [h] <;> rfl
  obtain ⟨low, high, rfl⟩ := List.length_eq_two.1 (haccesses.length.trans hsize)
  obtain ⟨first, second, rfl⟩ := List.length_eq_two.1 haccesses.indirection
  obtain ⟨hpbr, hpc⟩ := hleads _ _ hdestination
  refine ⟨low, high, first, second, haccesses.code, ?_, hpc, hpbr⟩
  rw [haccesses.pointer, ← wrap_ofBank_add_one]
  simp [cells, Mode.pointerPlace, Place.address, Place.next, wordOf]

/-- The pointer of a jump in bank 1 begins at the last byte of the bank. -/
theorem indexed_jump_at_end :
    let memory : FlatMemory := ⟨fun _ => 0x7C⟩
    let cpu : Cpu := { regs := { x := 0x8383, pbr := 1, pc := 0x8000, p := 0, emulation := false } }
    (cpu.step memory).1.event = .executed 1 0x8000 0x7C ∧
    (Instruction.decode 0x7C).mode = .absoluteXIndirect ∧
    ∃ low high first second,
      let offset := Word.ofBytes low high + cpu.regs.x
      transfersFor .code (cpu.transfers memory) = fetches cpu.regs [0x7C, low, high] ∧
      transfersFor .pointer (cpu.transfers memory) =
        [⟨.read, .pointer, Address.ofBank cpu.regs.pbr offset, first⟩,
          ⟨.read, .pointer, if offset = 0xFFFF then Address.ofBank (cpu.regs.pbr + 1) 0
            else Address.ofBank cpu.regs.pbr (offset + 1), second⟩] ∧
      (cpu.step memory).2.1.regs.pc = Word.ofBytes first second ∧
      (cpu.step memory).2.1.regs.pbr = cpu.regs.pbr := by
  intro memory cpu
  have hevent : (cpu.step memory).1.event = .executed 1 0x8000 0x7C := by decide
  have hmode : (Instruction.decode 0x7C).mode = .absoluteXIndirect := by decide
  exact ⟨hevent, hmode, indexed_jump cpu memory hevent hmode⟩

/-- The second byte of such a pointer is the first one of bank 2, and not the first one of bank 1. -/
theorem indexed_jump_leaves_bank :
    let memory : FlatMemory := ⟨fun addr => if addr = 0x020000 then 0x12 else 0x7C⟩
    let cpu : Cpu := { regs := { x := 0x8383, pbr := 1, pc := 0x8000, p := 0, emulation := false } }
    (cpu.step memory).1.event = .executed 1 0x8000 0x7C ∧
    bytesFor .code (cpu.transfers memory) = [0x7C, 0x7C, 0x7C] ∧
    addressesFor .pointer (cpu.transfers memory) = [0x01FFFF, 0x020000] ∧
    0x020000 ≠ Address.ofBank 1 (0x7C7C + 0x8383 + 1) ∧
    (cpu.step memory).2.1.regs.pc = 0x127C ∧
    0x127C ≠ Word.ofBytes (memory.bytes (Address.ofBank 1 (0x7C7C + 0x8383)))
      (memory.bytes (Address.ofBank 1 (0x7C7C + 0x8383 + 1))) := by
  decide

end Emu816
