import Emu816.Proofs.RegisterSets
import Emu816.Proofs.WriteSets

/-!
# Registers on the stack

Six registers have an instruction that pushes them and one that pulls them, at the width of the register. What a push
writes does not depend on the stack pointer and the program counter, and a register that takes back its own value stays
as it is, but for the result bits.

- `Saved`: such a register, with its two instructions, its width and its value; `Saved.bytes`, `Saved.pushed`: its
  bytes.
- `Saved.ensures_push`, `Saved.ensures_pull`: what the two instructions do.
- `Saved.scope`: what may differ between a push and its pull; `Saved.changes_restore`, `Saved.changes_pull`: a register
  takes back its value.
-/

namespace Emu816

/-! ## Bytes and words -/

theorem low_and_mask (byte : UInt8) : Word.low (byte.toUInt16 &&& Width.byte.mask) = byte :=
  forall_byte (P := fun byte => Word.low (byte.toUInt16 &&& Width.byte.mask) = byte) (by decide +kernel) byte

/-- The high byte of the accumulator stays when the low one is written. -/
theorem Registers.setAccumulator_self (r : Registers) :
    r.setAccumulator (r.accumulator &&& r.accumulatorWidth.mask) = r := by
  rw [setAccumulator, accumulator]
  cases r.accumulatorWidth with
  | byte =>
    have hlow : r.a &&& 0x00FF &&& 0x00FF &&& 0x00FF = r.a &&& 0x00FF := by
      simp only [UInt16.and_assoc, UInt16.and_self]
    simp only [Width.mask, hlow, high_or_low]
  | word => simp only [Width.and_word_mask]

/-! ## Registers that can be saved -/

/-- A register that can be saved on the stack. -/
inductive Saved where
  | a | x | y | p | dbr | d
  deriving DecidableEq

namespace Saved

/-- The instruction that pushes the register. -/
def pushMnemonic : Saved → Mnemonic
  | a => .pha
  | x => .phx
  | y => .phy
  | p => .php
  | dbr => .phb
  | d => .phd

/-- The instruction that pulls it. -/
def pullMnemonic : Saved → Mnemonic
  | a => .pla
  | x => .plx
  | y => .ply
  | p => .plp
  | dbr => .plb
  | d => .pld

/-- The opcode of the instruction that pushes the register. -/
def pushOpcode : Saved → UInt8
  | a => 0x48
  | x => 0xDA
  | y => 0x5A
  | p => 0x08
  | dbr => 0x8B
  | d => 0x0B

/-- The opcode of the instruction that pulls it. -/
def pullOpcode : Saved → UInt8
  | a => 0x68
  | x => 0xFA
  | y => 0x7A
  | p => 0x28
  | dbr => 0xAB
  | d => 0x2B

theorem decode_pushOpcode (saved : Saved) : Instruction.decode saved.pushOpcode = ⟨saved.pushMnemonic, .implied⟩ := by
  cases saved <;> decide

theorem decode_pullOpcode (saved : Saved) : Instruction.decode saved.pullOpcode = ⟨saved.pullMnemonic, .implied⟩ := by
  cases saved <;> decide

/-- Width of the register. -/
def width : Saved → Registers → Width
  | a, r => r.accumulatorWidth
  | x, r | y, r => r.indexWidth
  | p, _ | dbr, _ => .byte
  | d, _ => .word

/-- What is pushed of it. -/
def value : Saved → Registers → UInt16
  | a, r => r.accumulator
  | x, r => r.x
  | y, r => r.y
  | p, r => r.p.toUInt16
  | dbr, r => r.dbr.toUInt16
  | d, r => r.d

/-- What pulling a value makes of the registers. -/
def restore : Saved → Registers → UInt16 → Registers
  | a => Registers.loadAccumulator
  | x => Registers.loadX
  | y => Registers.loadY
  | p => fun r value => r.restoreP (Word.low value)
  | dbr => fun r value => r.loadDbr (Word.low value)
  | d => Registers.loadD

theorem operation_push (saved : Saved) (mode : Mode) :
    Instruction.operation ⟨saved.pushMnemonic, mode⟩ = .push saved.width saved.value := by
  cases saved <;> rfl

theorem operation_pull (saved : Saved) (mode : Mode) :
    Instruction.operation ⟨saved.pullMnemonic, mode⟩ = .pull saved.width saved.restore := by
  cases saved <;> rfl

/-- The bytes of the register, as they lie on the stack. -/
def bytes (saved : Saved) (r : Registers) : List UInt8 := (saved.width r).split (saved.value r)

/-- The bytes as they are pushed, the high one first. -/
def pushed (saved : Saved) (r : Registers) : List UInt8 := (saved.bytes r).reverse

theorem length_bytes (saved : Saved) (r : Registers) : (saved.bytes r).length = (saved.width r).bytes := by
  rw [bytes, Width.length_split]

/-- What is pushed does not depend on the stack pointer and the program counter. -/
theorem pushed_behindPushes (saved : Saved) (r : Registers) (depth length : Nat) :
    saved.pushed (r.behindPushes depth length) = saved.pushed r := by
  cases saved <;> rfl

theorem restore_pc (saved : Saved) (r : Registers) (value : UInt16) : (saved.restore r value).pc = r.pc := by
  cases saved with
  | a => exact (Registers.inLine_tolerant.loadAccumulator r value).pc
  | x => exact (Registers.inLine_tolerant.loadX r value).pc
  | y => exact (Registers.inLine_tolerant.loadY r value).pc
  | p => exact Registers.setP_pc r _
  | dbr => exact (Registers.inLine_tolerant.loadDbr r _).pc
  | d => exact (Registers.inLine_tolerant.loadD r value).pc

/-- A register that takes back what was pushed of it just now changes the result bits only. The status takes back those
from before the push, and goes on its own. -/
theorem changes_restore_self (saved : Saved) {r : Registers} (hr : r.WellModed) (hsaved : saved ≠ .p) :
    Changes { status := Status.result } r (saved.restore r (saved.value r &&& (saved.width r).mask)) := by
  have hresult (value : UInt16) (width : Width) : Changes { status := Status.result } r (r.setResult value width) :=
    (Changes.refl _ r).result (by decide) value width
  obtain ⟨hx, hy⟩ := hr.and_mask
  cases saved with
  | a =>
    rw [restore, value, width, Registers.loadAccumulator, Registers.setAccumulator_self]
    exact hresult _ _
  | x =>
    rw [restore, value, width, hx, Registers.loadX, Registers.setX, hx]
    exact hresult _ _
  | y =>
    rw [restore, value, width, hy, Registers.loadY, Registers.setY, hy]
    exact hresult _ _
  | p => contradiction
  | dbr =>
    simp only [restore, value, width, low_and_mask]
    exact hresult _ _
  | d =>
    rw [restore, value, width, Width.and_word_mask]
    exact hresult _ _

/-! ## Between a push and its pull -/

/-- Registers that were saved, until they are restored: the stack pointer moves, and the result bits change. -/
def scope : Scope := { status := Status.result, registers := [.s] }

section Scope

variable {r r₀ : Registers}

theorem changes_of_result (h : Changes { status := Status.result } r₀ r) : Changes scope r₀ r := by
  intro hr₀
  obtain ⟨hr, hcovers⟩ := h hr₀
  exact ⟨hr, hcovers.status, fun register _ => hcovers.registers register List.not_mem_nil⟩

/-- Other status bits are the same. -/
theorem status_and (h : scope.Covers r₀ r) {mask : UInt8} (hmask : mask &&& ~~~Status.result = mask) :
    r.p &&& mask = r₀.p &&& mask := by
  have hstatus : r.p &&& ~~~Status.result = r₀.p &&& ~~~Status.result := h.status
  rw [← hmask, UInt8.and_comm mask, ← UInt8.and_assoc, ← UInt8.and_assoc, hstatus]

theorem accumulatorWidth_eq (h : scope.Covers r₀ r) : r.accumulatorWidth = r₀.accumulatorWidth := by
  rw [Registers.accumulatorWidth, status_and h (by decide)]
  rfl

theorem indexWidth_eq (h : scope.Covers r₀ r) : r.indexWidth = r₀.indexWidth := by
  rw [Registers.indexWidth, status_and h (by decide)]
  rfl

theorem width_eq (saved : Saved) (h : scope.Covers r₀ r) : saved.width r = saved.width r₀ := by
  cases saved with
  | a => exact accumulatorWidth_eq h
  | x | y => exact indexWidth_eq h
  | p | dbr | d => rfl

/-- Only the stack pointer, the result bits and the program counter may differ. -/
theorem eq_of_covers (h : scope.Covers r₀ r) : r = { r₀ with s := r.s, p := r.p, pc := r.pc } := by
  have ha : r.a = r₀.a := UInt16.toNat_inj.1 (h.registers .a (by decide))
  have hx : r.x = r₀.x := UInt16.toNat_inj.1 (h.registers .x (by decide))
  have hy : r.y = r₀.y := UInt16.toNat_inj.1 (h.registers .y (by decide))
  have hd : r.d = r₀.d := UInt16.toNat_inj.1 (h.registers .d (by decide))
  have hdbr : r.dbr = r₀.dbr := UInt8.toNat_inj.1 (h.registers .dbr (by decide))
  rw [← ha, ← hx, ← hy, ← hd, ← h.pbr (by decide), ← hdbr, ← h.emulation (by decide)]

theorem value_eq (saved : Saved) (h : scope.Covers r₀ r) (hsaved : saved ≠ .p) : saved.value r = saved.value r₀ := by
  cases saved with
  | a =>
    have ha : r.a = r₀.a := by rw [eq_of_covers h]
    rw [value, value, Registers.accumulator, Registers.accumulator, accumulatorWidth_eq h, ha]
  | p => contradiction
  | x | y | dbr | d =>
    rw [eq_of_covers h]
    rfl

/-- A register that takes back its own value stays as it is, but for the result bits. -/
theorem changes_restore (saved : Saved) (hr₀ : r₀.WellModed) (h : Changes scope r₀ r) :
    Changes { status := Status.result } r (saved.restore r (saved.value r₀ &&& (saved.width r₀).mask)) := by
  obtain ⟨hr, hcovers⟩ := h hr₀
  by_cases hsaved : saved = .p
  · -- the result bits of the status are those from before the push
    subst hsaved
    have hsplit : (r₀.p &&& ~~~Status.widths) ||| (r₀.p &&& Status.widths) = r₀.p :=
      forall_byte (P := fun p => (p &&& ~~~Status.widths) ||| (p &&& Status.widths) = p) (by decide +kernel) r₀.p
    have hrestored : r.restoreP r₀.p = r.setP r₀.p := by
      rw [Registers.restoreP, status_and hcovers (by decide), hsplit, ite_self]
    simp only [restore, value, width, low_and_mask, hrestored]
    refine Changes.setP_of_keeps hcovers.status.symm fun hnarrow => ?_
    rwa [status_and hcovers (by decide)]
  · rw [← saved.value_eq hcovers hsaved, ← saved.width_eq hcovers]
    exact saved.changes_restore_self hr hsaved

/-- The registers after a pull that takes back what was pushed of a register. -/
theorem changes_pull (saved : Saved) (hr₀ : r₀.WellModed) (h : Changes scope r₀ r) (s pc : UInt16) :
    let after := saved.restore ((r.setS s).setPc pc) ((saved.width r₀).join (saved.bytes r₀))
    Changes scope r₀ after ∧ after.s = (r.setS s).s ∧ after.pc = pc := by
  intro after
  have hpopped : Changes scope r₀ ((r.setS s).setPc pc) :=
    (h.trans (Changes.setS (by decide) r s)).trans (Changes.setPc _ _ _)
  have hrestored : Changes { status := Status.result } ((r.setS s).setPc pc) after := by
    have hafter := saved.changes_restore hr₀ hpopped
    rwa [← Width.join_split] at hafter
  obtain ⟨-, hcovers⟩ := hrestored (hpopped hr₀).1
  refine ⟨hpopped.trans (changes_of_result hrestored), ?_, saved.restore_pc _ _⟩
  exact UInt16.toNat_inj.1 (hcovers.registers .s (by decide))

end Scope

/-! ## The instructions -/

open Microcode

theorem width_setPc (saved : Saved) (r : Registers) (pc : UInt16) : saved.width (r.setPc pc) = saved.width r := by
  cases saved <;> rfl

theorem value_setPc (saved : Saved) (r : Registers) (pc : UInt16) : saved.value (r.setPc pc) = saved.value r := by
  cases saved <;> rfl

/-- A push writes the bytes of the register. -/
theorem ensures_push (saved : Saved) (mode : Mode) (r : Registers) :
    (ofOperation mode (.push saved.width saved.value)).Ensures (r.setPc (r.pc + 1)) fun log _ r' =>
      transfers log = pushes r (saved.pushed r) ∧ r' = r.behindPushes (saved.pushed r).length 1 := by
  simp only [ofOperation, ensures_bind, ensures_get, ensures_idle, List.nil_append, width_setPc, value_setPc, pushed,
    bytes]
  cases saved.width r with
  | byte => simp [pushWidth, Width.split, pushes, Registers.behindPushes]
  | word => simp [pushWidth, Width.split, pushes, Registers.behindPushes]

/-- A pull reads as many bytes, and restores the register from them. -/
theorem ensures_pull (saved : Saved) (mode : Mode) (r : Registers) :
    (ofOperation mode (.pull saved.width saved.restore)).Ensures (r.setPc (r.pc + 1)) fun log _ r' =>
      ∃ pulled, pulled.length = (saved.width r).bytes ∧ transfers log = pulls r pulled ∧
        r' = saved.restore ((r.setS (r.s + UInt16.ofNat pulled.length)).setPc (r.pc + 1))
          ((saved.width r).join pulled) := by
  simp only [ofOperation, ensures_bind, ensures_get, ensures_idles, ensures_modify, List.nil_append, List.append_nil,
    width_setPc]
  cases saved.width r with
  | byte =>
    simp [pullWidth]
    exact fun byte => ⟨[byte], rfl, rfl, rfl⟩
  | word =>
    simp [pullWidth]
    intro low high
    exact ⟨[low, high], rfl, by simp [pulls, UInt16.add_assoc], rfl⟩

end Saved

end Emu816
