import Emu816.Proofs.Ram
import Emu816.Proofs.Words

/-!
# The stack

Pushes move the stack pointer down and pulls move it up again, within 16 bits, or within page 1 in emulation mode. On
RAM the pulls find what the pushes left, the last byte first, as long as the stack does not wrap around onto itself.

- `pushes`, `pulls`: the transfers of bytes that are pushed or pulled in order.
- `OnStack`: bytes on top of the stack, and what a push (`OnStack.push`) and a pull (`OnStack.pull`) make of it.
- `OnStack.stored`, `OnStack.pushes`, `OnStack.pulls`: the same for any number of bytes.
- `Registers.behindPushes`: the registers behind code that pushed some bytes.
-/

namespace Emu816

/-! ## Cells -/

/-- Number of the cells that the stack pointer goes round. -/
def stackSize (r : Registers) : Nat := if r.emulation then 0x100 else 0x10000

@[simp] theorem stackSize_setS (r : Registers) (value : UInt16) : stackSize (r.setS value) = stackSize r := rfl

/-- The pointer does not come back to where it is before it went through all cells. -/
theorem setS_ne {r : Registers} (hr : r.setS r.s = r) {depth : Nat} (hpos : 0 < depth) (hdepth : depth < stackSize r) :
    (r.setS (r.s + UInt16.ofNat depth)).s ≠ r.s := by
  intro hback
  rw [← UInt16.toNat_inj] at hback
  have hs := r.s.toNat_lt
  cases hmode : r.emulation with
  | false =>
    simp only [stackSize, hmode, Bool.false_eq_true, if_false] at hdepth
    simp only [Registers.setS, hmode, Bool.false_eq_true, if_false, UInt16.toNat_add, UInt16.toNat_ofNat'] at hback
    omega
  | true =>
    have hpage : r.s.toNat = 0x100 + r.s.toNat % 0x100 := by
      have hsettled := congrArg (fun r => r.s.toNat) hr
      simp only [Registers.setS, hmode, if_true, toNat_stackPage] at hsettled
      omega
    simp only [stackSize, hmode, if_true] at hdepth
    simp only [Registers.setS, hmode, if_true, toNat_stackPage, UInt16.toNat_add, UInt16.toNat_ofNat'] at hback
    omega

/-! ## Bytes on the stack -/

/-- The bytes lie on top of the stack, the one to be pulled next first. -/
def OnStack (contents : UInt32 → Option UInt8) (r : Registers) (bytes : List UInt8) : Prop :=
  ∀ depth (h : depth < bytes.length), contents (r.setS (r.s + UInt16.ofNat (depth + 1))).s.toUInt32 = some bytes[depth]

variable {contents : UInt32 → Option UInt8} {r : Registers} {bytes : List UInt8}

theorem onStack_nil (contents : UInt32 → Option UInt8) (r : Registers) : OnStack contents r [] := nofun

/-- Only the stack pointer and the mode tell where the bytes lie. -/
theorem OnStack.congr {r' : Registers} (h : OnStack contents r bytes) (hs : r'.s = r.s)
    (hmode : r'.emulation = r.emulation) : OnStack contents r' bytes := by
  intro depth hdepth
  have hcell : (r'.setS (r'.s + UInt16.ofNat (depth + 1))).s = (r.setS (r.s + UInt16.ofNat (depth + 1))).s := by
    simp only [Registers.setS, hs, hmode]
  rw [hcell]
  exact h depth hdepth

/-- A push puts its byte on top, and keeps the others unless they fill the stack. -/
theorem OnStack.push (h : OnStack contents r bytes) (hr : r.setS r.s = r) (hroom : bytes.length < stackSize r)
    (byte : UInt8) :
    OnStack (fun cell => if cell = r.s.toUInt32 then some byte else contents cell) (r.setS (r.s - 1))
      (byte :: bytes) := by
  intro depth hdepth
  -- seen from the moved pointer, every cell is one deeper
  have hcell : (r.setS (r.s - 1)).setS ((r.setS (r.s - 1)).s + UInt16.ofNat (depth + 1)) =
      r.setS (r.s + UInt16.ofNat depth) := by
    rw [Registers.setS_setS, Registers.setS_add, UInt16.ofNat_add]
    congr 1
    grind
  rw [hcell]
  cases depth with
  | zero => simp [hr]
  | succ depth =>
    have hbelow : depth < bytes.length := Nat.lt_of_succ_lt_succ hdepth
    have hne := setS_ne hr (Nat.succ_pos depth) (Nat.lt_of_le_of_lt hbelow hroom)
    have hcell : (r.setS (r.s + UInt16.ofNat (depth + 1))).s.toUInt32 ≠ r.s.toUInt32 := by
      rwa [Ne, UInt16.toUInt32_inj]
    exact (if_neg hcell).trans (h depth hbelow)

/-- A pull finds the byte on top and leaves the others. -/
theorem OnStack.pull {top byte : UInt8} (h : OnStack contents r (top :: bytes))
    (hread : ∀ kept, contents (r.setS (r.s + 1)).s.toUInt32 = some kept → byte = kept) :
    byte = top ∧ OnStack contents (r.setS (r.s + 1)) bytes := by
  refine ⟨hread top (h 0 (Nat.succ_pos _)), ?_⟩
  intro depth hdepth
  have hcell : (r.setS (r.s + 1)).setS ((r.setS (r.s + 1)).s + UInt16.ofNat (depth + 1)) =
      r.setS (r.s + UInt16.ofNat (depth + 1 + 1)) := by
    rw [Registers.setS_setS, Registers.setS_add, UInt16.ofNat_add (depth + 1)]
    congr 1
    grind
  rw [hcell]
  exact h (depth + 1) (Nat.succ_lt_succ hdepth)

/-! ## Many bytes -/

/-- The transfers of pushes. -/
def pushes : Registers → List UInt8 → List Transfer
  | _, [] => []
  | r, byte :: bytes => ⟨.write, .stack, r.s.toUInt32, byte⟩ :: pushes (r.setS (r.s - 1)) bytes

/-- The transfers of pulls. -/
def pulls : Registers → List UInt8 → List Transfer
  | _, [] => []
  | r, byte :: bytes => ⟨.read, .stack, (r.setS (r.s + 1)).s.toUInt32, byte⟩ :: pulls (r.setS (r.s + 1)) bytes

theorem mem_pushes {t : Transfer} {r : Registers} {bytes : List UInt8} (h : t ∈ pushes r bytes) :
    t.direction = .write ∧ t.purpose = .stack := by
  induction bytes generalizing r with
  | nil => cases h
  | cons byte bytes ih =>
    rcases List.mem_cons.1 h with rfl | h
    · exact ⟨rfl, rfl⟩
    · exact ih h

theorem mem_pulls {t : Transfer} {r : Registers} {bytes : List UInt8} (h : t ∈ pulls r bytes) :
    t.direction = .read ∧ t.purpose = .stack := by
  induction bytes generalizing r with
  | nil => cases h
  | cons byte bytes ih =>
    rcases List.mem_cons.1 h with rfl | h
    · exact ⟨rfl, rfl⟩
    · exact ih h

theorem pushes_setPc (r : Registers) (pc : UInt16) (bytes : List UInt8) :
    pushes (r.setPc pc) bytes = pushes r bytes := by
  induction bytes generalizing r with
  | nil => rfl
  | cons byte bytes ih =>
    rw [pushes, pushes, ← ih (r.setS (r.s - 1))]
    rfl

/-- The registers behind code of some length that pushed some bytes. -/
def Registers.behindPushes (r : Registers) (depth length : Nat) : Registers :=
  (r.setS (r.s - UInt16.ofNat depth)).setPc (r.pc + UInt16.ofNat length)

theorem Registers.behindPushes_zero {r : Registers} (hr : r.setS r.s = r) : r.behindPushes 0 0 = r := by
  simp [behindPushes, hr, setPc]

theorem Registers.behindPushes_add (r : Registers) (depth length depth' length' : Nat) :
    (r.behindPushes depth length).behindPushes depth' length' = r.behindPushes (depth + depth') (length + length') := by
  simp [behindPushes, UInt16.ofNat_add, UInt16.add_assoc, sub_sub_word]

theorem Registers.setS_behindPushes (r : Registers) (depth length : Nat) :
    (r.behindPushes depth length).setS (r.behindPushes depth length).s = r.behindPushes depth length := by
  simp [behindPushes]

/-- Pushes go on where the ones before them ended. -/
theorem pushes_append {r : Registers} (hr : r.setS r.s = r) (first second : List UInt8) (length : Nat) :
    pushes r (first ++ second) = pushes r first ++ pushes (r.behindPushes first.length length) second := by
  rw [Registers.behindPushes, pushes_setPc]
  induction first generalizing r with
  | nil => simp [pushes, hr]
  | cons byte first ih =>
    rw [List.cons_append, pushes, pushes, List.cons_append, ih (by simp), Registers.setS_setS, Registers.setS_sub,
      List.length_cons, UInt16.ofNat_add, UInt16.add_comm, ← sub_sub_word]
    rfl

/-- Pushes put their bytes on top, the last one uppermost. -/
theorem OnStack.stored (h : OnStack contents r bytes) (hr : r.setS r.s = r) (pushed : List UInt8)
    (hroom : bytes.length + pushed.length ≤ stackSize r) :
    OnStack (Emu816.stored contents (Emu816.pushes r pushed)) (r.setS (r.s - UInt16.ofNat pushed.length))
      (pushed.reverse ++ bytes) := by
  induction pushed generalizing contents r bytes with
  | nil => simpa [hr, Emu816.pushes, Emu816.stored] using h
  | cons byte pushed ih =>
    rw [List.length_cons] at hroom
    have hpush := h.push hr (by omega) byte
    have hroom' : (byte :: bytes).length + pushed.length ≤ stackSize (r.setS (r.s - 1)) := by
      rw [List.length_cons, stackSize_setS]
      omega
    have hstack := ih hpush (by simp) hroom'
    have hpointer : (r.setS (r.s - 1)).setS ((r.setS (r.s - 1)).s - UInt16.ofNat pushed.length) =
        r.setS (r.s - UInt16.ofNat (byte :: pushed).length) := by
      rw [Registers.setS_setS, Registers.setS_sub, List.length_cons, UInt16.ofNat_add]
      congr 1
      grind
    rw [hpointer] at hstack
    simpa [Emu816.pushes, Emu816.stored] using hstack

/-- What comes after pushes finds their bytes on top. -/
theorem OnStack.pushes (h : OnStack contents r bytes) (hr : r.setS r.s = r) (pushed : List UInt8)
    (hroom : bytes.length + pushed.length ≤ stackSize r) {rest : List Transfer}
    (hlog : Coherent contents (Emu816.pushes r pushed ++ rest)) :
    ∃ contents', Coherent contents' rest ∧
      OnStack contents' (r.setS (r.s - UInt16.ofNat pushed.length)) (pushed.reverse ++ bytes) :=
  ⟨_, hlog.append_right, h.stored hr pushed hroom⟩

theorem OnStack.left {contents : UInt32 → Option UInt8} {r : Registers} {first second : List UInt8}
    (h : OnStack contents r (first ++ second)) : OnStack contents r first := by
  intro depth hdepth
  have hcell := h depth (by rw [List.length_append]; omega)
  rwa [List.getElem_append_left hdepth] at hcell

theorem OnStack.right {contents : UInt32 → Option UInt8} {r : Registers} {first second : List UInt8}
    (h : OnStack contents r (first ++ second)) :
    OnStack contents (r.setS (r.s + UInt16.ofNat first.length)) second := by
  intro depth hdepth
  have hbelow : (r.setS (r.s + UInt16.ofNat first.length)).setS
      ((r.setS (r.s + UInt16.ofNat first.length)).s + UInt16.ofNat (depth + 1)) =
        r.setS (r.s + UInt16.ofNat (first.length + depth + 1)) := by
    rw [Registers.setS_setS, Registers.setS_add, Nat.add_assoc, UInt16.ofNat_add first.length, UInt16.add_assoc]
  have hcell := h (first.length + depth) (by rw [List.length_append]; omega)
  rw [hbelow, hcell, List.getElem_append_right (Nat.le_add_right _ _)]
  simp

/-- Pulls of as many bytes as there are find them from the top on. -/
theorem OnStack.pulls (pulled : List UInt8) (h : OnStack contents r bytes) (hlength : pulled.length = bytes.length)
    {rest : List Transfer} (hlog : Coherent contents (Emu816.pulls r pulled ++ rest)) : pulled = bytes := by
  induction pulled generalizing r bytes with
  | nil => exact (List.eq_nil_of_length_eq_zero hlength.symm).symm
  | cons byte pulled ih =>
    obtain ⟨top, bytes, rfl⟩ := List.exists_cons_of_length_eq_add_one hlength.symm
    obtain ⟨rfl, hbelow⟩ := h.pull hlog.1
    rw [ih hbelow (Nat.succ.inj hlength) hlog.2]

end Emu816
