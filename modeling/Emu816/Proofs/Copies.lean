import Emu816.Proofs.Cells

/-!
# Copies over the bus

A copy reads and writes one byte after the other, so what it leaves depends on how its addresses share cells.

- `Address.ahead`: addresses further on, wrapping at the end of the bus.
- `CopiesForward`, `peek_copy`: a copy that overwrites no byte before it is read moves the bytes as they were.
- `BusCall.copying_add`: a copy is the copy of a first part and then that of the rest, access by access.
- `copy_exact`: both.
-/

namespace Emu816

/-! ## Addresses further on -/

namespace Address

/-- The address `count` places further on the bus. -/
def ahead (addr : UInt32) (count : Nat) : UInt32 := wrap (addr + UInt32.ofNat count)

@[simp] theorem ahead_zero (addr : UInt32) : ahead addr 0 = wrap addr := by
  rw [ahead]
  exact congrArg wrap (UInt32.add_zero addr)

theorem ahead_succ (addr : UInt32) (count : Nat) : ahead addr (count + 1) = ahead (addr + 1) count := by
  rw [ahead, ahead, UInt32.ofNat_add, UInt32.add_comm (UInt32.ofNat count), ← UInt32.add_assoc]
  rfl

theorem wrap_add_one {addr addr' : UInt32} (h : wrap addr = wrap addr') : wrap (addr + 1) = wrap (addr' + 1) := by
  have hsame := congrArg UInt32.toNat h
  rw [toNat_wrap, toNat_wrap] at hsame
  apply UInt32.toNat.inj
  rw [toNat_wrap, toNat_wrap, UInt32.toNat_add, UInt32.toNat_add]
  simp only [UInt32.reduceToNat]
  omega

end Address

open Address (ahead ahead_zero ahead_succ)

/-! ## Bytes that are read before they are overwritten -/

/-- The bytes of a copy are read from plain addresses and written to cells, each to one of its own and none to one that
is read later. -/
structure CopiesForward (scheme : Scheme) (source target : UInt32) (count : Nat) : Prop where
  plain : ∀ i < count, (scheme.locate (ahead source i)).isIo = false
  hasCell : ∀ i < count, (scheme.cell? (ahead target i)).isSome = true
  distinct : ∀ i < count, ∀ j < i, scheme.sharesCell (ahead target j) (ahead target i) = false
  unread : ∀ i < count, ∀ j < i, scheme.sharesCell (ahead target j) (ahead source i) = false

/-- Once the first byte is copied, the same holds of the others. -/
theorem CopiesForward.tail {scheme : Scheme} {source target : UInt32} {count : Nat}
    (h : CopiesForward scheme source target (count + 1)) : CopiesForward scheme (source + 1) (target + 1) count where
  plain i hi := by
    rw [← ahead_succ]
    exact h.plain (i + 1) (by omega)
  hasCell i hi := by
    rw [← ahead_succ]
    exact h.hasCell (i + 1) (by omega)
  distinct i hi j hj := by
    rw [← ahead_succ, ← ahead_succ]
    exact h.distinct (i + 1) (by omega) (j + 1) (by omega)
  unread i hi j hj := by
    rw [← ahead_succ, ← ahead_succ]
    exact h.unread (i + 1) (by omega) (j + 1) (by omega)

section Copy

variable {σ : Type} [Observer σ]

/-- What is stored after a copy: its bytes at its targets, and all else as it was. -/
theorem peek_copy {bus : Bus σ} {source target : UInt32} {count : Nat}
    (h : CopiesForward bus.scheme source target count) :
    (∀ i < count, (bus.copy source target count).peek (ahead target i) = bus.peek (ahead source i)) ∧
    (∀ addr, (∀ i < count, bus.scheme.sharesCell (ahead target i) addr = false) →
      (bus.copy source target count).peek addr = bus.peek addr) := by
  induction count generalizing bus source target with
  | zero => exact ⟨fun i hi => absurd hi (Nat.not_lt_zero i), fun _ _ => rfl⟩
  | succ count ih =>
    -- the bus after the first byte shows it at the first target and else what it showed before
    let next := bus.write (Address.wrap target) (bus.peek (Address.wrap source))
    have hnext (addr : UInt32) : next.peek addr =
        if bus.scheme.sharesCell (ahead target 0) addr then bus.peek (ahead source 0) else bus.peek addr := by
      rw [ahead_zero, ahead_zero]
      exact bus.peek_write _ addr _
    have hcopy : bus.copy source target (count + 1) = next.copy (source + 1) (target + 1) count := by
      have hread := bus.read_eq (by simpa using h.plain 0 (Nat.succ_pos count))
      rw [Bus.copy, hread]
    have hscheme : next.scheme = bus.scheme := bus.write_scheme _ _
    obtain ⟨hcopied, hkept⟩ := ih (hscheme ▸ h.tail)
    rw [hscheme] at hkept
    refine ⟨fun i hi => ?_, fun addr hfree => ?_⟩
    · rw [hcopy]
      cases i with
      | zero =>
        -- the other bytes go elsewhere
        obtain ⟨cell, hcell⟩ := Option.isSome_iff_exists.1 (h.hasCell 0 hi)
        rw [hkept, hnext, Scheme.sharesCell_self hcell, if_pos rfl]
        intro i hi
        rw [← ahead_succ, Scheme.sharesCell_comm]
        exact h.distinct (i + 1) (by omega) 0 (by omega)
      | succ i =>
        rw [ahead_succ, hcopied i (by omega), hnext, ← ahead_succ, h.unread (i + 1) hi 0 (by omega),
          if_neg Bool.false_ne_true]
    · rw [hcopy, hkept, hnext, hfree 0 (by omega), if_neg Bool.false_ne_true]
      intro i hi
      rw [← ahead_succ]
      exact hfree (i + 1) (by omega)

theorem scheme_copy (bus : Bus σ) (source target : UInt32) (count : Nat) :
    (bus.copy source target count).scheme = bus.scheme :=
  scheme_of_exchange (BusCall.exchange_calls [.copy source target count] bus)

end Copy

/-! ## Parts of a copy -/

namespace BusCall

/-- Address bits that the bus does not have make no difference. -/
theorem copying_congr {source source' target target' : UInt32} (hsource : Address.wrap source = Address.wrap source')
    (htarget : Address.wrap target = Address.wrap target') (count : Nat) :
    copying source target count = copying source' target' count := by
  induction count generalizing source source' target target' with
  | zero => rfl
  | succ count ih =>
    rw [copying, copying, hsource, htarget, ih (Address.wrap_add_one hsource) (Address.wrap_add_one htarget)]

/-- A copy does the accesses of a first part and then those of the rest. -/
theorem copying_add (source target : UInt32) (first rest : Nat) :
    copying source target (first + rest) =
      (copying source target first).bind fun _ => copying (ahead source first) (ahead target first) rest := by
  induction first generalizing source target with
  | zero =>
    rw [Nat.zero_add, ahead_zero, ahead_zero]
    exact copying_congr (Address.wrap_wrap source).symm (Address.wrap_wrap target).symm rest
  | succ first ih =>
    rw [Nat.succ_add, copying, copying, ih, ← ahead_succ, ← ahead_succ]
    rfl

end BusCall

section Copy

variable {σ : Type} [Observer σ] (bus : Bus σ)

theorem Bus.copy_add (source target : UInt32) (first rest : Nat) :
    bus.copy source target (first + rest) =
      (bus.copy source target first).copy (ahead source first) (ahead target first) rest := by
  rw [← BusCall.run_copying, BusCall.copying_add, Activity.run_bind]
  show ((BusCall.copying _ _ rest).run ((BusCall.copying source target first).run bus).memory).memory = _
  rw [BusCall.run_copying, BusCall.run_copying]

theorem BusCall.transfersOf_copy_add (source target : UInt32) (first rest : Nat) :
    transfersOf [.copy source target (first + rest)] bus =
      transfersOf [.copy source target first, .copy (ahead source first) (ahead target first) rest] bus := by
  simp only [transfersOf, activity, List.append_nil]
  rw [copying_add, Activity.log_bind, transfers_append, run_copying]
  rfl

/-- **A copy is an exact forward copy.** If its targets are cells of their own and none is written before it is read,
then each target reads as its source did, and all other addresses that are no device registers read as before. Any copy
at all, over device registers too, is a copy of a first part and then one of the rest: it leaves the same bus and host
and does the same accesses in the same order. -/
theorem copy_exact :
    (∀ source target count, CopiesForward bus.scheme source target count →
      let after := bus.copy source target count
      (∀ i < count, (after.read (ahead target i)).1 = (bus.read (ahead source i)).1) ∧
      (∀ addr, (bus.scheme.locate addr).isIo = false →
        (∀ i < count, bus.scheme.sharesCell (ahead target i) addr = false) →
        (after.read addr).1 = (bus.read addr).1)) ∧
    (∀ source target first rest,
      bus.copy source target (first + rest) =
        (bus.copy source target first).copy (ahead source first) (ahead target first) rest ∧
      BusCall.transfersOf [.copy source target (first + rest)] bus =
        BusCall.transfersOf [.copy source target first, .copy (ahead source first) (ahead target first) rest] bus) := by
  refine ⟨fun source target count h => ?_, fun source target first rest =>
    ⟨bus.copy_add source target first rest, BusCall.transfersOf_copy_add bus source target first rest⟩⟩
  intro after
  have hread {addr : UInt32} (hplain : (bus.scheme.locate addr).isIo = false) :
      (after.read addr).1 = after.peek addr := by
    rw [after.read_eq ((scheme_copy bus source target count).symm ▸ hplain)]
  obtain ⟨hcopied, hkept⟩ := peek_copy h
  refine ⟨fun i hi => ?_, fun addr hplain hfree => ?_⟩
  · obtain ⟨cell, hcell⟩ := Option.isSome_iff_exists.1 (h.hasCell i hi)
    rw [hread (Scheme.isIo_of_cell hcell), bus.read_eq (h.plain i hi)]
    exact hcopied i hi
  · rw [hread hplain, bus.read_eq hplain]
    exact hkept addr hfree

end Copy

/-- A copy down by one place, through two addresses of the same memory: each byte is overwritten after it was read. -/
theorem copy_exact_overlapping :
    let bus : Bus Runner.Console := { host := ⟨false, ""⟩ }
    let filled := (bus.write 0x7E0101 0x42).write 0x7E0102 0x43
    CopiesForward filled.scheme 0x7E0101 0x800100 2 ∧
      ((filled.copy 0x7E0101 0x800100 2).read 0x800100).1 = 0x42 ∧
      ((filled.copy 0x7E0101 0x800100 2).read 0x800101).1 = 0x43 := by
  intro bus filled
  have hscheme : filled.scheme = .loRom := by rw [Bus.write_scheme, Bus.write_scheme]
  have hcopies : CopiesForward filled.scheme 0x7E0101 0x800100 2 := by
    rw [hscheme]
    exact ⟨by decide, by decide, by decide, by decide⟩
  have hshown (addr : UInt32) : filled.peek addr =
      if Scheme.loRom.sharesCell 0x7E0102 addr then 0x43
      else if Scheme.loRom.sharesCell 0x7E0101 addr then 0x42 else bus.peek addr := by
    rw [Bus.peek_write, Bus.peek_write, Bus.write_scheme]
  have hsource (i : Nat) (hi : i < 2) : (filled.read (ahead 0x7E0101 i)).1 = filled.peek (ahead 0x7E0101 i) := by
    rw [filled.read_eq (hcopies.plain i hi)]
  have hfirst : filled.peek (ahead 0x7E0101 0) = 0x42 :=
    (hshown _).trans ((if_neg (by decide)).trans (if_pos (by decide)))
  have hsecond : filled.peek (ahead 0x7E0101 1) = 0x43 := (hshown _).trans (if_pos (by decide))
  obtain ⟨hcopied, -⟩ := (copy_exact filled).1 0x7E0101 0x800100 2 hcopies
  exact ⟨hcopies, (hcopied 0 (by decide)).trans ((hsource 0 (by decide)).trans hfirst),
    (hcopied 1 (by decide)).trans ((hsource 1 (by decide)).trans hsecond)⟩

end Emu816
