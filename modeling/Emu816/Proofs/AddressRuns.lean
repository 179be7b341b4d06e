import Emu816.Proofs.Operands
import Emu816.Proofs.Stack

/-!
# Addresses in a row

Bytes that belong together are transferred one after the other. Their addresses go up in a bank and wrap at its end, go
on into the next bank, or follow the stack pointer.

- `transfersFor`, `addressesFor`, `bytesFor`: the transfers for a purpose.
- `inBank`, `acrossBanks`: the two ways in which addresses go up; `Place.addresses` is one of them.
- `addr_fetches`, `addr_cells`, `addr_pushes`, `addr_pulls`: the addresses of bytes that are transferred in a row.
-/

namespace Emu816

/-! ## Transfers by purpose -/

/-- The transfers for a purpose, in order. -/
def transfersFor (purpose : Purpose) (log : List Transfer) : List Transfer := log.filter (·.purpose = purpose)

/-- The addresses of these transfers. -/
def addressesFor (purpose : Purpose) (log : List Transfer) : List UInt32 := (transfersFor purpose log).map Transfer.addr

/-- The bytes of these transfers. -/
def bytesFor (purpose : Purpose) (log : List Transfer) : List UInt8 := (transfersFor purpose log).map Transfer.byte

@[simp] theorem transfersFor_nil (purpose : Purpose) : transfersFor purpose [] = [] := rfl

@[simp] theorem transfersFor_cons (purpose : Purpose) (t : Transfer) (log : List Transfer) :
    transfersFor purpose (t :: log) =
      if t.purpose = purpose then t :: transfersFor purpose log else transfersFor purpose log := by
  simp [transfersFor, List.filter_cons]

@[simp] theorem transfersFor_append (purpose : Purpose) (first second : List Transfer) :
    transfersFor purpose (first ++ second) = transfersFor purpose first ++ transfersFor purpose second :=
  List.filter_append ..

theorem transfersFor_of_forall {purpose : Purpose} {log : List Transfer} (h : ∀ t ∈ log, t.purpose = purpose)
    (other : Purpose) : transfersFor other log = if purpose = other then log else [] := by
  induction log with
  | nil => simp
  | cons t log ih =>
    have hfirst := h t List.mem_cons_self
    rw [transfersFor_cons, ih fun t ht => h t (List.mem_cons_of_mem _ ht), hfirst]
    split <;> rfl

theorem purpose_of_mem_fetches {t : Transfer} {r : Registers} {bytes : List UInt8} (h : t ∈ fetches r bytes) :
    t.purpose = .code := by
  induction bytes generalizing r with
  | nil => cases h
  | cons byte bytes ih =>
    rcases List.mem_cons.1 h with rfl | h
    · rfl
    · exact ih h

theorem purpose_of_mem_cells {t : Transfer} {direction : Direction} {purpose : Purpose} {place : Place}
    {bytes : List UInt8} (h : t ∈ cells direction purpose place bytes) : t.purpose = purpose := by
  induction bytes generalizing place with
  | nil => cases h
  | cons byte bytes ih =>
    rcases List.mem_cons.1 h with rfl | h
    · rfl
    · exact ih h

@[simp] theorem transfersFor_fetches (purpose : Purpose) (r : Registers) (bytes : List UInt8) :
    transfersFor purpose (fetches r bytes) = if .code = purpose then fetches r bytes else [] :=
  transfersFor_of_forall (fun _ => purpose_of_mem_fetches) purpose

@[simp] theorem transfersFor_cells (other : Purpose) (direction : Direction) (purpose : Purpose) (place : Place)
    (bytes : List UInt8) : transfersFor other (cells direction purpose place bytes) =
      if purpose = other then cells direction purpose place bytes else [] :=
  transfersFor_of_forall (fun _ => purpose_of_mem_cells) other

@[simp] theorem transfersFor_pushes (purpose : Purpose) (r : Registers) (bytes : List UInt8) :
    transfersFor purpose (pushes r bytes) = if .stack = purpose then pushes r bytes else [] :=
  transfersFor_of_forall (fun _ h => (mem_pushes h).2) purpose

/-! ## Runs of addresses -/

/-- Addresses of bytes in a row in a bank, from an offset on; they wrap at the end of the bank. -/
def inBank (bank : UInt8) (offset : UInt16) (count : Nat) : List UInt32 :=
  (List.range count).map fun i => Address.ofBank bank (offset + UInt16.ofNat i)

/-- Addresses of bytes in a row, from an address on; they go on into the next bank. -/
def acrossBanks (addr : UInt32) (count : Nat) : List UInt32 :=
  (List.range count).map fun i => Address.wrap (addr + UInt32.ofNat i)

/-- Addresses of bytes in a row from a place on. -/
def Place.addresses : Place → Nat → List UInt32
  | bank0 offset => inBank 0 offset
  | long addr => acrossBanks addr

theorem inBank_succ (bank : UInt8) (offset : UInt16) (count : Nat) :
    inBank bank offset (count + 1) = Address.ofBank bank offset :: inBank bank (offset + 1) count := by
  have hoffset (i : Nat) : offset + UInt16.ofNat (i + 1) = offset + 1 + UInt16.ofNat i := by
    rw [UInt16.ofNat_add]
    grind
  rw [inBank, List.range_succ_eq_map, List.map_cons, List.map_map]
  refine List.cons_eq_cons.2 ⟨by simp, List.map_congr_left fun i _ => ?_⟩
  exact congrArg (Address.ofBank bank) (hoffset i)

theorem acrossBanks_wrap (addr : UInt32) (count : Nat) :
    acrossBanks (Address.wrap addr) count = acrossBanks addr count := by
  refine List.map_congr_left fun i _ => ?_
  apply UInt32.toNat.inj
  simp only [Address.toNat_wrap, UInt32.toNat_add]
  omega

theorem acrossBanks_succ (addr : UInt32) (count : Nat) :
    acrossBanks addr (count + 1) = Address.wrap addr :: acrossBanks (Address.wrap (addr + 1)) count := by
  have haddr (i : Nat) : addr + UInt32.ofNat (i + 1) = addr + 1 + UInt32.ofNat i := by
    rw [UInt32.ofNat_add]
    grind
  rw [acrossBanks_wrap]
  rw [acrossBanks, List.range_succ_eq_map, List.map_cons, List.map_map]
  refine List.cons_eq_cons.2 ⟨by simp, List.map_congr_left fun i _ => ?_⟩
  exact congrArg Address.wrap (haddr i)

/-- The byte after another one lies at another address. -/
theorem Place.next_address_ne (place : Place) : place.next.address ≠ place.address := by
  cases place with
  | bank0 offset =>
    have hoffset := offset.toNat_lt
    rw [next, address, address, ne_eq, ← UInt32.toNat_inj, UInt16.toNat_toUInt32, UInt16.toNat_toUInt32,
      UInt16.toNat_add]
    simp only [UInt16.reduceToNat]
    omega
  | long addr =>
    rw [next, address, address, ne_eq, ← UInt32.toNat_inj, Address.wrap_wrap, Address.toNat_wrap, Address.toNat_wrap,
      UInt32.toNat_add]
    simp only [UInt32.reduceToNat]
    omega

@[simp] theorem Place.addresses_zero (place : Place) : place.addresses 0 = [] := by
  cases place <;> rfl

theorem Place.addresses_succ (place : Place) (count : Nat) :
    place.addresses (count + 1) = place.address :: place.next.addresses count := by
  cases place with
  | bank0 offset => rw [addresses, inBank_succ, Address.ofBank_zero]; rfl
  | long addr => exact acrossBanks_succ addr count

@[simp] theorem addr_cells (direction : Direction) (purpose : Purpose) (place : Place) (bytes : List UInt8) :
    (cells direction purpose place bytes).map Transfer.addr = place.addresses bytes.length := by
  induction bytes generalizing place with
  | nil => cases place <;> rfl
  | cons byte bytes ih => rw [cells, List.map_cons, ih, List.length_cons, Place.addresses_succ]

@[simp] theorem byte_cells (direction : Direction) (purpose : Purpose) (place : Place) (bytes : List UInt8) :
    (cells direction purpose place bytes).map Transfer.byte = bytes := by
  induction bytes generalizing place with
  | nil => rfl
  | cons byte bytes ih => rw [cells, List.map_cons, ih]

@[simp] theorem addr_fetches (r : Registers) (bytes : List UInt8) :
    (fetches r bytes).map Transfer.addr = inBank r.pbr r.pc bytes.length := by
  induction bytes generalizing r with
  | nil => rfl
  | cons byte bytes ih =>
    rw [fetches, List.map_cons, ih, List.length_cons, inBank_succ]
    rfl

@[simp] theorem byte_fetches (r : Registers) (bytes : List UInt8) : (fetches r bytes).map Transfer.byte = bytes := by
  induction bytes generalizing r with
  | nil => rfl
  | cons byte bytes ih => rw [fetches, List.map_cons, ih]

theorem toUInt32_lt (offset : UInt16) : offset.toUInt32 < 0x10000 := by
  rw [UInt32.lt_iff_toNat_lt, UInt16.toNat_toUInt32]
  exact offset.toNat_lt

theorem lt_of_mem_inBank {addr : UInt32} {offset : UInt16} {count : Nat} (h : addr ∈ inBank 0 offset count) :
    addr < 0x10000 := by
  obtain ⟨i, -, rfl⟩ := List.mem_map.1 h
  rw [Address.ofBank_zero]
  exact toUInt32_lt _

/-! ## The stack -/

theorem lt_of_mem_pushes {t : Transfer} {r : Registers} {bytes : List UInt8} (h : t ∈ pushes r bytes) :
    t.addr < 0x10000 := by
  induction bytes generalizing r with
  | nil => cases h
  | cons byte bytes ih =>
    rcases List.mem_cons.1 h with rfl | h
    · exact toUInt32_lt _
    · exact ih h

theorem lt_of_mem_pulls {t : Transfer} {r : Registers} {bytes : List UInt8} (h : t ∈ pulls r bytes) :
    t.addr < 0x10000 := by
  induction bytes generalizing r with
  | nil => cases h
  | cons byte bytes ih =>
    rcases List.mem_cons.1 h with rfl | h
    · exact toUInt32_lt _
    · exact ih h

/-- In native mode bytes are pushed from the stack pointer down. -/
theorem addr_pushes {r : Registers} (hr : r.emulation = false) (bytes : List UInt8) :
    (pushes r bytes).map Transfer.addr = (List.range bytes.length).map fun i => (r.s - UInt16.ofNat i).toUInt32 := by
  induction bytes generalizing r with
  | nil => rfl
  | cons byte bytes ih =>
    have hrest := ih (r := r.setS (r.s - 1)) hr
    have hnext : (r.setS (r.s - 1)).s = r.s - 1 := by simp [Registers.setS, hr]
    have hdepth (i : Nat) : r.s - 1 - UInt16.ofNat i = r.s - UInt16.ofNat (i + 1) := by
      rw [UInt16.ofNat_add]
      grind
    rw [pushes, List.map_cons, hrest, List.length_cons, List.range_succ_eq_map, List.map_cons, List.map_map, hnext]
    refine List.cons_eq_cons.2 ⟨by simp, List.map_congr_left fun i _ => ?_⟩
    exact congrArg UInt16.toUInt32 (hdepth i)

/-- In native mode bytes are pulled from above the stack pointer up. -/
theorem addr_pulls {r : Registers} (hr : r.emulation = false) (bytes : List UInt8) :
    (pulls r bytes).map Transfer.addr = inBank 0 (r.s + 1) bytes.length := by
  induction bytes generalizing r with
  | nil => rfl
  | cons byte bytes ih =>
    have hrest := ih (r := r.setS (r.s + 1)) hr
    have hnext : (r.setS (r.s + 1)).s = r.s + 1 := by simp [Registers.setS, hr]
    rw [pulls, List.map_cons, hrest, List.length_cons, inBank_succ, hnext, Address.ofBank_zero]

end Emu816
