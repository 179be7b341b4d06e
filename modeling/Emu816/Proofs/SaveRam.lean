import Emu816.Proofs.CartridgeSpace
import Emu816.Proofs.PlainBus
import Emu816.Proofs.StorageFrame

/-!
# Saved games

A host keeps battery-backed memory in a file and brings it back. An image that is too long is refused before anything
is stored; any other overwrites all of the memory, with zeros behind its end. Both schemes show every byte of the
memory.

- `Bus.storing`, `Bus.importing`: an import that stores byte after byte in place.
- `Bus.run_storing`: what is stored after some of the bytes; `Bus.run_importing`: it is all of the import or nothing.
- `Bus.importSaveRam_of_le`: what a bus is after an import; `Bus.read_of_saveRam`: what its addresses read.
- `Scheme.exists_locate_saveRam`: each byte has an address.
- `save_ram_import`: an import, and a memory that is brought back after any acts of a host.
-/

namespace Emu816

namespace Bus

variable {σ : Type}

/-! ## An import in place -/

/-- Stores the first bytes of an image one by one, zeros behind its end. -/
def storing (image : Image) : (count : Nat) → EStateM SaveRamError (Bus σ) Unit
  | 0 => pure ()
  | count + 1 => do
    storing image count
    modify fun bus => bus.store (image[count]?.getD 0) (.saveRam count)

/-- Looks at the length of an image, then stores it in place. -/
def importing (image : Image) : EStateM SaveRamError (Bus σ) Unit := do
  if saveRamSize < image.size then
    throw ⟨image.size⟩
  storing image saveRamSize

/-- The first bytes of battery-backed memory have become those of an image, and nothing else has changed. -/
structure Overwritten (image : Image) (count : Nat) (bus after : Bus σ) : Prop where
  kept : after = { bus with saveRam := after.saveRam }
  get : ∀ index, after.saveRam.get index =
    if index.val < count then image[index.val]?.getD 0 else bus.saveRam.get index

namespace Overwritten

variable {image : Image} {count : Nat} {bus between after : Bus σ}

/-- One more byte is stored. -/
theorem store (h : Overwritten image count bus between) (hcount : count < saveRamSize) :
    Overwritten image (count + 1) bus (between.store (image[count]?.getD 0) (.saveRam count)) := by
  constructor
  case kept => rw [h.kept]; rfl
  case get =>
    intro index
    have hplace : (saveIndex count).val = count := Nat.mod_eq_of_lt hcount
    show (between.saveRam.set (saveIndex count) _).get index = _
    rw [get_set, h.get]
    by_cases hhere : saveIndex count = index
    · subst hhere
      rw [if_pos rfl, if_pos (by omega), hplace]
    · have hne : index.val ≠ count := fun heq => hhere (Fin.ext (hplace.trans heq.symm))
      rw [if_neg hhere]
      exact if_congr (by omega) rfl rfl

/-- After all bytes, the memory is as an import fills it. -/
theorem eq_filled (h : Overwritten image saveRamSize bus after) :
    after = { bus with saveRam := .ofFn fun index => image[index.val]?.getD 0 } := by
  have hfilled : after.saveRam = .ofFn fun index => image[index.val]?.getD 0 := by
    apply Vector.ext
    intro i hi
    rw [Vector.getElem_ofFn]
    exact (h.get ⟨i, hi⟩).trans (if_pos hi)
  rw [h.kept, hfilled]

end Overwritten

/-- **Bytes stored so far.** -/
theorem run_storing (image : Image) (bus : Bus σ) {count : Nat} (h : count ≤ saveRamSize) :
    ∃ after, (storing image count).run bus = .ok () after ∧ Overwritten image count bus after := by
  induction count with
  | zero => exact ⟨bus, rfl, rfl, fun index => (if_neg (Nat.not_lt_zero _)).symm⟩
  | succ count ih =>
    obtain ⟨between, hrun, hbetween⟩ := ih (Nat.le_of_succ_le h)
    refine ⟨_, ?_, hbetween.store h⟩
    show EStateM.bind (storing image count) _ bus = _
    rw [EStateM.bind, show storing image count bus = _ from hrun]
    rfl

/-- **The import in place stores all of an image or nothing**, as `importSaveRam` says which. -/
theorem run_importing (image : Image) (bus : Bus σ) :
    (importing image).run bus =
      match bus.importSaveRam image with
      | .ok filled => .ok () filled
      | .error error => .error error bus := by
  unfold importing importSaveRam
  by_cases hsize : image.size ≤ saveRamSize
  · obtain ⟨after, hrun, hafter⟩ := run_storing image bus (Nat.le_refl _)
    rw [if_neg (Nat.not_lt.2 hsize), if_pos hsize]
    exact hrun.trans (by rw [hafter.eq_filled])
  · rw [if_pos (Nat.not_le.1 hsize), if_neg hsize]
    rfl

/-! ## After an import -/

theorem importSaveRam_of_lt (bus : Bus σ) {image : Image} (h : saveRamSize < image.size) :
    bus.importSaveRam image = .error ⟨image.size⟩ := if_neg (Nat.not_le.2 h)

/-- An image that fits becomes all of battery-backed memory, with zeros behind it. -/
theorem importSaveRam_of_le (bus : Bus σ) {image : Image} (h : image.size ≤ saveRamSize) :
    ∃ filled, bus.importSaveRam image = .ok filled ∧ filled = { bus with saveRam := filled.saveRam } ∧
      filled.saveRam.toArray = image ++ Array.replicate (saveRamSize - image.size) 0 ∧
      ∀ index, filled.saveRam.get index = image[index.val]?.getD 0 :=
  ⟨_, if_pos h, rfl, (Checked.filled_toArray h).symm, fun index => Vector.getElem_ofFn index.isLt⟩

/-- What was kept of a memory is what an import of it puts in place. -/
theorem importSaveRam_toArray (bus : Bus σ) (memory : Vector UInt8 saveRamSize) :
    bus.importSaveRam memory.toArray = .ok { bus with saveRam := memory } := by
  obtain ⟨filled, himport, hkept, -, hget⟩ := bus.importSaveRam_of_le (Nat.le_of_eq memory.size_toArray)
  have hmemory : filled.saveRam = memory := by
    apply Vector.ext
    intro i hi
    have hbyte := hget ⟨i, hi⟩
    rw [Vector.getElem?_toArray, Vector.getElem?_eq_getElem hi] at hbyte
    exact hbyte
  rw [himport, hkept, hmemory]

/-- An address of battery-backed memory reads the byte there, under either scheme. -/
theorem read_of_saveRam (bus : Bus σ) {scheme : Scheme} {addr : UInt32} {offset : Nat}
    (h : scheme.locate addr = .saveRam offset) :
    (bus.setScheme scheme).read addr = (bus.saveRam.get (saveIndex offset), bus.setScheme scheme) := by
  rw [read, show (bus.setScheme scheme).scheme.locate addr = .saveRam offset from h]
  rfl

/-- Other addresses read as if nothing had been put into battery-backed memory. -/
theorem read_setSaveRam (bus : Bus σ) (memory : Vector UInt8 saveRamSize) {addr : UInt32}
    (h : ∀ offset, bus.scheme.locate addr ≠ .saveRam offset) :
    ({ bus with saveRam := memory }.read addr).1 = (bus.read addr).1 := by
  unfold read
  dsimp only
  split
  case h_1 => rfl
  case h_2 =>
    cases hlocate : bus.scheme.locate addr with
    | saveRam offset => exact absurd hlocate (h offset)
    | workRam _ | rom _ | io _ | openBus => rfl

end Bus

/-! ## Addresses of battery-backed memory -/

namespace Scheme

section Pages

variable {bank : Fin 0x80} {offset : Fin 0x10000} {place : Nat}

/-- Pages of 32 KiB are in the lower halves of the last banks below work memory. -/
theorem locateIn_loRom_eq_saveRam :
    Scheme.loRom.locateIn bank offset = .saveRam place ↔
      0x70 ≤ bank.val ∧ bank.val < 0x7E ∧ offset.val < 0x8000 ∧ place = (bank.val - 0x70) * 0x8000 + offset.val := by
  unfold locateIn locateSystem locateCartridge
  simp only [reduceCtorEq, false_and, if_false]
  split_ifs <;> simp <;> omega

/-- Pages of 8 KiB are before the cartridge space of the upper system banks. -/
theorem locateIn_hiRom_eq_saveRam :
    Scheme.hiRom.locateIn bank offset = .saveRam place ↔
      0x20 ≤ bank.val ∧ bank.val < 0x40 ∧ 0x6000 ≤ offset.val ∧ offset.val < 0x8000 ∧
        place = (bank.val - 0x20) * 0x2000 + (offset.val - 0x6000) := by
  unfold locateIn locateSystem locateCartridge
  simp only [true_and]
  split_ifs <;> simp <;> omega

end Pages

/-- Each byte of battery-backed memory has an address under both schemes. -/
theorem exists_locate_saveRam (scheme : Scheme) {place : Nat} (h : place < 0x20000) :
    ∃ addr < 0x1000000, scheme.locate addr = .saveRam place := by
  have hat (bank : Fin 0x80) (offset : Fin 0x10000) (hlocate : scheme.locateIn bank offset = .saveRam place) :
      ∃ addr < 0x1000000, scheme.locate addr = .saveRam place := by
    refine ⟨Address.ofBank (UInt8.ofNat bank.val) (UInt16.ofNat offset.val), ofBank_lt _ _, ?_⟩
    rw [← hlocate]
    apply locate_of_parts <;> rw [Address.toNat_ofBank, UInt8.toNat_ofNat', UInt16.toNat_ofNat'] <;> omega
  cases scheme with
  | loRom =>
    refine hat ⟨0x70 + place / 0x8000, by omega⟩ ⟨place % 0x8000, by omega⟩ (locateIn_loRom_eq_saveRam.2 ?_)
    dsimp only
    omega
  | hiRom =>
    refine hat ⟨0x20 + place / 0x2000, by omega⟩ ⟨0x6000 + place % 0x2000, by omega⟩ (locateIn_hiRom_eq_saveRam.2 ?_)
    dsimp only
    omega

end Scheme

/-! ## Imports of a host -/

/-- **An import stores all of an image or nothing.** It fails if and only if the image is longer than the memory, also
where bytes are stored in place, and then the bus and the machine are as before. Otherwise nothing but battery-backed
memory changes, all of which is overwritten: under either scheme, its addresses read the image with zeros behind it,
and all others as before. Each byte has an address. What was kept of a memory after any acts of a host brings that
memory back, on a bus in whatever state, and changes nothing on the bus that it comes from. -/
theorem save_ram_import {σ τ : Type} [Observer σ] [TraceSink τ] (machine : Machine σ τ) (image : Image) :
    let bus := machine.bus
    let call : MachineCall σ τ := .importSaveRam image
    ((∃ error, bus.importSaveRam image = .error error) ↔ 131072 < image.size) ∧
    (131072 < image.size →
      bus.importSaveRam image = .error ⟨image.size⟩ ∧ (Bus.importing image).run bus = .error ⟨image.size⟩ bus ∧
      call.apply machine = (.imported (some ⟨image.size⟩), machine)) ∧
    (image.size ≤ 131072 → ∃ filled,
      bus.importSaveRam image = .ok filled ∧ (Bus.importing image).run bus = .ok () filled ∧
      call.apply machine = (.imported none, { machine with bus := filled }) ∧
      filled = { bus with saveRam := filled.saveRam } ∧
      filled.saveRam.toArray = image ++ Array.replicate (131072 - image.size) 0 ∧
      ∀ (scheme : Scheme) (addr : UInt32),
        (∀ offset, scheme.locate addr = .saveRam offset →
          (filled.setScheme scheme).read addr =
            (if h : offset % 131072 < image.size then image[offset % 131072] else 0, filled.setScheme scheme)) ∧
        ((∀ offset, scheme.locate addr ≠ .saveRam offset) →
          ((filled.setScheme scheme).read addr).1 = ((bus.setScheme scheme).read addr).1)) ∧
    (∀ (scheme : Scheme) (place : Nat), place < 131072 → ∃ addr < 0x1000000, scheme.locate addr = .saveRam place) ∧
    (∀ acts : List (HostAct σ τ),
      let used := (HostAct.applyAll acts machine).bus
      used.importSaveRam used.saveRam.toArray = .ok used ∧
      ∀ other : Bus σ, other.importSaveRam used.saveRam.toArray = .ok { other with saveRam := used.saveRam }) := by
  intro bus call
  have hrun := Bus.run_importing image bus
  refine ⟨⟨?_, ?_⟩, ?_, ?_, fun scheme place => scheme.exists_locate_saveRam, fun acts => ?_⟩
  · rintro ⟨error, herror⟩
    by_contra hsize
    obtain ⟨filled, himport, -⟩ := bus.importSaveRam_of_le (Nat.le_of_not_lt hsize)
    rw [himport] at herror
    cases herror
  · exact fun hsize => ⟨_, bus.importSaveRam_of_lt hsize⟩
  · intro hsize
    have himport := bus.importSaveRam_of_lt hsize
    rw [himport] at hrun
    refine ⟨himport, hrun, ?_⟩
    show (match bus.importSaveRam image with | .ok _ => _ | .error _ => _) = _
    rw [himport]
  · intro hsize
    obtain ⟨filled, himport, hkept, harray, hget⟩ := bus.importSaveRam_of_le hsize
    rw [himport] at hrun
    refine ⟨filled, himport, hrun, ?_, hkept, harray, fun scheme addr => ⟨fun offset hlocate => ?_, fun hother => ?_⟩⟩
    · show (match bus.importSaveRam image with | .ok _ => _ | .error _ => _) = _
      rw [himport]
      rfl
    · rw [filled.read_of_saveRam hlocate, hget, ← Array.getD_eq_getD_getElem?]
      rfl
    · rw [hkept]
      exact (bus.setScheme scheme).read_setSaveRam filled.saveRam hother
  · exact ⟨Bus.importSaveRam_toArray _ _, fun other => other.importSaveRam_toArray _⟩

/-- An image that is one byte too long, and a short one seen through mirrors of both schemes. -/
theorem save_ram_import_sizes :
    let machine : Machine Runner.Console Tally :=
      { cpu := {}, bus := { host := ⟨false, ""⟩ }, config := {}, sink := none }
    let long : Image := Array.replicate 131073 0
    let short : Image := #[1, 2, 3]
    (MachineCall.importSaveRam long).apply machine = (.imported (some ⟨131073⟩), machine) ∧
    ∃ filled, machine.bus.importSaveRam short = .ok filled ∧
      ((filled.setScheme .hiRom).read 0xB06001).1 = 2 ∧ ((filled.setScheme .loRom).read 0x740002).1 = 3 ∧
      ((filled.setScheme .loRom).read 0x700003).1 = 0 := by
  intro machine long short
  have hlong : long.size = 131073 := Array.size_replicate
  obtain ⟨-, hrefused, -⟩ := save_ram_import machine long
  obtain ⟨-, -, hstored, -⟩ := save_ram_import machine short
  obtain ⟨-, -, hreply⟩ := hrefused (by rw [hlong]; decide)
  obtain ⟨filled, himport, -, -, -, -, hread⟩ := hstored (by decide)
  have hhiRom := (hread .hiRom 0xB06001).1 0x20001 (by decide)
  have hloRom := (hread .loRom 0x740002).1 0x20002 (by decide)
  have hbehind := (hread .loRom 0x700003).1 3 (by decide)
  rw [hlong] at hreply
  exact ⟨hreply, filled, himport, by rw [hhiRom]; rfl, by rw [hloRom]; rfl, by rw [hbehind]; rfl⟩

end Emu816
