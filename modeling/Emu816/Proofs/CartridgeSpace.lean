import Emu816.Proofs.BankMirror

/-!
# What a program sees of the cartridge

The mapping scheme gives each offset of the image its addresses, and some offsets get none: the banks of work memory
hide what would lie behind them. A byte that has an address shows there as it stands in the image.

- `locateIn_loRom_eq_rom`, `locateIn_hiRom_eq_rom`: the banks and offsets that lead to an offset of the image.
- `exists_locate_loRom`, `exists_locate_hiRom`: the offsets that have an address; `locate_loRom_unique`: where it is.
- `image_shown`: what shows of an image, and where.
-/

namespace Emu816

namespace Scheme

/-! ## Banks and pages -/

section Pages

variable {bank : Fin 0x80} {offset : Fin 0x10000} {place : Nat}

/-- Pages of 32 KiB fill the upper halves of the banks below work memory. -/
theorem locateIn_loRom_eq_rom :
    Scheme.loRom.locateIn bank offset = .rom place ↔
      bank.val < 0x7E ∧ 0x8000 ≤ offset.val ∧ place = bank.val * 0x8000 + (offset.val - 0x8000) := by
  unfold locateIn locateSystem locateCartridge
  split_ifs <;> simp <;> omega

/-- Pages of 64 KiB fill the cartridge's banks below work memory. The upper halves of the first 64 pages show in the
system banks too. -/
theorem locateIn_hiRom_eq_rom :
    Scheme.hiRom.locateIn bank offset = .rom place ↔
      (bank.val < 0x40 ∧ 0x8000 ≤ offset.val ∧ place = bank.val * 0x10000 + offset.val) ∨
      (0x40 ≤ bank.val ∧ bank.val < 0x7E ∧ place = (bank.val - 0x40) * 0x10000 + offset.val) := by
  unfold locateIn locateSystem locateCartridge
  split_ifs <;> simp <;> omega

end Pages

/-! ## Addresses -/

theorem ofBank_lt (bank : UInt8) (offset : UInt16) : Address.ofBank bank offset < 0x1000000 := by
  have hbank := bank.toNat_lt
  have hoffset := offset.toNat_lt
  rw [UInt32.lt_iff_toNat_lt, Address.toNat_ofBank]
  simp only [UInt32.reduceToNat]
  omega

/-- Under `loRom` an offset has one address in the banks up to `7D`. -/
theorem locate_loRom_unique {place : Nat} (h : place < 0x3F0000) (addr : UInt32) :
    (addr < 0x1000000 ∧ Address.bank addr ≤ 0x7D ∧ Scheme.loRom.locate addr = .rom place) ↔
      addr = Address.ofBank (UInt8.ofNat (place / 0x8000)) (UInt16.ofNat (0x8000 + place % 0x8000)) := by
  obtain ⟨bank, offset, hbank, hoffset⟩ := exists_parts addr
  rw [locate_of_parts bank offset hbank hoffset, locateIn_loRom_eq_rom, UInt32.lt_iff_toNat_lt, UInt8.le_iff_toNat_le,
    ← UInt32.toNat_inj, Address.toNat_ofBank]
  simp only [Address.bank, UInt32.toNat_toUInt8, UInt32.toNat_div, UInt32.reduceToNat, UInt8.reduceToNat,
    UInt8.toNat_ofNat', UInt16.toNat_ofNat']
  omega

/-- The offsets that have an address under `loRom`. -/
theorem exists_locate_loRom {place : Nat} :
    (∃ addr < 0x1000000, Scheme.loRom.locate addr = .rom place) ↔ place < 0x3F0000 := by
  constructor
  · rintro ⟨addr, -, hlocate⟩
    obtain ⟨bank, offset, hbank, hoffset⟩ := exists_parts addr
    rw [locate_of_parts bank offset hbank hoffset, locateIn_loRom_eq_rom] at hlocate
    omega
  · intro h
    obtain ⟨hlt, -, hlocate⟩ := (locate_loRom_unique h _).2 rfl
    exact ⟨_, hlt, hlocate⟩

/-- The upper half of a page. -/
theorem testBit_page (place : Nat) : place.testBit 15 = true ↔ 0x8000 ≤ place % 0x10000 := by
  rw [Nat.testBit_eq_decide_div_mod_eq, decide_eq_true_eq]
  omega

/-- The offsets that have an address under `hiRom`. -/
theorem exists_locate_hiRom {place : Nat} :
    (∃ addr < 0x1000000, Scheme.hiRom.locate addr = .rom place) ↔
      place < 0x3E0000 ∨ (place < 0x400000 ∧ place.testBit 15 = true) := by
  rw [testBit_page]
  constructor
  · rintro ⟨addr, -, hlocate⟩
    obtain ⟨bank, offset, hbank, hoffset⟩ := exists_parts addr
    rw [locate_of_parts bank offset hbank hoffset, locateIn_hiRom_eq_rom] at hlocate
    omega
  · -- the cartridge's own banks show all of a page, the system banks its upper half
    intro h
    have hpage : ∃ bank : Fin 0x80,
        Scheme.hiRom.locateIn bank ⟨place % 0x10000, Nat.mod_lt _ (by decide)⟩ = .rom place := by
      rcases h with hlow | ⟨hin, hupper⟩
      · refine ⟨⟨0x40 + place / 0x10000, by omega⟩, locateIn_hiRom_eq_rom.2 (.inr ?_)⟩
        dsimp only
        omega
      · refine ⟨⟨place / 0x10000, by omega⟩, locateIn_hiRom_eq_rom.2 (.inl ?_)⟩
        dsimp only
        omega
    obtain ⟨bank, hlocate⟩ := hpage
    have hbank := bank.isLt
    refine ⟨Address.ofBank (UInt8.ofNat bank.val) (UInt16.ofNat place), ofBank_lt _ _, ?_⟩
    rw [← hlocate]
    apply locate_of_parts
    · rw [Address.toNat_ofBank, UInt8.toNat_ofNat', UInt16.toNat_ofNat']
      omega
    · rw [Address.toNat_ofBank, UInt8.toNat_ofNat', UInt16.toNat_ofNat']
      dsimp only
      omega

/-- Size of the largest image of which every byte has an address. -/
def fullSize : Scheme → Nat
  | .loRom => 0x3F0000
  | .hiRom => 0x3E0000

theorem exists_locate_of_lt_fullSize {scheme : Scheme} {place : Nat} (h : place < scheme.fullSize) :
    ∃ addr < 0x1000000, scheme.locate addr = .rom place := by
  cases scheme with
  | loRom => exact exists_locate_loRom.2 h
  | hiRom => exact exists_locate_hiRom.2 (.inl h)

end Scheme

/-! ## Bytes of the image -/

variable {σ : Type}

/-- What shows at an address that leads to the image. -/
theorem Bus.peek_of_rom (bus : Bus σ) {addr : UInt32} {place : Nat} (h : bus.scheme.locate addr = .rom place) :
    bus.peek addr = if hin : place < bus.rom.size then bus.rom[place] else 0xFF := by
  rw [peek, h]
  show bus.rom[place]?.getD openBus = _
  split
  · rename_i hin
    rw [Array.getElem?_eq_getElem hin, Option.getD_some]
  · rename_i hout
    rw [Array.getElem?_eq_none (Nat.le_of_not_lt hout), Option.getD_none]
    rfl

/-- **What shows of an image.** An address that leads to an offset of the image shows the byte there, and the open bus
behind the end. The offsets that have an address are the same for all images of a scheme, so images up to a size show as
a whole. Under `loRom` each such offset has a single address in the banks up to `7D`. Under both schemes the decoder sees
the lower 23 bits of an address. -/
theorem image_shown (bus : Bus σ) :
    (∀ addr place, bus.scheme.locate addr = .rom place →
      bus.peek addr = if h : place < bus.rom.size then bus.rom[place] else 0xFF) ∧
    (∀ place, (∃ addr < 0x1000000, Scheme.loRom.locate addr = .rom place) ↔ place < 0x3F0000) ∧
    (∀ place, (∃ addr < 0x1000000, Scheme.hiRom.locate addr = .rom place) ↔
      place < 0x3E0000 ∨ (place < 0x400000 ∧ place.testBit 15 = true)) ∧
    (∀ place < 0x3F0000, ∀ addr : UInt32,
      (addr < 0x1000000 ∧ Address.bank addr ≤ 0x7D ∧ Scheme.loRom.locate addr = .rom place) ↔
        addr = Address.ofBank (UInt8.ofNat (place / 0x8000)) (UInt16.ofNat (0x8000 + place % 0x8000))) ∧
    (bus.rom.size ≤ bus.scheme.fullSize → ∀ (place : Nat) (h : place < bus.rom.size),
      ∃ addr < 0x1000000, bus.scheme.locate addr = .rom place ∧ bus.peek addr = bus.rom[place]) ∧
    (∀ (scheme : Scheme) (addr addr' : UInt32), addr &&& 0x7FFFFF = addr' &&& 0x7FFFFF →
      scheme.locate addr = scheme.locate addr') := by
  refine ⟨fun addr place h => bus.peek_of_rom h, fun place => Scheme.exists_locate_loRom,
    fun place => Scheme.exists_locate_hiRom, fun place h addr => Scheme.locate_loRom_unique h addr, ?_, ?_⟩
  · intro hsize place h
    obtain ⟨addr, haddr, hlocate⟩ := Scheme.exists_locate_of_lt_fullSize (Nat.lt_of_lt_of_le h hsize)
    exact ⟨addr, haddr, hlocate, (bus.peek_of_rom hlocate).trans (dif_pos h)⟩
  · intro scheme addr addr' h
    apply scheme.locate_mirror
    have hbits (addr : UInt32) : (addr &&& 0x7FFFFF).toNat = addr.toNat % 0x800000 := by
      rw [UInt32.toNat_and]
      exact Nat.and_two_pow_sub_one_eq_mod addr.toNat 23
    have hsame := congrArg UInt32.toNat h
    rwa [hbits, hbits] at hsame

/-- The last byte of an image in an upper bank, the open bus behind it, and a page of which only the upper half shows. -/
theorem image_shown_edges :
    let bus : Bus Unit := { rom := #[0xAA, 0xBB], scheme := .hiRom, host := () }
    bus.peek 0xC00001 = 0xBB ∧ bus.peek 0x400002 = 0xFF ∧
    (∃ addr < 0x1000000, bus.scheme.locate addr = .rom 0 ∧ bus.peek addr = 0xAA) ∧
    (∃ addr < 0x1000000, Scheme.hiRom.locate addr = .rom 0x3F8000) ∧
    ¬(∃ addr < 0x1000000, Scheme.hiRom.locate addr = .rom 0x3F7FFF) ∧
    Scheme.loRom.locate 0x7DFFFF = .rom 0x3EFFFF ∧ Scheme.loRom.locate 0xFF800000 = Scheme.loRom.locate 0x000000 := by
  intro bus
  obtain ⟨hpeek, -, hhiRom, hloRom, hfull, hbits⟩ := image_shown bus
  have hlast := (hloRom 0x3EFFFF (by decide) 0x7DFFFF).2 (by decide)
  exact ⟨hpeek 0xC00001 1 (by decide), hpeek 0x400002 2 (by decide), hfull (by decide) 0 (by decide),
    (hhiRom 0x3F8000).2 (by decide), fun h => absurd ((hhiRom 0x3F7FFF).1 h) (by decide), hlast.2.2,
    hbits .loRom 0xFF800000 0x000000 (by decide)⟩

end Emu816
