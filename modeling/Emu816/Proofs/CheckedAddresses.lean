import Emu816.Bus.Map
import Emu816.Proofs.Words

/-!
# Checked address decoding

Machine arithmetic goes wrong where a difference would be negative or a number does not fit its word, and an access to
an array where its index is not below its size. The operations here have no result there. An address is decoded by such
operations throughout, and it always has a result: the location of the address.

- `Checked.sub`, `Checked.add`, `Checked.mul`: arithmetic that stays in range.
- `Checked.slice`, `Checked.slot`: places inside an array.
- `Checked.locate`: the decoder, on words; `locate_eq`: it finds the location of every address.
-/

namespace Emu816

/-- Kind of a location. -/
inductive Region where
  | workRam
  | saveRam
  | rom
  | io
  | openBus
  deriving DecidableEq

/-- The kind of a location and the offset there. -/
def Location.place : Location → Region × Nat
  | workRam offset => (.workRam, offset)
  | saveRam offset => (.saveRam, offset)
  | rom offset => (.rom, offset)
  | io offset => (.io, offset.toNat)
  | openBus => (.openBus, 0)

namespace Checked

/-! ## Operations -/

section Operations

variable {α : Type}

/-- The difference, unless it is negative. -/
def sub [LE α] [DecidableLE α] [Sub α] (a b : α) : Option α := if b ≤ a then some (a - b) else none

/-- The sum, unless it is beyond the word. -/
def add (a b : UInt32) : Option UInt32 := if a.toNat + b.toNat < 0x100000000 then some (a + b) else none

/-- The product, unless it is beyond the word. -/
def mul (a b : UInt32) : Option UInt32 := if a.toNat * b.toNat < 0x100000000 then some (a * b) else none

/-- The elements from `start` up to `stop`, unless these are in the wrong order or beyond the array. -/
def slice (array : Array α) (start stop : Nat) : Option (Array α) :=
  if start ≤ stop ∧ stop ≤ array.size then some (array.extract start stop) else none

/-- The index of an offset that repeats beyond the array, unless the array is empty. -/
def slot (array : Array α) (offset : Nat) : Option Nat := if array.size = 0 then none else some (offset % array.size)

theorem sub_of_le [LE α] [DecidableLE α] [Sub α] {a b : α} (h : b ≤ a) : sub a b = some (a - b) := if_pos h

theorem add_of_lt {a b : UInt32} (h : a.toNat + b.toNat < 0x100000000) : add a b = some (a + b) := if_pos h

theorem mul_of_lt {a b : UInt32} (h : a.toNat * b.toNat < 0x100000000) : mul a b = some (a * b) := if_pos h

/-- A page below the first one, and a slot in an array without any, are no results. -/
example : sub (0x1F : UInt8) 0x20 = none ∧ slot (#[] : Array UInt8) 0 = none := ⟨rfl, rfl⟩

end Operations

/-! ## Decoding -/

/-- An offset in one of the pages that lie one behind the other. -/
def paged (page : UInt8) (size : UInt32) (offset : UInt16) : Option UInt32 := do
  let start ← mul page.toUInt32 size
  add start offset.toUInt32

/-- An offset in a bank, where the page has all its 16 bits. -/
def banked (page : UInt8) (offset : UInt16) : UInt32 := (page.toUInt32 <<< 16) ||| offset.toUInt32

/-- Place of an offset in a system bank. -/
def locateSystem (scheme : Scheme) (bank : UInt8) (offset : UInt16) : Option (Region × Nat) :=
  if offset ≤ 0x1FFF then some (.workRam, offset.toNat)
  else if offset ≤ 0x5FFF then some (.io, offset.toNat)
  else if offset ≤ 0x7FFF then
    if scheme = .hiRom ∧ 0x20 ≤ bank then do
      let page ← sub bank 0x20
      let rest ← sub offset 0x6000
      let place ← paged page 0x2000 rest
      return (.saveRam, place.toNat)
    else some (.openBus, 0)
  else
    match scheme with
    | .loRom => do
      let rest ← sub offset 0x8000
      let place ← paged bank 0x8000 rest
      return (.rom, place.toNat)
    | .hiRom => some (.rom, (banked bank offset).toNat)

/-- Place of an offset in a bank that belongs to the cartridge. -/
def locateCartridge (scheme : Scheme) (bank : UInt8) (offset : UInt16) : Option (Region × Nat) :=
  match scheme with
  | .hiRom => do
    let page ← sub bank 0x40
    return (.rom, (banked page offset).toNat)
  | .loRom =>
    if 0x8000 ≤ offset then do
      let rest ← sub offset 0x8000
      let place ← paged bank 0x8000 rest
      return (.rom, place.toNat)
    else if 0x70 ≤ bank then do
      let page ← sub bank 0x70
      let place ← paged page 0x8000 offset
      return (.saveRam, place.toNat)
    else some (.openBus, 0)

/-- Place of an offset in one of the 128 distinct banks. -/
def locateIn (scheme : Scheme) (bank : UInt8) (offset : UInt16) : Option (Region × Nat) :=
  if 0x7E ≤ bank then do
    let page ← sub bank 0x7E
    return (.workRam, (banked page offset).toNat)
  else if bank < 0x40 then locateSystem scheme bank offset
  else locateCartridge scheme bank offset

/-- Place of an address. -/
def locate (scheme : Scheme) (addr : UInt32) : Option (Region × Nat) :=
  let addr := addr &&& 0xFFFFFF
  locateIn scheme ((addr >>> 16).toUInt8 &&& 0x7F) (addr &&& 0xFFFF).toUInt16

section Decoding

variable {bank : UInt8} {offset : UInt16}

theorem toNat_banked (page : UInt8) (offset : UInt16) :
    (banked page offset).toNat = page.toNat * 0x10000 + offset.toNat := by
  have hpage := page.toNat_lt
  have hoffset : offset.toNat < 2 ^ 16 := offset.toNat_lt
  have hfits : page.toNat <<< 16 < 2 ^ 32 := by
    rw [Nat.shiftLeft_eq]
    omega
  rw [banked, UInt32.toNat_or, UInt32.toNat_shiftLeft, UInt8.toNat_toUInt32, UInt16.toNat_toUInt32]
  show page.toNat <<< 16 % 2 ^ 32 ||| offset.toNat = _
  rw [Nat.mod_eq_of_lt hfits, ← Nat.shiftLeft_add_eq_or_of_lt hoffset, Nat.shiftLeft_eq]

/-- Pages of up to 64 KiB lie within the word. -/
theorem paged_eq (page : UInt8) (size : UInt32) (hsize : size ≤ 0x10000) (offset : UInt16) :
    ∃ place, paged page size offset = some place ∧ place.toNat = page.toNat * size.toNat + offset.toNat := by
  have hpage := page.toNat_lt
  have hoffset := offset.toNat_lt
  have hsize : size.toNat ≤ 0x10000 := UInt32.le_iff_toNat_le.1 hsize
  have hstart : page.toNat * size.toNat ≤ 255 * 0x10000 := Nat.mul_le_mul (by omega) hsize
  have hmul : page.toUInt32.toNat * size.toNat < 0x100000000 := by
    rw [UInt8.toNat_toUInt32]
    omega
  have hproduct : (page.toUInt32 * size).toNat = page.toNat * size.toNat := by
    rw [UInt32.toNat_mul, Nat.mod_eq_of_lt hmul, UInt8.toNat_toUInt32]
  have hadd : (page.toUInt32 * size).toNat + offset.toUInt32.toNat < 0x100000000 := by
    rw [hproduct, UInt16.toNat_toUInt32]
    omega
  refine ⟨page.toUInt32 * size + offset.toUInt32, ?_, ?_⟩
  · simp only [paged, mul_of_lt hmul, Option.bind_eq_bind, Option.bind_some, add_of_lt hadd]
  · rw [UInt32.toNat_add, Nat.mod_eq_of_lt hadd, hproduct, UInt16.toNat_toUInt32]

/-- The upper half of a bank of the cartridge. -/
theorem upperHalf_eq (bank : UInt8) (h : 0x8000 ≤ offset) :
    (do
      let rest ← sub offset 0x8000
      let place ← paged bank 0x8000 rest
      return (Region.rom, place.toNat)) = some (.rom, bank.toNat * 0x8000 + (offset.toNat - 0x8000)) := by
  obtain ⟨place, hplace, hvalue⟩ := paged_eq bank 0x8000 (by decide) (offset - 0x8000)
  have hrest : (offset - 0x8000).toNat = offset.toNat - 0x8000 := UInt16.toNat_sub_of_le _ _ h
  simp only [sub_of_le h, hplace, hvalue, hrest, Option.bind_eq_bind, Option.bind_some, Option.pure_def]
  rfl

/-- In a system bank, each difference is taken in the window that starts there. -/
theorem locateSystem_eq (scheme : Scheme) (hbank : bank.toNat < 0x80) :
    locateSystem scheme bank offset =
      some (scheme.locateSystem ⟨bank.toNat, hbank⟩ ⟨offset.toNat, offset.toNat_lt⟩).place := by
  have hle (bound : UInt16) : offset ≤ bound ↔ offset.toNat < bound.toNat + 1 := by
    rw [UInt16.le_iff_toNat_le, Nat.lt_succ_iff]
  unfold locateSystem Scheme.locateSystem
  simp only [hle, UInt16.reduceToNat, Nat.reduceAdd]
  by_cases hwork : offset.toNat < 0x2000
  · rw [if_pos hwork, dif_pos hwork]
    rfl
  by_cases hio : offset.toNat < 0x6000
  · rw [if_neg hwork, if_pos hio, dif_neg hwork, if_pos hio, Location.place, UInt16.ofNat_toNat]
  by_cases hexpansion : offset.toNat < 0x8000
  · rw [if_neg hwork, if_neg hio, if_pos hexpansion, dif_neg hwork, if_neg hio, if_pos hexpansion]
    by_cases hsave : scheme = .hiRom ∧ 0x20 ≤ bank
    · have hsave' : scheme = .hiRom ∧ 0x20 ≤ bank.toNat := ⟨hsave.1, UInt8.le_iff_toNat_le.1 hsave.2⟩
      have hstart : 0x6000 ≤ offset := UInt16.le_iff_toNat_le.2 (Nat.le_of_not_lt hio)
      have hpage : (bank - 0x20).toNat = bank.toNat - 0x20 := UInt8.toNat_sub_of_le _ _ hsave.2
      have hrest : (offset - 0x6000).toNat = offset.toNat - 0x6000 := UInt16.toNat_sub_of_le _ _ hstart
      obtain ⟨place, hplace, hvalue⟩ := paged_eq (bank - 0x20) 0x2000 (by decide) (offset - 0x6000)
      rw [if_pos hsave, if_pos hsave']
      simp only [sub_of_le hsave.2, sub_of_le hstart, hplace, hvalue, hpage, hrest, Option.bind_eq_bind,
        Option.bind_some, Option.pure_def]
      rfl
    · have hsave' : ¬(scheme = .hiRom ∧ 0x20 ≤ bank.toNat) := fun h =>
        hsave ⟨h.1, UInt8.le_iff_toNat_le.2 h.2⟩
      rw [if_neg hsave, if_neg hsave']
      rfl
  · rw [if_neg hwork, if_neg hio, if_neg hexpansion, dif_neg hwork, if_neg hio, if_neg hexpansion]
    cases scheme with
    | loRom => exact upperHalf_eq bank (UInt16.le_iff_toNat_le.2 (Nat.le_of_not_lt hexpansion))
    | hiRom => exact congrArg (fun place => some (Region.rom, place)) (toNat_banked bank offset)

/-- In a bank of the cartridge, each difference is taken behind the bank or offset that it starts from. -/
theorem locateCartridge_eq (scheme : Scheme) (hbank : bank.toNat < 0x80) (hcartridge : 0x40 ≤ bank) :
    locateCartridge scheme bank offset =
      some (scheme.locateCartridge ⟨bank.toNat, hbank⟩ ⟨offset.toNat, offset.toNat_lt⟩).place := by
  unfold locateCartridge Scheme.locateCartridge
  simp only [UInt16.le_iff_toNat_le, UInt8.le_iff_toNat_le, UInt16.reduceToNat, UInt8.reduceToNat]
  cases scheme with
  | hiRom =>
    have hpage : (bank - 0x40).toNat = bank.toNat - 0x40 := UInt8.toNat_sub_of_le _ _ hcartridge
    simp only [sub_of_le hcartridge, toNat_banked, hpage, Option.bind_eq_bind, Option.bind_some, Option.pure_def]
    rfl
  | loRom =>
    dsimp only
    by_cases hupper : 0x8000 ≤ offset.toNat
    · rw [if_pos hupper, if_pos hupper]
      exact upperHalf_eq bank (UInt16.le_iff_toNat_le.2 hupper)
    rw [if_neg hupper, if_neg hupper]
    by_cases hsave : 0x70 ≤ bank.toNat
    · have hstart : 0x70 ≤ bank := UInt8.le_iff_toNat_le.2 hsave
      have hpage : (bank - 0x70).toNat = bank.toNat - 0x70 := UInt8.toNat_sub_of_le _ _ hstart
      obtain ⟨place, hplace, hvalue⟩ := paged_eq (bank - 0x70) 0x8000 (by decide) offset
      rw [if_pos hsave, if_pos hsave]
      simp only [sub_of_le hstart, hplace, hvalue, hpage, Option.bind_eq_bind, Option.bind_some, Option.pure_def]
      rfl
    · rw [if_neg hsave, if_neg hsave]
      rfl

theorem locateIn_eq (scheme : Scheme) (hbank : bank.toNat < 0x80) :
    locateIn scheme bank offset =
      some (scheme.locateIn ⟨bank.toNat, hbank⟩ ⟨offset.toNat, offset.toNat_lt⟩).place := by
  unfold locateIn Scheme.locateIn
  simp only [UInt8.le_iff_toNat_le, UInt8.lt_iff_toNat_lt, UInt8.reduceToNat]
  by_cases hwork : 0x7E ≤ bank.toNat
  · have hstart : 0x7E ≤ bank := UInt8.le_iff_toNat_le.2 hwork
    have hpage : (bank - 0x7E).toNat = bank.toNat - 0x7E := UInt8.toNat_sub_of_le _ _ hstart
    rw [if_pos hwork, dif_pos hwork]
    simp only [sub_of_le hstart, toNat_banked, hpage, Option.bind_eq_bind, Option.bind_some, Option.pure_def]
    rfl
  rw [if_neg hwork, dif_neg hwork]
  by_cases hsystem : bank.toNat < 0x40
  · rw [if_pos hsystem, if_pos hsystem]
    exact locateSystem_eq scheme hbank
  · rw [if_neg hsystem, if_neg hsystem]
    exact locateCartridge_eq scheme hbank (UInt8.le_iff_toNat_le.2 (Nat.le_of_not_lt hsystem))

/-- **Every address has a place**, the one of its location. -/
theorem locate_eq (scheme : Scheme) (addr : UInt32) : locate scheme addr = some (scheme.locate addr).place := by
  have hbank : (((addr &&& 0xFFFFFF) >>> 16).toUInt8 &&& 0x7F).toNat = addr.toNat / 0x10000 % 0x80 := by
    rw [UInt8.toNat_and, UInt32.toNat_toUInt8, UInt32.toNat_shiftRight, UInt32.toNat_and]
    show (addr.toNat &&& 2 ^ 24 - 1) >>> 16 % 256 &&& 2 ^ 7 - 1 = _
    rw [Nat.and_two_pow_sub_one_eq_mod, Nat.and_two_pow_sub_one_eq_mod, Nat.shiftRight_eq_div_pow]
    omega
  have hoffset : ((addr &&& 0xFFFFFF) &&& 0xFFFF).toUInt16.toNat = addr.toNat % 0x10000 := by
    rw [UInt32.toNat_toUInt16, UInt32.toNat_and, UInt32.toNat_and]
    show ((addr.toNat &&& 2 ^ 24 - 1) &&& 2 ^ 16 - 1) % 2 ^ 16 = _
    rw [Nat.and_two_pow_sub_one_eq_mod, Nat.and_two_pow_sub_one_eq_mod]
    omega
  have hlt : (((addr &&& 0xFFFFFF) >>> 16).toUInt8 &&& 0x7F).toNat < 0x80 := by
    rw [hbank]
    exact Nat.mod_lt _ (by decide)
  rw [scheme.locate_of_parts ⟨_, hlt⟩ ⟨((addr &&& 0xFFFFFF) &&& 0xFFFF).toUInt16.toNat, UInt16.toNat_lt _⟩ hbank.symm
    hoffset.symm]
  exact locateIn_eq scheme hlt

end Decoding

end Checked

end Emu816
