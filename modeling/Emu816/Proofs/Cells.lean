import Emu816.Proofs.Ram
import Emu816.Runner.Console

/-!
# Storage cells of the bus

Many addresses lead to one byte of the two memories: the bus repeats its banks, the system banks share the start of work
memory, and battery-backed memory repeats beyond its size. A write reaches all addresses of its cell and no others.

- `Scheme.cell?`, `Scheme.sharesCell`: the cell of an address, and addresses of one cell.
- `Bus.peek_write`, `Bus.peek_read`: what one access does to what is stored.
- `peek_of_exchange`: after any transfers, an address shows the byte that was written last to its cell.
- `BusCall`: what a host does on a bus, as the transfers that go over it.
- `storage_keeps_last_write`: all of it, for single writes, runs of calls and words.
-/

namespace Emu816

/-! ## Cells -/

/-- A byte of storage. -/
inductive Cell where
  | workRam (offset : Fin workRamSize)
  | saveRam (index : Fin saveRamSize)
  deriving DecidableEq

/-- The place of a cell in its memory. -/
def Cell.index : Cell → Nat
  | workRam offset => offset.val
  | saveRam index => index.val

namespace Location

/-- The cell of a location. -/
def cell? : Location → Option Cell
  | workRam offset => some (.workRam offset)
  | saveRam offset => some (.saveRam (Bus.saveIndex offset))
  | rom _ | io _ | openBus => none

/-- Whether a location is a device register. -/
def isIo : Location → Bool
  | io _ => true
  | _ => false

end Location

namespace Scheme

variable (scheme : Scheme)

/-- The cell of an address, if it has one. -/
def cell? (addr : UInt32) : Option Cell := (scheme.locate addr).cell?

/-- Whether two addresses lead to one cell. -/
def sharesCell (a b : UInt32) : Bool := (scheme.cell? a).isSome && scheme.cell? a == scheme.cell? b

variable {scheme}

theorem sharesCell_iff {a b : UInt32} :
    scheme.sharesCell a b = true ↔ ∃ cell, scheme.cell? a = some cell ∧ scheme.cell? b = some cell := by
  rw [sharesCell, Bool.and_eq_true, beq_iff_eq, Option.isSome_iff_exists]
  constructor
  · rintro ⟨⟨cell, ha⟩, hsame⟩
    exact ⟨cell, ha, hsame ▸ ha⟩
  · rintro ⟨cell, ha, hb⟩
    exact ⟨⟨cell, ha⟩, ha.trans hb.symm⟩

/-- It does not matter which of two addresses is asked about. -/
theorem sharesCell_comm (a b : UInt32) : scheme.sharesCell a b = scheme.sharesCell b a := by
  rw [Bool.eq_iff_iff, sharesCell_iff, sharesCell_iff]
  constructor <;> exact fun ⟨cell, ha, hb⟩ => ⟨cell, hb, ha⟩

theorem sharesCell_self {addr : UInt32} {cell : Cell} (h : scheme.cell? addr = some cell) :
    scheme.sharesCell addr addr = true := sharesCell_iff.2 ⟨cell, h, h⟩

/-- A cell is no device register. -/
theorem isIo_of_cell {addr : UInt32} {cell : Cell} (h : scheme.cell? addr = some cell) :
    (scheme.locate addr).isIo = false := by
  unfold cell? at h
  cases hlocation : scheme.locate addr with
  | io offset =>
    rw [hlocation] at h
    cases h
  | workRam _ | saveRam _ | rom _ | openBus => rfl

/-- Cells of even offsets are even, wherever the scheme puts them. -/
theorem index_parity_locateIn {bank : Fin 0x80} {offset : Fin 0x10000} {cell : Cell}
    (h : (scheme.locateIn bank offset).cell? = some cell) : cell.index % 2 = offset.val % 2 := by
  have hworkRam {place : Nat} {hplace : place < 0x20000} (heven : place % 2 = offset.val % 2)
      (hcell : (Location.workRam ⟨place, hplace⟩).cell? = some cell) : cell.index % 2 = offset.val % 2 := by
    obtain rfl := Option.some.inj hcell
    exact heven
  have hsaveRam {place : Nat} (heven : place % 2 = offset.val % 2)
      (hcell : (Location.saveRam place).cell? = some cell) : cell.index % 2 = offset.val % 2 := by
    obtain rfl := Option.some.inj hcell
    show place % 0x20000 % 2 = _
    omega
  unfold locateIn at h
  split at h
  · exact hworkRam (by omega) h
  split at h
  · unfold locateSystem at h
    split at h
    · exact hworkRam rfl h
    split at h
    · cases h
    split at h
    · split at h
      · exact hsaveRam (by omega) h
      · cases h
    · cases scheme <;> cases h
  · unfold locateCartridge at h
    cases scheme with
    | hiRom => cases h
    | loRom =>
      dsimp only at h
      split at h
      · cases h
      split at h
      · exact hsaveRam (by omega) h
      · cases h

/-- Cells of even addresses are even. -/
theorem index_parity {addr : UInt32} {cell : Cell} (h : scheme.cell? addr = some cell) :
    cell.index % 2 = addr.toNat % 2 := by
  rw [index_parity_locateIn h]
  show (Address.offset addr).toNat % 0x10000 % 2 = _
  rw [Address.offset, UInt32.toNat_toUInt16]
  omega

/-- Adjacent addresses lead to different cells, also at the end of the bus. -/
theorem sharesCell_next (addr : UInt32) : scheme.sharesCell (Address.wrap (addr + 1)) addr = false := by
  rw [Bool.eq_false_iff, ne_eq, sharesCell_iff]
  rintro ⟨cell, hnext, haddr⟩
  have hparity := (index_parity hnext).symm.trans (index_parity haddr)
  rw [Address.toNat_wrap, UInt32.toNat_add] at hparity
  simp only [UInt32.reduceToNat] at hparity
  omega

end Scheme

/-! ## Single accesses -/

namespace Bus

variable {σ : Type}

/-- A memory after one of its bytes was set. -/
theorem get_set {size : Nat} (bytes : Vector UInt8 size) (i j : Fin size) (value : UInt8) :
    (bytes.set i value).get j = if i = j then value else bytes.get j := by
  show (bytes.set i value)[j.val] = if i = j then value else bytes[j.val]
  rw [Vector.getElem_set]
  simp only [Fin.ext_iff]

/-- A stored byte shows at the locations of its cell and nowhere else. -/
theorem stored_store (bus : Bus σ) (value : UInt8) (target place : Location) :
    (bus.store value target).stored place =
      if target.cell?.isSome && target.cell? == place.cell? then value else bus.stored place := by
  cases target with
  | workRam offset =>
    cases place with
    | workRam other =>
      rw [store, stored, get_set]
      simp only [Location.cell?, Option.isSome_some, Bool.true_and, beq_iff_eq, Option.some.injEq, Cell.workRam.injEq]
      rfl
    | saveRam _ | rom _ | io _ | openBus => rfl
  | saveRam offset =>
    cases place with
    | saveRam other =>
      rw [store, stored, get_set]
      simp only [Location.cell?, Option.isSome_some, Bool.true_and, beq_iff_eq, Option.some.injEq, Cell.saveRam.injEq]
      rfl
    | workRam _ | rom _ | io _ | openBus => rfl
  | rom _ | io _ | openBus => rfl

theorem store_scheme (bus : Bus σ) (value : UInt8) (place : Location) :
    (bus.store value place).scheme = bus.scheme := by
  cases place <;> rfl

/-- Callbacks reach neither the memories nor the cartridge. -/
theorem stored_writeIo [Observer σ] (bus : Bus σ) (offset : UInt16) (value : UInt8) (place : Location) :
    (bus.writeIo offset value).stored place = bus.stored place := by
  cases place <;> rfl

theorem stored_readIo (bus : Bus σ) (offset : UInt16) (place : Location) :
    (bus.readIo offset).2.stored place = bus.stored place := by
  cases place <;> rfl

@[simp] theorem read_scheme (bus : Bus σ) (addr : UInt32) : (bus.read addr).2.scheme = bus.scheme := by
  unfold read
  split <;> rfl

@[simp] theorem write_scheme [Observer σ] (bus : Bus σ) (addr : UInt32) (value : UInt8) :
    (bus.write addr value).scheme = bus.scheme := by
  unfold write
  split
  · rfl
  · exact store_scheme bus value _

/-- Reading changes nothing that is stored. -/
@[simp] theorem peek_read (bus : Bus σ) (addr other : UInt32) : (bus.read addr).2.peek other = bus.peek other := by
  rw [peek, peek, read_scheme]
  unfold read
  split
  · exact stored_readIo bus _ _
  · rfl

/-- **A write reaches the addresses of its cell and no others.** -/
theorem peek_write [Observer σ] (bus : Bus σ) (addr other : UInt32) (value : UInt8) :
    (bus.write addr value).peek other =
      if bus.scheme.sharesCell addr other then value else bus.peek other := by
  rw [peek, peek, write_scheme, Scheme.sharesCell, Scheme.cell?, Scheme.cell?, write]
  split
  · rename_i offset hio
    rw [hio]
    exact stored_writeIo bus offset value _
  · exact stored_store bus value _ _

/-- A read finds what is stored, and changes nothing, unless it is answered by a callback. -/
theorem read_eq (bus : Bus σ) {addr : UInt32} (h : (bus.scheme.locate addr).isIo = false) :
    bus.read addr = (bus.peek addr, bus) := by
  unfold read peek
  split
  · rename_i hio
    rw [hio] at h
    cases h
  · rfl

end Bus

/-! ## Many accesses -/

/-- The byte that some transfers wrote last to the cell of an address. -/
def lastWritten (scheme : Scheme) (addr : UInt32) (log : List Transfer) : Option UInt8 :=
  (log.filter fun t => t.direction = .write && scheme.sharesCell t.addr addr).getLast?.map Transfer.byte

section LastWritten

variable (scheme : Scheme) (addr : UInt32)

theorem lastWritten_read (purpose : Purpose) (other : UInt32) (byte : UInt8) (log : List Transfer) :
    lastWritten scheme addr (⟨.read, purpose, other, byte⟩ :: log) = lastWritten scheme addr log := rfl

/-- A later write goes before an earlier one. -/
theorem lastWritten_write (purpose : Purpose) (other : UInt32) (byte : UInt8) (log : List Transfer) (default : UInt8) :
    (lastWritten scheme addr (⟨.write, purpose, other, byte⟩ :: log)).getD default =
      (lastWritten scheme addr log).getD (if scheme.sharesCell other addr then byte else default) := by
  cases hshares : scheme.sharesCell other addr with
  | false => simp [lastWritten, hshares]
  | true =>
    simp only [lastWritten, List.filter_cons, hshares, decide_true, Bool.and_self, if_true, List.getLast?_cons]
    cases (log.filter fun t => t.direction = .write && scheme.sharesCell t.addr addr).getLast? <;> rfl

/-- What has no cell is never written. -/
theorem lastWritten_of_no_cell (h : scheme.cell? addr = none) (log : List Transfer) :
    lastWritten scheme addr log = none := by
  have hshares (other : UInt32) : scheme.sharesCell other addr = false := by
    rw [Bool.eq_false_iff, ne_eq, Scheme.sharesCell_iff]
    rintro ⟨cell, -, hcell⟩
    rw [h] at hcell
    cases hcell
  simp [lastWritten, hshares]

end LastWritten

section Exchange

variable {σ : Type} [Observer σ] {bus after : Bus σ} {log : List Transfer}

/-- No transfer changes the mapping scheme. -/
theorem scheme_of_exchange (h : Exchange bus log after) : after.scheme = bus.scheme := by
  induction log generalizing bus with
  | nil => rw [show after = bus from h]
  | cons t log ih =>
    obtain ⟨direction, purpose, addr, byte⟩ := t
    cases direction with
    | read => exact (ih h.2).trans (bus.read_scheme addr)
    | write => exact (ih h).trans (bus.write_scheme addr byte)

/-- **After any transfers, an address shows the byte that was written last to its cell**, and the byte that it showed
before if there is none. -/
theorem peek_of_exchange (h : Exchange bus log after) (addr : UInt32) :
    after.peek addr = (lastWritten bus.scheme addr log).getD (bus.peek addr) := by
  induction log generalizing bus with
  | nil =>
    rw [show after = bus from h]
    rfl
  | cons t log ih =>
    obtain ⟨direction, purpose, other, byte⟩ := t
    cases direction with
    | read =>
      rw [ih h.2, lastWritten_read]
      show (lastWritten (bus.read other).2.scheme addr log).getD ((bus.read other).2.peek addr) = _
      rw [Bus.read_scheme, Bus.peek_read]
    | write =>
      rw [ih h, lastWritten_write]
      show (lastWritten (bus.write other byte).scheme addr log).getD ((bus.write other byte).peek addr) = _
      rw [Bus.write_scheme, Bus.peek_write]

/-- A read in between finds what was written last before it. -/
theorem read_of_exchange {before rest : List Transfer} {purpose : Purpose} {addr : UInt32} {byte : UInt8}
    (h : Exchange bus (before ++ ⟨.read, purpose, addr, byte⟩ :: rest) after)
    (hplain : (bus.scheme.locate addr).isIo = false) :
    byte = (lastWritten bus.scheme addr before).getD (bus.peek addr) := by
  obtain ⟨between, hbefore, hread, -⟩ := h.split
  have hscheme := scheme_of_exchange hbefore
  rw [← hread, ← peek_of_exchange hbefore]
  show (between.read addr).1 = _
  rw [between.read_eq (by rw [hscheme]; exact hplain)]

end Exchange

/-! ## Calls of a host -/

/-- What a host does on a bus. -/
inductive BusCall where
  | read (addr : UInt32)
  | write (addr : UInt32) (value : UInt8)
  | readWord (addr : UInt32)
  | writeWord (addr : UInt32) (value : UInt16)
  | copy (source target : UInt32) (count : Nat)

namespace BusCall

variable {σ : Type} [Observer σ]

/-- The bus after a call. -/
def apply (call : BusCall) (bus : Bus σ) : Bus σ :=
  match call with
  | .read addr => (bus.read addr).2
  | .write addr value => bus.write addr value
  | .readWord addr => (bus.readWord addr).2
  | .writeWord addr value => bus.writeWord addr value
  | .copy source target count => bus.copy source target count

/-- The bus after some calls. -/
def applyAll (calls : List BusCall) (bus : Bus σ) : Bus σ := calls.foldl (fun bus call => call.apply bus) bus

/-- The accesses of a copy, one byte after the other. -/
def copying (source target : UInt32) : (count : Nat) → Activity Unit
  | 0 => .done ()
  | count + 1 =>
    .read .data (Address.wrap source) fun byte =>
      .write .data (Address.wrap target) byte (copying (source + 1) (target + 1) count)

/-- The accesses of a call. -/
def activity : BusCall → Activity Unit
  | .read addr => .read .data addr fun _ => .done ()
  | .write addr value => .write .data addr value (.done ())
  | .readWord addr => .read .data addr fun _ => .read .data (Address.wrap (addr + 1)) fun _ => .done ()
  | .writeWord addr value =>
    .write .data addr (Word.low value) (.write .data (Address.wrap (addr + 1)) (Word.high value) (.done ()))
  | .copy source target count => copying source target count

/-- What goes over the bus in some calls. -/
def transfersOf : List BusCall → Bus σ → List Transfer
  | [], _ => []
  | call :: calls, bus => transfers (call.activity.log bus) ++ transfersOf calls (call.apply bus)

theorem run_copying (source target : UInt32) (count : Nat) (bus : Bus σ) :
    ((copying source target count).run bus).memory = bus.copy source target count := by
  induction count generalizing source target bus with
  | zero => rfl
  | succ count ih => exact ih _ _ _

/-- A call does the accesses of its activity. -/
theorem run_activity (call : BusCall) (bus : Bus σ) : (call.activity.run bus).memory = call.apply bus := by
  cases call with
  | copy source target count => exact run_copying source target count bus
  | read _ | write _ _ | readWord _ | writeWord _ _ => rfl

/-- What goes over the bus in some calls is an exchange with it. -/
theorem exchange_calls (calls : List BusCall) (bus : Bus σ) :
    Exchange bus (transfersOf calls bus) (applyAll calls bus) := by
  induction calls generalizing bus with
  | nil => rfl
  | cons call calls ih =>
    have hcall := exchange_log call.activity bus
    rw [run_activity] at hcall
    exact hcall.append (ih (call.apply bus))

end BusCall

/-! ## Storage -/

section Storage

variable {σ : Type} [Observer σ]

/-- A word is read back if both its bytes have cells. -/
theorem readWord_writeWord (bus : Bus σ) {addr : UInt32} (value : UInt16) {low high : Cell}
    (hlow : bus.scheme.cell? addr = some low) (hhigh : bus.scheme.cell? (Address.wrap (addr + 1)) = some high) :
    ((bus.writeWord addr value).readWord addr).1 = value := by
  have hscheme : (bus.writeWord addr value).scheme = bus.scheme := by simp [Bus.writeWord]
  have hlowByte : (bus.writeWord addr value).peek addr = Word.low value := by
    simp [Bus.writeWord, Bus.peek_write, Scheme.sharesCell_next, Scheme.sharesCell_self hlow]
  have hhighByte : (bus.writeWord addr value).peek (Address.wrap (addr + 1)) = Word.high value := by
    simp [Bus.writeWord, Bus.peek_write, Scheme.sharesCell_self hhigh]
  have hreadLow := (bus.writeWord addr value).read_eq (hscheme ▸ Scheme.isIo_of_cell hlow)
  have hreadHigh := (bus.writeWord addr value).read_eq (hscheme ▸ Scheme.isIo_of_cell hhigh)
  rw [Bus.readWord, hreadLow]
  show Word.ofBytes _ ((bus.writeWord addr value).read _).1 = value
  rw [hreadHigh, hlowByte, hhighByte, Word.ofBytes_low_high]

/-- **Storage keeps the last write to each cell.** A write shows at all addresses of its cell and nowhere else. After
any calls, an address of a cell reads the byte that went last to that cell, through whichever address, and so does every
read in between; the cartridge and the open bus read as before. A word is read back where it has two cells. -/
theorem storage_keeps_last_write (bus : Bus σ) :
    (∀ (addr other : UInt32) (value : UInt8), (bus.scheme.locate other).isIo = false →
      ((bus.write addr value).read other).1 =
        (if bus.scheme.sharesCell addr other then value else (bus.read other).1) ∧
      (bus.write addr value).peek other = (if bus.scheme.sharesCell addr other then value else bus.peek other)) ∧
    (∀ calls : List BusCall,
      let after := BusCall.applyAll calls bus
      let log := BusCall.transfersOf calls bus
      (∀ addr cell, bus.scheme.cell? addr = some cell →
        (after.read addr).1 = (lastWritten bus.scheme addr log).getD (bus.read addr).1) ∧
      (∀ addr, (∃ offset, bus.scheme.locate addr = .rom offset) ∨ bus.scheme.locate addr = .openBus →
        (after.read addr).1 = (bus.read addr).1) ∧
      (∀ before purpose addr byte rest, log = before ++ ⟨.read, purpose, addr, byte⟩ :: rest →
        (bus.scheme.locate addr).isIo = false →
        byte = (lastWritten bus.scheme addr before).getD (bus.read addr).1)) ∧
    (∀ (addr : UInt32) (value : UInt16) (low high : Cell), bus.scheme.cell? addr = some low →
      bus.scheme.cell? (Address.wrap (addr + 1)) = some high →
      ((bus.writeWord addr value).readWord addr).1 = value) := by
  refine ⟨?_, ?_, fun addr value low high hlow hhigh => readWord_writeWord bus value hlow hhigh⟩
  · intro addr other value hplain
    have hafter := (bus.write addr value).read_eq ((bus.write_scheme addr value).symm ▸ hplain)
    rw [hafter, bus.read_eq hplain]
    exact ⟨bus.peek_write addr other value, bus.peek_write addr other value⟩
  · intro calls after log
    have hexchange : Exchange bus log after := BusCall.exchange_calls calls bus
    have hread (addr : UInt32) (hplain : (bus.scheme.locate addr).isIo = false) :
        (after.read addr).1 = (lastWritten bus.scheme addr log).getD (bus.read addr).1 := by
      rw [after.read_eq ((scheme_of_exchange hexchange).symm ▸ hplain), bus.read_eq hplain]
      exact peek_of_exchange hexchange addr
    refine ⟨fun addr cell hcell => hread addr (Scheme.isIo_of_cell hcell), ?_, ?_⟩
    · intro addr hfixed
      obtain ⟨hplain, hcell⟩ : (bus.scheme.locate addr).isIo = false ∧ bus.scheme.cell? addr = none := by
        rw [Scheme.cell?]
        rcases hfixed with ⟨offset, hrom⟩ | hopen
        · rw [hrom]
          exact ⟨rfl, rfl⟩
        · rw [hopen]
          exact ⟨rfl, rfl⟩
      rw [hread addr hplain, lastWritten_of_no_cell _ _ hcell]
      rfl
    · intro before purpose addr byte rest hlog hplain
      rw [bus.read_eq hplain]
      rw [hlog] at hexchange
      exact read_of_exchange hexchange hplain

end Storage

/-- Work memory through a repeated bank, battery-backed memory beyond its size, and a word at the end of the bus. -/
theorem storage_keeps_last_write_mirrors :
    let bus : Bus Runner.Console := { host := ⟨false, ""⟩ }
    let calls : List BusCall := [.write 0x700000 1, .write 0x740000 2, .write 0x750000 3]
    ((bus.write 0x7E0123 0x42).read 0x800123).1 = 0x42 ∧ ((BusCall.applyAll calls bus).read 0x700000).1 = 2 ∧
      ((bus.writeWord 0xFFFFFF 0x1234).readWord 0xFFFFFF).1 = 0x1234 := by
  intro bus calls
  obtain ⟨hwrite, hcalls, hword⟩ := storage_keeps_last_write bus
  have hshown := (hwrite 0x7E0123 0x800123 0x42 (by decide)).1
  have hlast := (hcalls calls).1 0x700000 (.saveRam 0) (by decide)
  exact ⟨hshown, hlast, hword 0xFFFFFF 0x1234 (.workRam 0x1FFFF) (.workRam 0) (by decide) (by decide)⟩

end Emu816
