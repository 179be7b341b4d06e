import Emu816.Proofs.CheckedImages
import Emu816.Proofs.MachineHost

/-!
# A bus on plain arrays

The memories of a bus have their sizes in their types, and its locations have offsets that fit. A plain bus has arrays
of whatever size, addresses decoded in machine words, and accesses that have no result where an index is out of range.
As it starts with arrays of the right sizes, every call on it has a result, the one of the bus, and its arrays keep
their sizes.

- `PlainBus`: such a bus; `Bus.plain`: a bus seen so.
- `PlainBus.read`, `PlainBus.write`, `PlainBus.copy`, `PlainBus.load`, `PlainBus.importSaveRam`: what may fail on it.
- `Bus.read_plain`, `Bus.write_plain` and their kin: nothing fails on the plain side of a bus.
- `Bus.call_plain`, `Bus.change_plain`: what a host does on a bus, and what it changes about one.
-/

namespace Emu816

/-! ## Arrays of any size -/

namespace Checked

/-- The element at an offset that repeats beyond the array. -/
def fetch (array : Array UInt8) (offset : Nat) : Option UInt8 := do
  let index ← slot array offset
  array[index]?

/-- The array with an element replaced. -/
def put (array : Array UInt8) (offset : Nat) (value : UInt8) : Option (Array UInt8) := do
  let index ← slot array offset
  if h : index < array.size then some (array.set index value h) else none

/-- An array with zeros behind it. -/
theorem filled_toArray {n : Nat} {array : Array UInt8} (h : array.size ≤ n) :
    array ++ Array.replicate (n - array.size) 0 = (Vector.ofFn fun i : Fin n => array[i.val]?.getD 0).toArray := by
  rw [Vector.toArray_ofFn]
  refine Array.ext ?_ fun i _ _ => ?_
  · rw [Array.size_append, Array.size_replicate, Array.size_ofFn, Nat.add_sub_cancel' h]
  · rw [Array.getElem_append, Array.getElem_ofFn]
    split
    case isTrue hin => rw [Array.getElem?_eq_getElem hin, Option.getD_some]
    case isFalse hout => rw [Array.getElem_replicate, Array.getElem?_eq_none (Nat.le_of_not_lt hout), Option.getD_none]

section Vectors

variable {n : Nat} (memory : Vector UInt8 n) {offset : Nat} {index : Fin n}

theorem slot_toArray (h : offset % n = index.val) : slot memory.toArray offset = some index.val := by
  have hn : n ≠ 0 := Nat.ne_of_gt (Nat.lt_of_le_of_lt (Nat.zero_le _) index.isLt)
  rw [slot, Vector.size_toArray, if_neg hn, h]

theorem fetch_toArray (h : offset % n = index.val) : fetch memory.toArray offset = some (memory.get index) := by
  rw [fetch, slot_toArray memory h, Option.bind_eq_bind, Option.bind_some, Vector.getElem?_toArray]
  exact Vector.getElem?_eq_getElem index.isLt

theorem put_toArray (h : offset % n = index.val) (value : UInt8) :
    put memory.toArray offset value = some (memory.set index value).toArray := by
  have hin : index.val < memory.toArray.size := by
    rw [Vector.size_toArray]
    exact index.isLt
  rw [put, slot_toArray memory h, Option.bind_eq_bind, Option.bind_some, dif_pos hin]
  rfl

end Vectors

end Checked

/-! ## The plain bus -/

/-- A bus with memories of any size. -/
structure PlainBus (σ : Type) where
  workRam : Array UInt8
  saveRam : Array UInt8
  rom : Image
  scheme : Scheme
  handlers : Std.HashMap UInt16 (IoHandler σ)
  host : σ

/-- The bus without the sizes of its memories. -/
def Bus.plain {σ : Type} (bus : Bus σ) : PlainBus σ :=
  { workRam := bus.workRam.toArray, saveRam := bus.saveRam.toArray, rom := bus.rom, scheme := bus.scheme,
    handlers := bus.handlers, host := bus.host }

namespace PlainBus

variable {σ : Type}

/-- The byte stored at a place. -/
def stored (bus : PlainBus σ) : Region × Nat → Option UInt8
  | (.workRam, offset) => Checked.fetch bus.workRam offset
  | (.saveRam, offset) => Checked.fetch bus.saveRam offset
  | (.rom, offset) => some (bus.rom.byteAt offset)
  | (.io, _) | (.openBus, _) => some openBus

/-- Stores a byte at a place. -/
def store (bus : PlainBus σ) (value : UInt8) : Region × Nat → Option (PlainBus σ)
  | (.workRam, offset) => do
    let workRam ← Checked.put bus.workRam offset value
    return { bus with workRam }
  | (.saveRam, offset) => do
    let saveRam ← Checked.put bus.saveRam offset value
    return { bus with saveRam }
  | (.rom, _) | (.io, _) | (.openBus, _) => some bus

/-- Tells the host. -/
def note [Observer σ] (bus : PlainBus σ) (notice : Notice) : PlainBus σ :=
  { bus with host := Observer.note notice bus.host }

/-- Reads a device register. -/
def readIo (bus : PlainBus σ) (offset : UInt16) : UInt8 × PlainBus σ :=
  let (answer, host) := (bus.handlers.getD offset {}).respond offset bus.host
  (answer.getD (defaultIoRead offset), { bus with host })

/-- Writes a device register. -/
def writeIo [Observer σ] (bus : PlainBus σ) (offset : UInt16) (value : UInt8) : PlainBus σ :=
  let (taken, host) := (bus.handlers.getD offset {}).accept offset value bus.host
  { bus with host := if taken then host else Observer.note (.unclaimedWrite offset value) host }

/-- Reads a byte. -/
def read (bus : PlainBus σ) (addr : UInt32) : Option (UInt8 × PlainBus σ) := do
  match ← Checked.locate bus.scheme addr with
  | (.io, offset) => return bus.readIo offset.toUInt16
  | place => do
    let byte ← bus.stored place
    return (byte, bus)

/-- Writes a byte. -/
def write [Observer σ] (bus : PlainBus σ) (addr : UInt32) (value : UInt8) : Option (PlainBus σ) := do
  match ← Checked.locate bus.scheme addr with
  | (.io, offset) => return bus.writeIo offset.toUInt16 value
  | place => bus.store value place

/-- The byte at an address as far as it is stored. -/
def peek (bus : PlainBus σ) (addr : UInt32) : Option UInt8 := do
  let place ← Checked.locate bus.scheme addr
  bus.stored place

/-- Reads a word, low byte first. -/
def readWord (bus : PlainBus σ) (addr : UInt32) : Option (UInt16 × PlainBus σ) := do
  let (low, bus) ← bus.read addr
  let (high, bus) ← bus.read (Address.wrap (addr + 1))
  return (Word.ofBytes low high, bus)

/-- Writes a word, low byte first. -/
def writeWord [Observer σ] (bus : PlainBus σ) (addr : UInt32) (value : UInt16) : Option (PlainBus σ) := do
  let bus ← bus.write addr (Word.low value)
  bus.write (Address.wrap (addr + 1)) (Word.high value)

/-- Copies bytes one by one. -/
def copy [Observer σ] (bus : PlainBus σ) (source target : UInt32) : (count : Nat) → Option (PlainBus σ)
  | 0 => some bus
  | count + 1 => do
    let (value, bus) ← bus.read (Address.wrap source)
    let bus ← bus.write (Address.wrap target) value
    bus.copy (source + 1) (target + 1) count

/-- Puts an image into the cartridge slot and chooses the scheme with the better score. -/
def load [Observer σ] (bus : PlainBus σ) (image : Image) : Option (PlainBus σ) := do
  let loRom ← Checked.score image .loRom
  let hiRom ← Checked.score image .hiRom
  let scheme := if loRom < hiRom then .hiRom else .loRom
  return (({ bus with rom := image, scheme }).note (.headerScores loRom hiRom image.size)).note
    (.imageLoaded image.size scheme)

/-- Clears work memory. -/
def reset (bus : PlainBus σ) : PlainBus σ := { bus with workRam := .replicate bus.workRam.size 0 }

/-- Fills the start of battery-backed memory with an image and the rest with zeros. -/
def importSaveRam (bus : PlainBus σ) (image : Image) : Option (Except SaveRamError (PlainBus σ)) :=
  if saveRamSize < image.size then some (.error ⟨image.size⟩)
  else do
    let rest ← Checked.sub bus.saveRam.size image.size
    return .ok { bus with saveRam := image ++ Array.replicate rest 0 }

/-- Does what a host does on a bus. -/
def call [Observer σ] (bus : PlainBus σ) : BusCall → Option (MachineReply × PlainBus σ)
  | .read addr => do
    let (byte, bus) ← bus.read addr
    return (.byte byte, bus)
  | .write addr value => do
    let bus ← bus.write addr value
    return (.done, bus)
  | .readWord addr => do
    let (word, bus) ← bus.readWord addr
    return (.word word, bus)
  | .writeWord addr value => do
    let bus ← bus.writeWord addr value
    return (.done, bus)
  | .copy source target count => do
    let bus ← bus.copy source target count
    return (.done, bus)

/-- Does what a host changes about a bus. New contents of battery-backed memory must be as long as the old ones. -/
def change (bus : PlainBus σ) : BusChange σ → Option (PlainBus σ)
  | .put other => some other.plain
  | .setScheme scheme => some { bus with scheme }
  | .setSaveRam contents =>
    if contents.toArray.size = bus.saveRam.size then some { bus with saveRam := contents.toArray } else none
  | .setHandler offset handler => some { bus with handlers := bus.handlers.insert offset handler }
  | .setDevice first last device =>
    some
      { bus with
        handlers := (List.range' first.toNat (last.toNat + 1 - first.toNat)).foldl
          (fun handlers offset => handlers.insert (UInt16.ofNat offset) (.ofDevice device)) bus.handlers }
  | .clearHandler offset => some { bus with handlers := bus.handlers.erase offset }
  | .host f => some { bus with host := f bus.host }

end PlainBus

/-! ## Calls on the plain side of a bus -/

namespace Bus

variable {σ : Type} (bus : Bus σ)

theorem stored_plain (location : Location) : bus.plain.stored location.place = some (bus.stored location) := by
  cases location with
  | workRam offset => exact Checked.fetch_toArray bus.workRam (Nat.mod_eq_of_lt offset.isLt)
  | saveRam offset => exact Checked.fetch_toArray bus.saveRam rfl
  | rom _ | io _ | openBus => rfl

theorem store_plain (value : UInt8) (location : Location) :
    bus.plain.store value location.place = some (bus.store value location).plain := by
  cases location with
  | workRam offset =>
    have hput := Checked.put_toArray bus.workRam (Nat.mod_eq_of_lt offset.isLt) value
    exact congrArg (Option.bind · _) hput
  | saveRam offset => exact congrArg (Option.bind · _) (Checked.put_toArray bus.saveRam rfl value)
  | rom _ | io _ | openBus => rfl

theorem read_plain (addr : UInt32) : bus.plain.read addr = some ((bus.read addr).1, (bus.read addr).2.plain) := by
  have hstored := bus.stored_plain (bus.scheme.locate addr)
  rw [PlainBus.read, show bus.plain.scheme = bus.scheme from rfl, Checked.locate_eq, Option.bind_eq_bind,
    Option.bind_some, read]
  cases hlocation : bus.scheme.locate addr with
  | io offset =>
    show some (bus.plain.readIo offset.toNat.toUInt16) = _
    rw [show offset.toNat.toUInt16 = offset from UInt16.ofNat_toNat]
    rfl
  | workRam _ | saveRam _ | rom _ | openBus =>
    rw [hlocation] at hstored
    exact congrArg (Option.bind · fun byte => some (byte, bus.plain)) hstored

theorem peek_plain (addr : UInt32) : bus.plain.peek addr = some (bus.peek addr) := by
  rw [PlainBus.peek, show bus.plain.scheme = bus.scheme from rfl, Checked.locate_eq]
  exact bus.stored_plain (bus.scheme.locate addr)

theorem readWord_plain (addr : UInt32) :
    bus.plain.readWord addr = some ((bus.readWord addr).1, (bus.readWord addr).2.plain) := by
  simp only [PlainBus.readWord, read_plain, Option.bind_eq_bind, Option.bind_some, Option.pure_def]
  rfl

theorem importSaveRam_plain (image : Image) :
    bus.plain.importSaveRam image = some ((bus.importSaveRam image).map plain) := by
  have hsize : bus.plain.saveRam.size = saveRamSize := bus.saveRam.size_toArray
  by_cases hfits : image.size ≤ saveRamSize
  · rw [PlainBus.importSaveRam, if_neg (Nat.not_lt_of_le hfits), hsize, Checked.sub_of_le hfits, Option.bind_eq_bind,
      Option.bind_some, Checked.filled_toArray hfits, importSaveRam, if_pos hfits]
    rfl
  · rw [PlainBus.importSaveRam, if_pos (Nat.lt_of_not_le hfits), importSaveRam, if_neg hfits]
    rfl

theorem setDevice_plain (first last : UInt16) (device : IoDevice σ) :
    (bus.setDevice first last device).plain =
      { bus.plain with
        handlers := (List.range' first.toNat (last.toNat + 1 - first.toNat)).foldl
          (fun handlers offset => handlers.insert (UInt16.ofNat offset) (.ofDevice device)) bus.handlers } := by
  rw [setDevice]
  induction List.range' first.toNat (last.toNat + 1 - first.toNat) generalizing bus with
  | nil => rfl
  | cons offset offsets ih => exact ih (bus.setHandler (UInt16.ofNat offset) (.ofDevice device))

theorem reset_plain : bus.plain.reset = bus.reset.plain := by
  rw [PlainBus.reset, show bus.plain.workRam.size = workRamSize from bus.workRam.size_toArray]
  rfl

theorem change_plain (change : BusChange σ) : bus.plain.change change = some (change.apply bus).plain := by
  cases change with
  | setSaveRam contents => exact if_pos (contents.size_toArray.trans bus.saveRam.size_toArray.symm)
  | setDevice first last device => exact congrArg some (bus.setDevice_plain first last device).symm
  | put _ | setScheme _ | setHandler _ _ | clearHandler _ | host _ => rfl

variable [Observer σ]

theorem write_plain (addr : UInt32) (value : UInt8) :
    bus.plain.write addr value = some (bus.write addr value).plain := by
  have hstore := bus.store_plain value (bus.scheme.locate addr)
  rw [PlainBus.write, show bus.plain.scheme = bus.scheme from rfl, Checked.locate_eq, Option.bind_eq_bind,
    Option.bind_some, write]
  cases hlocation : bus.scheme.locate addr with
  | io offset =>
    show some (bus.plain.writeIo offset.toNat.toUInt16 value) = _
    rw [show offset.toNat.toUInt16 = offset from UInt16.ofNat_toNat]
    rfl
  | workRam _ | saveRam _ | rom _ | openBus =>
    rw [hlocation] at hstore
    exact hstore

theorem writeWord_plain (addr : UInt32) (value : UInt16) :
    bus.plain.writeWord addr value = some (bus.writeWord addr value).plain := by
  simp only [PlainBus.writeWord, write_plain, Option.bind_eq_bind, Option.bind_some]
  rfl

theorem copy_plain (source target : UInt32) (count : Nat) :
    bus.plain.copy source target count = some (bus.copy source target count).plain := by
  induction count generalizing bus source target with
  | zero => rfl
  | succ count ih =>
    simp only [PlainBus.copy, read_plain, write_plain, ih, Option.bind_eq_bind, Option.bind_some]
    rfl

theorem load_plain (image : Image) : bus.plain.load image = some (bus.load image).plain := by
  simp only [PlainBus.load, Checked.score_eq, Option.bind_eq_bind, Option.bind_some, Option.pure_def]
  rfl

/-- Every call on a bus has its reply. -/
theorem call_plain (call : BusCall) : bus.plain.call call = some (call.reply bus, (call.apply bus).plain) := by
  cases call with
  | read addr =>
    rw [PlainBus.call, read_plain]
    rfl
  | write addr value =>
    rw [PlainBus.call, write_plain]
    rfl
  | readWord addr =>
    rw [PlainBus.call, readWord_plain]
    rfl
  | writeWord addr value =>
    rw [PlainBus.call, writeWord_plain]
    rfl
  | copy source target count =>
    rw [PlainBus.call, copy_plain]
    rfl

end Bus

end Emu816
