import Emu816.Bus.Io
import Emu816.Bus.Map
import Emu816.Memory
import Emu816.Notice
import Std.Data.HashMap

/-!
# The system bus

Work memory, battery-backed memory, the cartridge and the device registers behind one 24-bit address space.

- `Bus.read`, `Bus.write`: the accesses of a processor; device registers run their callbacks.
- `Bus.peek`: a look at memory that runs no callback.
- `Bus.copy`: a transfer of many bytes, each one read and written like any other.
-/

namespace Emu816

/-- Size of work memory in bytes. -/
abbrev workRamSize : Nat := 0x20000

/-- Size of battery-backed memory in bytes. -/
abbrev saveRamSize : Nat := 0x20000

/-- A bus whose device callbacks work on a host state `σ`. -/
structure Bus (σ : Type) where
  workRam : Vector UInt8 workRamSize := .replicate _ 0
  saveRam : Vector UInt8 saveRamSize := .replicate _ 0
  /-- The image in the cartridge slot. -/
  rom : Image := #[]
  scheme : Scheme := .loRom
  /-- The callbacks of the device registers. -/
  handlers : Std.HashMap UInt16 (IoHandler σ) := {}
  host : σ

/-- A save image that is too long for battery-backed memory. -/
structure SaveRamError where
  size : Nat
  deriving DecidableEq

/-- Wording of the error. -/
def SaveRamError.message (error : SaveRamError) : String :=
  s!"save RAM image is {error.size} bytes; at most {saveRamSize} fit"

namespace Bus

variable {σ : Type}

/-! ## Storage -/

/-- The index of an offset in battery-backed memory. -/
def saveIndex (offset : Nat) : Fin saveRamSize := Fin.ofNat saveRamSize offset

/-- The byte stored at a location; device registers store nothing. -/
def stored (bus : Bus σ) : Location → UInt8
  | .workRam offset => bus.workRam.get offset
  | .saveRam offset => bus.saveRam.get (saveIndex offset)
  | .rom offset => bus.rom.byteAt offset
  | .io _ | .openBus => openBus

/-- Stores a byte at a location of one of the two memories. -/
def store (bus : Bus σ) (value : UInt8) : Location → Bus σ
  | .workRam offset => { bus with workRam := bus.workRam.set offset value }
  | .saveRam offset => { bus with saveRam := bus.saveRam.set (saveIndex offset) value }
  | .rom _ | .io _ | .openBus => bus

/-- Changes the host. -/
def mapHost (bus : Bus σ) (f : σ → σ) : Bus σ := { bus with host := f bus.host }

/-- Tells the host. -/
def note [Observer σ] (bus : Bus σ) (notice : Notice) : Bus σ := bus.mapHost (Observer.note notice)

/-! ## Accesses -/

/-- Reads a device register. -/
def readIo (bus : Bus σ) (offset : UInt16) : UInt8 × Bus σ :=
  match bus with
  | ⟨workRam, saveRam, rom, scheme, handlers, host⟩ =>
    match (handlers.getD offset {}).respond offset host with
    | (answer, host) => (answer.getD (defaultIoRead offset), ⟨workRam, saveRam, rom, scheme, handlers, host⟩)

/-- Writes a device register; the host is told of a write that no callback takes. -/
def writeIo [Observer σ] (bus : Bus σ) (offset : UInt16) (value : UInt8) : Bus σ :=
  match bus with
  | ⟨workRam, saveRam, rom, scheme, handlers, host⟩ =>
    match (handlers.getD offset {}).accept offset value host with
    | (taken, host) =>
      let host := if taken then host else Observer.note (.unclaimedWrite offset value) host
      ⟨workRam, saveRam, rom, scheme, handlers, host⟩

/-- Reads a byte. -/
def read (bus : Bus σ) (addr : UInt32) : UInt8 × Bus σ :=
  match bus.scheme.locate addr with
  | .io offset => bus.readIo offset
  | location => (bus.stored location, bus)

/-- Writes a byte. -/
def write [Observer σ] (bus : Bus σ) (addr : UInt32) (value : UInt8) : Bus σ :=
  match bus.scheme.locate addr with
  | .io offset => bus.writeIo offset value
  | location => bus.store value location

instance [Observer σ] : Memory (Bus σ) where
  read := read
  write := write

/-- Reads a word, low byte first. -/
def readWord (bus : Bus σ) (addr : UInt32) : UInt16 × Bus σ :=
  let (low, bus) := bus.read addr
  let (high, bus) := bus.read (Address.wrap (addr + 1))
  (Word.ofBytes low high, bus)

/-- Writes a word, low byte first. -/
def writeWord [Observer σ] (bus : Bus σ) (addr : UInt32) (value : UInt16) : Bus σ :=
  (bus.write addr (Word.low value)).write (Address.wrap (addr + 1)) (Word.high value)

/-- The byte at an address as far as it is stored. -/
def peek (bus : Bus σ) (addr : UInt32) : UInt8 := bus.stored (bus.scheme.locate addr)

/-- Copies bytes one by one from a source to a target address, both going up and wrapping at the end of the bus. -/
def copy [Observer σ] (bus : Bus σ) (source target : UInt32) : (count : Nat) → Bus σ
  | 0 => bus
  | count + 1 =>
    match bus.read (Address.wrap source) with
    | (value, bus) => (bus.write (Address.wrap target) value).copy (source + 1) (target + 1) count

/-! ## Cartridge and battery-backed memory -/

/-- Puts an image into the cartridge slot and chooses the mapping scheme that it seems to be made for. -/
def load [Observer σ] (bus : Bus σ) (image : Image) : Bus σ :=
  let scheme := Scheme.detect image
  (({ bus with rom := image, scheme }).note (.ofDetection image)).note (.imageLoaded image.size scheme)

/-- Chooses a mapping scheme. -/
def setScheme (bus : Bus σ) (scheme : Scheme) : Bus σ := { bus with scheme }

/-- Clears work memory; all else is kept. -/
def reset (bus : Bus σ) : Bus σ := { bus with workRam := .replicate _ 0 }

/-- Fills battery-backed memory with an image and zeros after it. A longer image is refused. -/
def importSaveRam (bus : Bus σ) (image : Image) : Except SaveRamError (Bus σ) :=
  if image.size ≤ saveRamSize then
    .ok { bus with saveRam := .ofFn fun i => image[i.val]?.getD 0 }
  else .error ⟨image.size⟩

/-! ## Device registers -/

/-- Sets the callbacks of a register; earlier ones are forgotten. -/
def setHandler (bus : Bus σ) (offset : UInt16) (handler : IoHandler σ) : Bus σ :=
  { bus with handlers := bus.handlers.insert offset handler }

/-- Puts a device behind the registers `first` to `last`, none if they are in the wrong order. -/
def setDevice (bus : Bus σ) (first last : UInt16) (device : IoDevice σ) : Bus σ :=
  (List.range' first.toNat (last.toNat + 1 - first.toNat)).foldl
    (fun bus offset => bus.setHandler (UInt16.ofNat offset) (.ofDevice device)) bus

/-- Removes the callbacks of a register. -/
def clearHandler (bus : Bus σ) (offset : UInt16) : Bus σ :=
  { bus with handlers := bus.handlers.erase offset }

end Bus

end Emu816
