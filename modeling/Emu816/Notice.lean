import Emu816.Cartridge.Header
import Emu816.Text.Hex

/-!
# Notices

What the machine tells its host beside its results. A host takes notices by being an `Observer`.
-/

namespace Emu816

/-- Weight of a notice, from heavy to light. -/
inductive Level where
  | warn
  | info
  | debug
  | trace
  deriving DecidableEq

namespace Level

/-- Short name. -/
def name : Level → String
  | .warn => "warn"
  | .info => "info"
  | .debug => "debug"
  | .trace => "trace"

/-- Name in front of a message. -/
def label : Level → String
  | .warn => "warning"
  | level => level.name

end Level

/-- Something worth telling. -/
inductive Notice where
  /-- The header places of an image were judged. -/
  | headerScores (loRom hiRom size : Nat)
  /-- An image was put into the cartridge slot. -/
  | imageLoaded (size : Nat) (scheme : Scheme)
  /-- The reset vector is blank, so execution starts at the fallback. -/
  | blankResetVector (vector fallback : UInt16)
  /-- A device register without a write callback was written. -/
  | unclaimedWrite (offset : UInt16) (value : UInt8)
  /-- A dump was relieved of the block in front of its image. -/
  | copierHeaderDropped (size : Nat)
  /-- A cartridge is ready to run. -/
  | cartridgeReady (path : String) (scheme : Scheme) (entry : UInt32)
  deriving DecidableEq

namespace Notice

/-- Weight of the notice. -/
def level : Notice → Level
  | headerScores .. | imageLoaded .. | copierHeaderDropped .. => .debug
  | blankResetVector .. => .warn
  | unclaimedWrite .. => .trace
  | cartridgeReady .. => .info

/-- Wording of the notice. -/
def text : Notice → String
  | headerScores loRom hiRom size => s!"header scores: lorom={loRom} hirom={hiRom} ({size} bytes)"
  | imageLoaded size scheme => s!"loaded {size} byte cartridge as {scheme.name}"
  | blankResetVector vector fallback =>
    s!"reset vector reads 0x{Text.hexLower 4 vector.toNat}; entering at fallback 0x{Text.hexLower 4 fallback.toNat}"
  | unclaimedWrite offset value =>
    s!"unhandled I/O write 0x{Text.hexLower 2 value.toNat} -> 0x{Text.hexLower 4 offset.toNat}"
  | copierHeaderDropped size => s!"dropped {size} byte copier header"
  | cartridgeReady path scheme entry => s!"loaded {path} as {scheme.name}, entry {Text.hex 6 entry.toNat}"

/-- The notice of a detection of the mapping scheme. -/
def ofDetection (image : Image) : Notice :=
  .headerScores (Scheme.score image .loRom) (Scheme.score image .hiRom) image.size

end Notice

/-- A host state that takes notices. -/
class Observer (σ : Type) where
  /-- The host after a notice. -/
  note : Notice → σ → σ

end Emu816
