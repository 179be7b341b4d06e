/-!
# Mapping schemes

A cartridge is wired to the bus in one of two ways. Nothing in its image says in which; each way has its own place for
the header of the image.
-/

namespace Emu816

/-- How a cartridge is wired to the address lines. -/
inductive Scheme where
  /-- Pages of 32 KiB, each in the upper half of a bank. -/
  | loRom
  /-- Pages of 64 KiB that fill a bank. -/
  | hiRom
  deriving DecidableEq, Inhabited

namespace Scheme

/-- Offset of the header in the image. -/
def headerBase : Scheme → Nat
  | .loRom => 0x7FC0
  | .hiRom => 0xFFC0

/-- Name in messages. -/
def name : Scheme → String
  | .loRom => "LoRom"
  | .hiRom => "HiRom"

/-- Name in reports. -/
def title : Scheme → String
  | .loRom => "LoROM"
  | .hiRom => "HiROM"

end Scheme

end Emu816
