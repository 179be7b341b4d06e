/-!
# Bytes of a word

A 16-bit word is stored low byte first. `ofBytes` joins two bytes, `low` and `high` take them apart again.
-/

namespace Emu816.Word

/-- The word with the given low and high byte. -/
def ofBytes (low high : UInt8) : UInt16 := high.toUInt16 * 0x100 + low.toUInt16

/-- Bits 0 to 7. -/
def low (value : UInt16) : UInt8 := value.toUInt8

/-- Bits 8 to 15. -/
def high (value : UInt16) : UInt8 := (value / 0x100).toUInt8

/-- The word with its two bytes exchanged. -/
def swapBytes (value : UInt16) : UInt16 := ofBytes (high value) (low value)

/-- A signed byte as the word of the same value modulo `2 ^ 16`. -/
def signExtend (offset : UInt8) : UInt16 :=
  if offset < 0x80 then offset.toUInt16 else offset.toUInt16 + 0xFF00

end Emu816.Word
