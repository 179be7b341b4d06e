import Emu816.Cartridge.Image
import Emu816.Cartridge.Scheme
import Emu816.Word

/-!
# Cartridge headers

The 32 bytes that describe a cartridge, at the place that the mapping scheme fixes, and the evidence that they are
there.

- `Header.parse`: the header of an image that is long enough to hold it.
- `Scheme.score`: how much the bytes at a scheme's place look like a header.
- `Scheme.detect`: the scheme with the better score, `loRom` on a tie.
-/

namespace Emu816

/-- The header of a cartridge. -/
structure Header where
  /-- The scheme whose place the header was read from. -/
  scheme : Scheme
  title : String
  mapMode : UInt8
  cartridgeType : UInt8
  /-- Binary logarithm of the size of the cartridge in KiB. -/
  romSize : UInt8
  /-- Binary logarithm of the size of the battery-backed memory in KiB, or zero if there is none. -/
  sramSize : UInt8
  region : UInt8
  version : UInt8
  checksum : UInt16
  /-- The checksum with all bits inverted. -/
  complement : UInt16
  deriving DecidableEq

namespace Header

/-- Length of a header. -/
def size : Nat := 0x20

/-- Length of the title field. -/
def titleSize : Nat := 21

/-- Whether a byte is a printable ASCII character. -/
def isPrintable (byte : UInt8) : Bool := 0x20 ≤ byte && byte ≤ 0x7E

/-- The character of a title byte; bytes that cannot be printed become question marks. -/
def titleChar (byte : UInt8) : Char := if isPrintable byte then Char.ofNat byte.toNat else '?'

/-- The characters without the blanks at their end. -/
def trimEnd (chars : List Char) : List Char := (chars.reverse.dropWhile (· == ' ')).reverse

/-- The header that starts at `base`. -/
def readAt (image : Image) (scheme : Scheme) (base : Nat) : Header :=
  let byte (offset : Nat) := image.byteAt (base + offset)
  { scheme
    title := String.ofList (trimEnd ((List.range titleSize).map fun i => titleChar (byte i)))
    mapMode := byte 0x15
    cartridgeType := byte 0x16
    romSize := byte 0x17
    sramSize := byte 0x18
    region := byte 0x19
    version := byte 0x1B
    complement := Word.ofBytes (byte 0x1C) (byte 0x1D)
    checksum := Word.ofBytes (byte 0x1E) (byte 0x1F) }

/-- The header at a scheme's place, if the image reaches that far. -/
def parse (image : Image) (scheme : Scheme) : Option Header :=
  if scheme.headerBase + size ≤ image.size then some (readAt image scheme scheme.headerBase) else none

/-- Whether checksum and complement are inverses of each other. -/
def checksumPairValid (header : Header) : Bool := header.checksum ^^^ header.complement == 0xFFFF

/-- The size in bytes that a size byte stands for, in 64-bit arithmetic: bits shifted beyond the word are lost, and a
shift by the whole word gives the largest number. -/
def sizeOfExponent (exponent : UInt8) : Nat :=
  if exponent < 64 then (1024 <<< exponent.toNat) % 0x10000000000000000 else 0xFFFFFFFFFFFFFFFF

/-- Size of the cartridge in bytes. -/
def romBytes (header : Header) : Nat := sizeOfExponent header.romSize

/-- Size of the battery-backed memory in bytes. -/
def sramBytes (header : Header) : Nat := if header.sramSize = 0 then 0 else sizeOfExponent header.sramSize

end Header

namespace Scheme

/-- How much the bytes at the scheme's place look like a header: one point for a printable maker code, one for each
printable character of the game code, two for a plausible size, four for a checksum that fits its complement. -/
def score (image : Image) (scheme : Scheme) : Nat :=
  let base := scheme.headerBase
  if base + Header.size ≤ image.size then
    let header := Header.readAt image scheme base
    let printable (offset : Nat) : Nat := (Header.isPrintable (image.byteAt offset)).toNat
    printable (base - 0x10)
      + (printable (base - 0x0E) + printable (base - 0x0D) + printable (base - 0x0C) + printable (base - 0x0B))
      + (if 0x08 ≤ header.romSize && header.romSize ≤ 0x0D then 2 else 0)
      + (if header.checksumPairValid then 4 else 0)
  else 0

/-- The scheme that an image seems to be made for. -/
def detect (image : Image) : Scheme :=
  if score image .loRom < score image .hiRom then .hiRom else .loRom

end Scheme

end Emu816
