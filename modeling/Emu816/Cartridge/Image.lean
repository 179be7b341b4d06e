/-!
# Cartridge images

The bytes of a cartridge, from offset zero on. Where an image has no byte, nothing drives the bus and all lines read
high.
-/

namespace Emu816

/-- The value of a bus that nothing drives. -/
def openBus : UInt8 := 0xFF

/-- The contents of a cartridge. -/
abbrev Image := Array UInt8

namespace Image

/-- The byte at an offset. -/
def byteAt (image : Image) (offset : Nat) : UInt8 := image[offset]?.getD openBus

theorem getElem?_of_lt {image : Image} {offset : Nat} (h : offset < image.size) :
    image[offset]? = some (image.byteAt offset) := by
  rw [byteAt, Array.getElem?_eq_getElem h]
  rfl

/-- An image that is given byte by byte. -/
theorem byteAt_ofFn (byte : Nat → UInt8) {count offset : Nat} (h : offset < count) :
    byteAt (.ofFn fun i : Fin count => byte i.val) offset = byte offset := by
  rw [byteAt, Array.getElem?_ofFn, dif_pos h, Option.getD_some]

/-- Length of the extra block that some dumps carry in front of the image. -/
def copierHeaderSize : Nat := 512

/-- The image without the block in front of it, which shows in the length of the dump. -/
def withoutCopierHeader (image : Image) : Image :=
  if image.size % 1024 = copierHeaderSize then image.extract copierHeaderSize image.size else image

end Image

end Emu816
