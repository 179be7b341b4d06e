/-!
# Addresses

The bus has 24 address lines: a bank byte above a 16-bit offset. Addresses are carried in 32-bit words; `wrap` keeps
the lines that exist. `advance` moves within a bank, as the program counter does.
-/

namespace Emu816.Address

/-- Number of addresses on the bus. -/
def space : UInt32 := 0x1000000

/-- The address with the bits above the 24 bus lines dropped. -/
def wrap (addr : UInt32) : UInt32 := addr % space

/-- The address `bank:offset`. -/
def ofBank (bank : UInt8) (offset : UInt16) : UInt32 := bank.toUInt32 * 0x10000 + offset.toUInt32

/-- The bank byte. -/
def bank (addr : UInt32) : UInt8 := (addr / 0x10000).toUInt8

/-- The offset within the bank. -/
def offset (addr : UInt32) : UInt16 := addr.toUInt16

/-- The address `count` bytes further in the same bank, wrapping at the end of the bank. -/
def advance (addr : UInt32) (count : UInt16) : UInt32 := ofBank (bank addr) (offset addr + count)

end Emu816.Address
