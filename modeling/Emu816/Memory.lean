import Emu816.Address

/-!
# Memory on the bus

A processor sees memory only through reads and writes of single bytes. Reading may change the memory, because a device
behind an address may count its reads.
-/

namespace Emu816

/-- Something that answers the reads and takes the writes of a processor. -/
class Memory (μ : Type) where
  /-- The byte at an address, and the memory after the read. -/
  read : μ → UInt32 → UInt8 × μ
  /-- The memory after a byte is written to an address. -/
  write : μ → UInt32 → UInt8 → μ

end Emu816
