import Emu816.Address
import Emu816.Cartridge.Scheme

/-!
# Address decoding

What answers at an address. The upper half of the banks repeats the lower half.

- Banks `7E` and `7F` are work memory.
- Banks `00` to `3F` are system banks: the first 8 KiB of work memory, then device registers, then cartridge space.
- All else is cartridge space, laid out by the mapping scheme.
-/

namespace Emu816

/-- What an address leads to. -/
inductive Location where
  | workRam (offset : Fin 0x20000)
  /-- Battery-backed memory, whose offsets repeat beyond its size. -/
  | saveRam (offset : Nat)
  | rom (offset : Nat)
  /-- A device register; all system banks show the same ones. -/
  | io (offset : UInt16)
  /-- Nothing. -/
  | openBus
  deriving DecidableEq

namespace Scheme

/-- Location of an offset in a system bank. -/
def locateSystem (scheme : Scheme) (bank : Fin 0x80) (offset : Fin 0x10000) : Location :=
  if h : offset.val < 0x2000 then .workRam ⟨offset.val, by omega⟩
  else if offset.val < 0x6000 then .io (UInt16.ofNat offset.val)
  else if offset.val < 0x8000 then
    if scheme = .hiRom ∧ 0x20 ≤ bank.val then .saveRam ((bank.val - 0x20) * 0x2000 + (offset.val - 0x6000)) else .openBus
  else
    match scheme with
    | .hiRom => .rom (bank.val * 0x10000 + offset.val)
    | .loRom => .rom (bank.val * 0x8000 + (offset.val - 0x8000))

/-- Location of an offset in a bank that belongs to the cartridge. -/
def locateCartridge (scheme : Scheme) (bank : Fin 0x80) (offset : Fin 0x10000) : Location :=
  match scheme with
  | .hiRom => .rom ((bank.val - 0x40) * 0x10000 + offset.val)
  | .loRom =>
    if 0x8000 ≤ offset.val then .rom (bank.val * 0x8000 + (offset.val - 0x8000))
    else if 0x70 ≤ bank.val then .saveRam ((bank.val - 0x70) * 0x8000 + offset.val)
    else .openBus

/-- Location of an offset in one of the 128 distinct banks. -/
def locateIn (scheme : Scheme) (bank : Fin 0x80) (offset : Fin 0x10000) : Location :=
  if h : 0x7E ≤ bank.val then .workRam ⟨(bank.val - 0x7E) * 0x10000 + offset.val, by omega⟩
  else if bank.val < 0x40 then scheme.locateSystem bank offset
  else scheme.locateCartridge bank offset

/-- Location of an address. Address bits that the bus does not have are ignored. -/
def locate (scheme : Scheme) (addr : UInt32) : Location :=
  scheme.locateIn (Fin.ofNat 0x80 (Address.bank (Address.wrap addr)).toNat)
    (Fin.ofNat 0x10000 (Address.offset addr).toNat)

end Scheme

end Emu816
