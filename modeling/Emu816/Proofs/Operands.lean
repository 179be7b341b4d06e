import Emu816.Proofs.StraightLine
import Mathlib.Data.List.Basic

/-!
# Where operands lie

An addressing mode takes operand bytes from the instruction stream, an indirect one also the bytes of a pointer in bank
0, and the place of the operand follows from these bytes and the registers.

- `cells`: transfers of bytes at a place and the places after it.
- `Width.split`, `Width.join`: a value and its bytes.
- `Mode.anchor`, `Mode.place`: where the pointer of a mode lies, and where the operand lies.
- `ensures_resolve_place`: an addressing mode finds its operand there, and accesses nothing else on its way.
-/

namespace Emu816

/-- The transfers of some bytes at a place and the places after it. -/
def cells (direction : Direction) (purpose : Purpose) : Place → List UInt8 → List Transfer
  | _, [] => []
  | place, byte :: bytes => ⟨direction, purpose, place.address, byte⟩ :: cells direction purpose place.next bytes

/-- A byte or a word, as it lies in memory. -/
def Width.split : Width → UInt16 → List UInt8
  | byte, value => [Word.low value]
  | word, value => [Word.low value, Word.high value]

/-- The word that some bytes begin with. -/
def wordOf (bytes : List UInt8) : UInt16 := Word.ofBytes (bytes.getD 0 0) (bytes.getD 1 0)

/-- The 24-bit address that some bytes begin with. -/
def longOf (bytes : List UInt8) : UInt32 := Address.ofBank (bytes.getD 2 0) (wordOf bytes)

/-- A byte or a word, from the bytes that memory holds. -/
def Width.join : Width → List UInt8 → UInt16
  | byte, bytes => (bytes.getD 0 0).toUInt16
  | word, bytes => wordOf bytes

theorem Width.join_split (width : Width) (value : UInt16) : width.join (width.split value) = value &&& width.mask := by
  cases width with
  | byte =>
    apply UInt16.toNat.inj
    rw [mask, toNat_and_lowByte, ← Word.toNat_low]
    rfl
  | word =>
    rw [and_word_mask]
    exact Word.ofBytes_low_high value

/-- Bytes are what a value made of them is taken apart into. -/
theorem Width.split_join (width : Width) {bytes : List UInt8} (h : bytes.length = width.bytes) :
    width.split (width.join bytes) = bytes := by
  cases width with
  | byte =>
    obtain ⟨byte, rfl⟩ := List.length_eq_one_iff.1 h
    exact congrArg (fun low => [low]) byte.toUInt8_toUInt16
  | word =>
    obtain ⟨low, high, rfl⟩ := List.length_eq_two.1 h
    have hlow := low.toNat_lt
    have hhigh := high.toNat_lt
    refine congrArg₂ (fun low high => [low, high]) (UInt8.toNat.inj ?_) (UInt8.toNat.inj ?_)
    · rw [Word.toNat_low]
      show (Word.ofBytes low high).toNat % 0x100 = low.toNat
      rw [Word.toNat_ofBytes]
      omega
    · rw [Word.toNat_high]
      show (Word.ofBytes low high).toNat / 0x100 = high.toNat
      rw [Word.toNat_ofBytes]
      omega

namespace Mode

/-- Number of bytes of the pointer that a mode goes through. -/
def pointerSize : Mode → Nat
  | .directIndirect | .directXIndirect | .directIndirectY | .stackRelativeIndirectY => 2
  | .directIndirectLong | .directIndirectLongY => 3
  | _ => 0

/-- The offset in bank 0 to which a mode with one operand byte leads: the operand itself, or its pointer. -/
def anchor (mode : Mode) (r : Registers) (operand : List UInt8) : UInt16 :=
  let offset := (operand.getD 0 0).toUInt16
  match mode with
  | .directX | .directXIndirect => r.d + offset + r.x
  | .directY => r.d + offset + r.y
  | .stackRelative | .stackRelativeIndirectY => r.s + offset
  | _ => r.d + offset

/-- The place of the operand of a mode, from the operand bytes and the bytes of the pointer. Offsets wrap within bank 0,
and an index goes on into the next bank. -/
def place (mode : Mode) (r : Registers) (operand pointer : List UInt8) : Place :=
  match mode with
  | .direct | .directX | .directY | .stackRelative => .bank0 (mode.anchor r operand)
  | .directIndirect | .directXIndirect => .long (Address.ofBank r.dbr (wordOf pointer))
  | .directIndirectY | .stackRelativeIndirectY =>
    .long (Address.wrap (Address.ofBank r.dbr (wordOf pointer) + r.y.toUInt32))
  | .directIndirectLong => .long (longOf pointer)
  | .directIndirectLongY => .long (Address.wrap (longOf pointer + r.y.toUInt32))
  | .absolute => .long (Address.ofBank r.dbr (wordOf operand))
  | .absoluteX => .long (Address.wrap (Address.ofBank r.dbr (wordOf operand) + r.x.toUInt32))
  | .absoluteY => .long (Address.wrap (Address.ofBank r.dbr (wordOf operand) + r.y.toUInt32))
  | .absoluteLong => .long (longOf operand)
  | .absoluteLongX => .long (Address.wrap (longOf operand + r.x.toUInt32))
  | _ => .long r.programAddress

@[simp] theorem anchor_setPc (mode : Mode) (r : Registers) (pc : UInt16) (operand : List UInt8) :
    mode.anchor (r.setPc pc) operand = mode.anchor r operand := by
  cases mode <;> rfl

/-- The place of an operand in memory does not depend on the program counter. -/
theorem place_setPc {mode : Mode} (h : mode.placeSize ≠ 0) (r : Registers) (pc : UInt16)
    (operand pointer : List UInt8) :
    mode.place (r.setPc pc) operand pointer = mode.place r operand pointer := by
  cases mode with
  | implied | accumulator | immediate | immediateIndex | immediate8 | relative8 | relative16 | absoluteIndirect
  | absoluteIndirectLong | absoluteXIndirect | blockMove => exact absurd rfl h
  | _ => rfl

end Mode

/-- A way to a place: operand bytes from the instruction stream, then pointer bytes in bank 0. -/
def LeadsTo (mode : Mode) (r : Registers) (log : List Transfer) (place : Place) (operand : List UInt8) : Prop :=
  ∃ pointer, operand.length = mode.placeSize ∧ pointer.length = mode.pointerSize ∧
    log = fetches r operand ++ cells .read .pointer (.bank0 (mode.anchor r operand)) pointer ∧
    place = mode.place r operand pointer

namespace Microcode

variable {r : Registers}

/-- **An addressing mode finds its operand** at its place, and accesses nothing but the operand bytes and the
pointer. -/
theorem ensures_resolve_place (mode : Mode) (access : Access) :
    (resolve mode access).Ensures r fun log place r' => ∃ operand,
      LeadsTo mode r (transfers log) place operand ∧ r' = r.setPc (r.pc + UInt16.ofNat operand.length) := by
  have htwo : r.pc + 1 + 1 = r.pc + UInt16.ofNat 2 := by grind
  have hthree : r.pc + 1 + 1 + 1 = r.pc + UInt16.ofNat 3 := by grind
  cases mode with
  | direct | directX | directY | stackRelative =>
    simp [resolve]
    intro offset
    exact ⟨[offset], ⟨[], rfl, rfl, by simp [fetches, cells], rfl⟩, rfl⟩
  | directIndirect | directXIndirect | stackRelativeIndirectY =>
    simp [resolve]
    intro offset low high
    exact ⟨[offset], ⟨[low, high], rfl, rfl, by simp [fetches, cells, Mode.anchor], rfl⟩, rfl⟩
  | directIndirectY =>
    cases access <;>
    · simp [resolve]
      intro offset low high
      exact ⟨[offset], ⟨[low, high], rfl, rfl, by simp [fetches, cells, Mode.anchor], rfl⟩, rfl⟩
  | directIndirectLong | directIndirectLongY =>
    simp [resolve]
    intro offset low high bank
    exact ⟨[offset], ⟨[low, high, bank], rfl, rfl, by simp [fetches, cells, Mode.anchor], rfl⟩, rfl⟩
  | absolute =>
    simp [resolve]
    intro low high
    exact ⟨[low, high], ⟨[], rfl, rfl, by simp [fetches, cells], rfl⟩, by rw [htwo]; rfl⟩
  | absoluteX | absoluteY =>
    cases access <;>
    · simp [resolve]
      intro low high
      exact ⟨[low, high], ⟨[], rfl, rfl, by simp [fetches, cells], rfl⟩, by rw [htwo]; rfl⟩
  | absoluteLong | absoluteLongX =>
    simp [resolve]
    intro low high bank
    exact ⟨[low, high, bank], ⟨[], rfl, rfl, by simp [fetches, cells], rfl⟩, by rw [hthree]; rfl⟩
  | _ =>
    simp [resolve]
    exact ⟨[], ⟨[], rfl, rfl, rfl, rfl⟩, by simp⟩

end Microcode

end Emu816
