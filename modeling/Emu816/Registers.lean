import Emu816.Address
import Emu816.Status
import Emu816.Width
import Emu816.Word

/-!
# Programmer-visible registers

The setters keep the two mode rules of the register file:

- in emulation mode the stack pointer stays in page 1;
- while the index width bit is set, the high bytes of `X` and `Y` are zero.

Entering emulation mode also sets both width bits. The width bits may be cleared again while emulation lasts.
-/

namespace Emu816

/-- The register file; the field defaults are the state after power on. -/
structure Registers where
  /-- Accumulator with its hidden high byte. -/
  a : UInt16 := 0
  x : UInt16 := 0
  y : UInt16 := 0
  /-- Stack pointer. -/
  s : UInt16 := 0x01FF
  /-- Direct page base. -/
  d : UInt16 := 0
  /-- Program counter within the program bank. -/
  pc : UInt16 := 0
  /-- Program bank. -/
  pbr : UInt8 := 0
  /-- Data bank. -/
  dbr : UInt8 := 0
  /-- Status bits. -/
  p : UInt8 := Status.afterReset
  emulation : Bool := true
  deriving DecidableEq, Inhabited

namespace Registers

/-! ## Status -/

/-- Whether every bit of `mask` is set in the status. -/
def flag (r : Registers) (mask : UInt8) : Bool := r.p &&& mask == mask

/-- Writes the status; a set index width bit clears the high bytes of the index registers. -/
def setP (r : Registers) (value : UInt8) : Registers :=
  if value &&& Status.narrowIndex == 0 then { r with p := value }
  else { r with p := value, x := r.x &&& 0x00FF, y := r.y &&& 0x00FF }

/-- Sets or clears the bits of `mask`. -/
def setFlag (r : Registers) (mask : UInt8) (enabled : Bool) : Registers :=
  r.setP (if enabled then r.p ||| mask else r.p &&& ~~~mask)

/-- Writes a status byte taken from the stack. In emulation mode its bits 4 and 5 are not width bits, so the live
width bits are kept. -/
def restoreP (r : Registers) (value : UInt8) : Registers :=
  r.setP (if r.emulation then (value &&& ~~~Status.widths) ||| (r.p &&& Status.widths) else value)

/-! ## Widths -/

/-- Width of the accumulator and of memory operands. -/
def accumulatorWidth (r : Registers) : Width := .ofNarrow (r.p &&& Status.narrowMemory != 0)

/-- Width of the index registers. -/
def indexWidth (r : Registers) : Width := .ofNarrow (r.p &&& Status.narrowIndex != 0)

/-- Width of a register group. -/
def widthOf (r : Registers) : RegisterClass → Width
  | .accumulator => r.accumulatorWidth
  | .index => r.indexWidth

/-! ## Registers -/

/-- Writes all 16 bits of the accumulator. -/
def setA (r : Registers) (value : UInt16) : Registers := { r with a := value }

/-- The accumulator at its current width. -/
def accumulator (r : Registers) : UInt16 := r.a &&& r.accumulatorWidth.mask

/-- Writes the accumulator at its current width; a byte leaves the high byte alone. -/
def setAccumulator (r : Registers) (value : UInt16) : Registers :=
  match r.accumulatorWidth with
  | .byte => { r with a := (r.a &&& 0xFF00) ||| (value &&& 0x00FF) }
  | .word => { r with a := value }

/-- Writes `X` at the index width. -/
def setX (r : Registers) (value : UInt16) : Registers := { r with x := value &&& r.indexWidth.mask }

/-- Writes `Y` at the index width. -/
def setY (r : Registers) (value : UInt16) : Registers := { r with y := value &&& r.indexWidth.mask }

/-- Writes the stack pointer; emulation mode keeps it in page 1. -/
def setS (r : Registers) (value : UInt16) : Registers :=
  { r with s := if r.emulation then 0x0100 ||| (value &&& 0x00FF) else value }

/-- Writes the direct page base. -/
def setD (r : Registers) (value : UInt16) : Registers := { r with d := value }

/-- Writes the program counter. -/
def setPc (r : Registers) (value : UInt16) : Registers := { r with pc := value }

/-- Writes the program bank. -/
def setPbr (r : Registers) (value : UInt8) : Registers := { r with pbr := value }

/-- Writes the data bank. -/
def setDbr (r : Registers) (value : UInt8) : Registers := { r with dbr := value }

/-- Enters or leaves emulation mode. Entering narrows the registers, and emulation keeps the stack in page 1; leaving
changes no other register. -/
def setEmulation (r : Registers) (enabled : Bool) : Registers :=
  if enabled then
    let entered := { r with emulation := true }
    let narrowed := if r.emulation then entered else entered.setP (r.p ||| Status.widths)
    narrowed.setS narrowed.s
  else { r with emulation := false }

/-- Address of the next instruction byte. -/
def programAddress (r : Registers) : UInt32 := Address.ofBank r.pbr r.pc

end Registers

end Emu816
