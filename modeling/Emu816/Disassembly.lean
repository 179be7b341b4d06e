import Emu816.Address
import Emu816.Instruction.Table
import Emu816.Status
import Emu816.Text.Hex
import Emu816.Word

/-!
# Disassembly

Instructions as an assembler writes them. The length of a constant depends on the register widths, which are given at
the start and followed through the instructions that change them.

- `Row.decode`: the instruction at an address.
- `Row.window`: the instructions from an address on.
- `Row.text`: the printed line.
-/

namespace Emu816

/-- The register widths that a listing assumes. -/
structure ListingWidths where
  narrowMemory : Bool
  narrowIndex : Bool
  deriving DecidableEq

/-- One instruction of a listing. -/
structure Row where
  addr : UInt32
  /-- The opcode and its operand bytes. -/
  bytes : List UInt8
  mnemonic : String
  /-- The operand as written, empty if there is none. -/
  operands : String
  deriving DecidableEq

/-- The operand of an instruction at an address as an assembler writes it. A branch shows its target, a block move its
source bank first, though the target bank comes first in the code. -/
def Mode.operandText (mode : Mode) (addr : UInt32) (operand : List UInt8) : String :=
  let byte : UInt8 := operand.getD 0 0
  let second : UInt8 := operand.getD 1 0
  let word := Word.ofBytes byte second
  let long := Address.ofBank (operand.getD 2 0) word
  let pc := Address.offset addr
  let byteText := "$" ++ Text.hex 2 byte.toNat
  let wordText := "$" ++ Text.hex 4 word.toNat
  let longText := "$" ++ Text.hex 6 long.toNat
  match mode with
  | .implied => ""
  | .accumulator => "A"
  | .immediate | .immediateIndex => if operand.length = 1 then "#" ++ byteText else "#" ++ wordText
  | .immediate8 => "#" ++ byteText
  | .relative8 => "$" ++ Text.hex 4 (pc + 2 + Word.signExtend byte).toNat
  | .relative16 => "$" ++ Text.hex 4 (pc + 3 + word).toNat
  | .direct => byteText
  | .directX => byteText ++ ",X"
  | .directY => byteText ++ ",Y"
  | .directIndirect => "(" ++ byteText ++ ")"
  | .directIndirectLong => "[" ++ byteText ++ "]"
  | .directXIndirect => "(" ++ byteText ++ ",X)"
  | .directIndirectY => "(" ++ byteText ++ "),Y"
  | .directIndirectLongY => "[" ++ byteText ++ "],Y"
  | .absolute => wordText
  | .absoluteX => wordText ++ ",X"
  | .absoluteY => wordText ++ ",Y"
  | .absoluteLong => longText
  | .absoluteLongX => longText ++ ",X"
  | .stackRelative => byteText ++ ",S"
  | .stackRelativeIndirectY => "(" ++ byteText ++ ",S),Y"
  | .absoluteIndirect => "(" ++ wordText ++ ")"
  | .absoluteIndirectLong => "[" ++ wordText ++ "]"
  | .absoluteXIndirect => "(" ++ wordText ++ ",X)"
  | .blockMove => "$" ++ Text.hex 2 second.toNat ++ "," ++ byteText

/-- The widths after an instruction that starts with an opcode and, perhaps, an operand byte. -/
def ListingWidths.after (widths : ListingWidths) : List UInt8 → ListingWidths
  | opcode :: mask :: _ =>
    let memory := mask &&& Status.narrowMemory != 0
    let index := mask &&& Status.narrowIndex != 0
    match (Instruction.decode opcode).mnemonic with
    | .rep => ⟨widths.narrowMemory && !memory, widths.narrowIndex && !index⟩
    | .sep => ⟨widths.narrowMemory || memory, widths.narrowIndex || index⟩
    | _ => widths
  | _ => widths

namespace Row

/-- Length of the instruction in bytes. -/
def length (row : Row) : Nat := row.bytes.length

/-- The instruction at an address, with bytes from `peek`. Its bytes lie in one bank. -/
def decode (peek : UInt32 → UInt8) (addr : UInt32) (widths : ListingWidths) : Row :=
  let addr := Address.wrap addr
  let opcode := peek addr
  let instruction := Instruction.decode opcode
  let length := instruction.mode.operandLength widths.narrowMemory widths.narrowIndex
  let operand := (List.range length).map fun i => peek (Address.advance addr (UInt16.ofNat (i + 1)))
  { addr
    bytes := opcode :: operand
    mnemonic := instruction.mnemonic.name
    operands := instruction.mode.operandText addr operand }

/-- The given number of instructions from an address on. -/
def window (peek : UInt32 → UInt8) (addr : UInt32) (widths : ListingWidths) : (count : Nat) → List Row
  | 0 => []
  | count + 1 =>
    let row := decode peek addr widths
    row :: window peek (Address.advance row.addr (UInt16.ofNat row.length)) (widths.after row.bytes) count

/-- The row as a line: address, bytes, mnemonic and operand. -/
def text (row : Row) : String :=
  let bank := Text.hex 2 (row.addr.toNat / 0x10000)
  let offset := Text.hex 4 (row.addr.toNat % 0x10000)
  let bytes := Text.padRight 11 (Text.bytesHex row.bytes)
  let operands := if row.operands.isEmpty then "" else " " ++ row.operands
  bank ++ ":" ++ offset ++ "  " ++ bytes ++ " " ++ row.mnemonic ++ operands

end Row

end Emu816
