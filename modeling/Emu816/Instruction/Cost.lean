import Emu816.Instruction.Matrix

/-!
# Published instruction costs

Cycles of every opcode under the reference conditions: native mode, 8-bit registers, a direct page that starts on a
page boundary, no index that crosses a page, no branch taken. Execution does not consult this table: it counts the bus
cycles and internal cycles that it goes through.
-/

namespace Emu816.Instruction

/-- The reference costs of all opcodes. -/
def costs : OpcodeMatrix Nat := #v[
  #v[8, 6, 8, 4, 5, 3, 5, 6, 3, 2, 2, 4, 6, 4, 6, 5],
  #v[2, 5, 5, 7, 5, 4, 6, 6, 2, 4, 2, 2, 6, 4, 7, 5],
  #v[6, 6, 8, 4, 3, 3, 5, 6, 4, 2, 2, 5, 4, 4, 6, 5],
  #v[2, 5, 5, 7, 4, 4, 6, 6, 2, 4, 2, 2, 4, 4, 7, 5],
  #v[7, 6, 2, 4, 7, 3, 5, 6, 3, 2, 2, 3, 3, 4, 6, 5],
  #v[2, 5, 5, 7, 7, 4, 6, 6, 2, 4, 3, 2, 4, 4, 7, 5],
  #v[6, 6, 6, 4, 3, 3, 5, 6, 4, 2, 2, 6, 5, 4, 6, 5],
  #v[2, 5, 5, 7, 4, 4, 6, 6, 2, 4, 4, 2, 6, 4, 7, 5],
  #v[3, 6, 4, 4, 3, 3, 3, 6, 2, 2, 2, 3, 4, 4, 4, 5],
  #v[2, 6, 5, 7, 4, 4, 4, 6, 2, 5, 2, 2, 4, 5, 5, 5],
  #v[2, 6, 2, 4, 3, 3, 3, 6, 2, 2, 2, 4, 4, 4, 4, 5],
  #v[2, 5, 5, 7, 4, 4, 4, 6, 2, 4, 2, 2, 4, 4, 4, 5],
  #v[2, 6, 3, 4, 3, 3, 5, 6, 2, 2, 2, 3, 4, 4, 6, 5],
  #v[2, 5, 5, 7, 6, 4, 6, 6, 2, 4, 3, 3, 6, 4, 7, 5],
  #v[2, 6, 3, 4, 3, 3, 5, 6, 2, 2, 2, 3, 4, 4, 6, 5],
  #v[2, 5, 5, 7, 5, 4, 6, 6, 2, 4, 4, 2, 8, 4, 7, 5]]

/-- Reference cost of an opcode. -/
def baseCycles (opcode : UInt8) : Nat := costs.at opcode

/-- Cycles of a hardware interrupt entry. -/
def interruptEntryCycles : Nat := 7

/-- Cycles of a block move instruction, which moves one byte. -/
def blockMoveCycles : Nat := 7

end Emu816.Instruction
