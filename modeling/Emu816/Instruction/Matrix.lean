/-!
# Opcode matrices

Data for each of the 256 opcodes, laid out as printed opcode matrices are: sixteen rows of sixteen columns, the row
being the upper four bits of the opcode.
-/

namespace Emu816

/-- A value for each opcode. -/
abbrev OpcodeMatrix (α : Type) := Vector (Vector α 16) 16

/-- The value of an opcode. -/
def OpcodeMatrix.at {α : Type} (matrix : OpcodeMatrix α) (opcode : UInt8) : α :=
  have bound : opcode.toNat < 256 := opcode.toNat_lt
  (matrix.get ⟨opcode.toNat / 16, by omega⟩).get ⟨opcode.toNat % 16, by omega⟩

end Emu816
