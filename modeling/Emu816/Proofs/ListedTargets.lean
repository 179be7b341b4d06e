import Emu816.Proofs.AccessAddresses
import Emu816.Proofs.Window
import Mathlib.Data.List.Basic
import Mathlib.Algebra.GroupWithZero.Nat

/-!
# Targets in a listing

A row of a listing shows where a branch, a jump or a call leads. It computes the target from the address of the row; the
processor computes it from a program counter that has moved on. Both agree on every instruction whose target is in its
operand bytes.

- `Row.Names`: the operand of a row is a number of some hexadecimal digits.
- `decode_of_shown`: a row shows the bytes that are fetched.
- `listed_target`: the target that a row names.
-/

namespace Emu816

/-! ## Digits -/

namespace Text

theorem length_digitsWith (digit : Nat → Char) (width n : Nat) : (digitsWith digit width n).length = width := by
  induction width generalizing n with
  | zero => rfl
  | succ width ih => rw [digitsWith, List.length_append, ih, List.length_singleton]

theorem length_hex {width n : Nat} (h : hexLength n ≤ width) : (hex width n).length = width := by
  rw [hex, String.length_ofList, length_digitsWith]
  exact Nat.max_eq_left h

/-- A digit for every four bits. -/
theorem hexLength_le {n digits : Nat} (hdigits : 0 < digits) (h : n < 2 ^ (4 * digits)) : hexLength n ≤ digits := by
  have hlog : n.log2 < 4 * digits := by
    rcases Nat.eq_zero_or_pos n with rfl | hpos
    · rw [Nat.log2_zero]
      omega
    · exact (Nat.log2_lt (Nat.ne_of_gt hpos)).2 h
  rw [hexLength]
  omega

theorem hexLength_byte (value : UInt8) : hexLength value.toNat ≤ 2 := hexLength_le (by decide) value.toNat_lt

theorem hexLength_word (value : UInt16) : hexLength value.toNat ≤ 4 := hexLength_le (by decide) value.toNat_lt

theorem hexLength_long (bank : UInt8) (offset : UInt16) : hexLength (Address.ofBank bank offset).toNat ≤ 6 := by
  have hbank := bank.toNat_lt
  have hoffset := offset.toNat_lt
  refine hexLength_le (by decide) ?_
  rw [Address.toNat_ofBank]
  omega

end Text

/-- The operand of a row is a number of exactly so many digits. -/
def Row.Names (row : Row) (digits target : Nat) : Prop :=
  row.operands = "$" ++ Text.hex digits target ∧ row.operands.length = 1 + digits

theorem Row.names_of_eq {row : Row} {digits target : Nat} (h : row.operands = "$" ++ Text.hex digits target)
    (hdigits : Text.hexLength target ≤ digits) : row.Names digits target := by
  refine ⟨h, ?_⟩
  rw [h, String.length_append, Text.length_hex hdigits]
  rfl

/-! ## Rows of fetched bytes -/

/-- A row shows the bytes that are fetched, if memory shows these bytes and the row takes as many. -/
theorem decode_of_shown {peek : UInt32 → UInt8} {r : Registers} {opcode : UInt8} {operand : List UInt8}
    {widths : ListingWidths} (hshown : ∀ t ∈ fetches r (opcode :: operand), t.byte = peek t.addr)
    (hlength : operand.length =
      (Instruction.decode opcode).mode.operandLength widths.narrowMemory widths.narrowIndex) :
    Row.decode peek r.programAddress widths =
      { addr := r.programAddress
        bytes := opcode :: operand
        mnemonic := (Instruction.decode opcode).mnemonic.name
        operands := (Instruction.decode opcode).mode.operandText r.programAddress operand } := by
  have hbytes : opcode :: operand = (inBank r.pbr r.pc (operand.length + 1)).map peek := by
    have hpeek : (fetches r (opcode :: operand)).map Transfer.byte =
        ((fetches r (opcode :: operand)).map Transfer.addr).map peek := by
      rw [List.map_map]
      exact List.map_congr_left hshown
    rwa [byte_fetches, addr_fetches] at hpeek
  rw [inBank_succ, List.map_cons] at hbytes
  obtain ⟨hopcode, hoperand⟩ := List.cons_eq_cons.1 hbytes
  have hfirst : peek r.programAddress = opcode := hopcode.symm
  have hrest : ((List.range operand.length).map fun i =>
      peek (Address.advance r.programAddress (UInt16.ofNat (i + 1)))) = operand := by
    refine Eq.trans ?_ hoperand.symm
    rw [inBank, List.map_map]
    refine List.map_congr_left fun i _ => congrArg peek ?_
    have hoffset : r.pc + UInt16.ofNat (i + 1) = r.pc + 1 + UInt16.ofNat i := by
      rw [UInt16.ofNat_add]
      grind
    rw [Registers.advance_programAddress, hoffset]
    rfl
  simp only [Row.decode, Registers.wrap_programAddress, hfirst, ← hlength, hrest]

/-! ## Instructions that name their target -/

/-- The instructions of these modes and mnemonics go together. -/
theorem target_modes (opcode : UInt8) :
    ((Instruction.decode opcode).mode = .relative8 →
      (Instruction.decode opcode).mnemonic ∈ [.bpl, .bmi, .bvc, .bvs, .bcc, .bcs, .bne, .beq, .bra]) ∧
    ((Instruction.decode opcode).mnemonic ∈ [.brl, .per] → (Instruction.decode opcode).mode = .relative16) ∧
    ((Instruction.decode opcode).mnemonic = .jsl → (Instruction.decode opcode).mode = .absoluteLong) :=
  forall_byte
    (P := fun opcode =>
      ((Instruction.decode opcode).mode = .relative8 →
        (Instruction.decode opcode).mnemonic ∈ [.bpl, .bmi, .bvc, .bvs, .bcc, .bcs, .bne, .beq, .bra]) ∧
      ((Instruction.decode opcode).mnemonic ∈ [.brl, .per] → (Instruction.decode opcode).mode = .relative16) ∧
      ((Instruction.decode opcode).mnemonic = .jsl → (Instruction.decode opcode).mode = .absoluteLong))
    (by decide +kernel) opcode

/-- A branch branches on its condition. -/
theorem operation_of_branch {instruction : Instruction}
    (h : instruction.mnemonic ∈ [.bpl, .bmi, .bvc, .bvs, .bcc, .bcs, .bne, .beq, .bra]) :
    ∃ condition, instruction.operation = .branch condition ∧
      ∀ r pc, condition (r.setPc pc) = instruction.mnemonic.branches r := by
  obtain ⟨mnemonic, mode⟩ := instruction
  cases mnemonic with
  | bpl | bvc | bcc | bne =>
    refine ⟨_, rfl, fun r pc => ?_⟩
    simp [Mnemonic.branches]
  | bmi | bvs | bcs | beq =>
    refine ⟨_, rfl, fun r pc => ?_⟩
    simp [Mnemonic.branches]
  | bra => exact ⟨_, rfl, fun _ _ => rfl⟩
  | _ => simp at h

/-! ## Steps -/

/-- A relative push leaves the word that it names. -/
theorem ensures_pushRelative (mode : Mode) (r : Registers) (opcode : UInt8) :
    (Microcode.ofOperation mode .pushRelative).Ensures (r.setPc (r.pc + 1)) fun log _ _ => ∃ low high,
      ⟨.read, .code, r.programAddress, opcode⟩ :: transfers log = fetches r [opcode, low, high] ++
        pushes r (Width.word.split (r.pc + 3 + Word.ofBytes low high)).reverse := by
  have hnext : r.pc + 1 + 1 + 1 = r.pc + 3 := by grind
  simp [Microcode.ofOperation]
  intro low high
  refine ⟨low, high, ?_⟩
  simp [fetches, pushes, Width.split, hnext]

theorem step_pushRelative (cpu : Cpu) {μ : Type} [Memory μ] (memory : μ) {pbr : UInt8} {pc : UInt16} {opcode : UInt8}
    (hevent : (cpu.step memory).1.event = .executed pbr pc opcode)
    (hmnemonic : (Instruction.decode opcode).mnemonic = .per) :
    ∃ low high, cpu.transfers memory = fetches cpu.regs [opcode, low, high] ++
      pushes cpu.regs (Width.word.split (cpu.regs.pc + 3 + Word.ofBytes low high)).reverse := by
  let post (log : List Cycle) : Prop := ∃ low high, transfers log = fetches cpu.regs [opcode, low, high] ++
    pushes cpu.regs (Width.word.split (cpu.regs.pc + 3 + Word.ofBytes low high)).reverse
  have hoperation : (Instruction.decode opcode).operation = .pushRelative := by rw [Instruction.operation, hmnemonic]
  refine (Cpu.step_of_executed hevent (fun log _ => post log) ?_).2.2
  rw [hoperation]
  exact ensures_pushRelative _ cpu.regs opcode

section Targets

variable {μ : Type} [Memory μ] {cpu : Cpu} {memory : μ} {peek : UInt32 → UInt8} {widths : ListingWidths} {pbr : UInt8}
  {pc : UInt16} {opcode : UInt8}

/-- The row at the program counter, if memory shows the bytes that the step fetches. The length of the instruction must
not depend on the widths. -/
theorem listed_operand (widths : ListingWidths) (size : Nat)
    (hevent : (cpu.step memory).1.event = .executed pbr pc opcode)
    (hshown : ∀ t ∈ cpu.transfers memory, t.purpose = .code → t.byte = peek t.addr)
    (hsize : ∀ narrowMemory narrowIndex,
      (Instruction.decode opcode).mode.operandLength narrowMemory narrowIndex = size) :
    ∃ operand pointed, operand.length = size ∧
      bytesFor .code (cpu.transfers memory) = opcode :: operand ∧
      Row.decode peek cpu.regs.programAddress widths =
        { addr := cpu.regs.programAddress
          bytes := opcode :: operand
          mnemonic := (Instruction.decode opcode).mnemonic.name
          operands := (Instruction.decode opcode).mode.operandText cpu.regs.programAddress operand } ∧
      ∀ pbr pc, (Instruction.decode opcode).operation.destination cpu.regs operand pointed = some (pbr, pc) →
        (cpu.step memory).2.1.regs.pbr = pbr ∧ (cpu.step memory).2.1.regs.pc = pc := by
  obtain ⟨operand, pointed, haccesses, hleads⟩ := (step_accesses cpu memory).executed pbr pc opcode hevent
  have hlength := haccesses.length
  rw [Operation.operandSize_eq, hsize] at hlength
  have hfetched : ∀ t ∈ fetches cpu.regs (opcode :: operand), t.byte = peek t.addr := by
    intro t ht
    rw [← haccesses.code] at ht
    obtain ⟨hlog, hpurpose⟩ := List.mem_filter.1 ht
    exact hshown t hlog (of_decide_eq_true hpurpose)
  have hrow := decode_of_shown hfetched (hlength.trans (hsize widths.narrowMemory widths.narrowIndex).symm)
  have hbytes : bytesFor .code (cpu.transfers memory) = opcode :: operand := by
    rw [bytesFor, haccesses.code, byte_fetches]
  exact ⟨operand, pointed, hlength, hbytes, hrow, hleads⟩

/-- A branch names its target and goes there if it is taken, and goes on behind its row if it is not. -/
theorem listed_branch (hevent : (cpu.step memory).1.event = .executed pbr pc opcode)
    (hshown : ∀ t ∈ cpu.transfers memory, t.purpose = .code → t.byte = peek t.addr)
    (hmode : (Instruction.decode opcode).mode = .relative8) :
    let row := Row.decode peek cpu.regs.programAddress widths
    let r' := (cpu.step memory).2.1.regs
    ∃ target : UInt16, (∃ displacement, bytesFor .code (cpu.transfers memory) = [opcode, displacement] ∧
        target = cpu.regs.pc + 2 + Word.signExtend displacement) ∧
      row.Names 4 target.toNat ∧ r'.pbr = cpu.regs.pbr ∧
      ((Instruction.decode opcode).mnemonic.branches cpu.regs = true → r'.pc = target) ∧
      ((Instruction.decode opcode).mnemonic.branches cpu.regs = false →
        r'.programAddress = Address.advance row.addr (UInt16.ofNat row.length)) := by
  intro row r'
  obtain ⟨operand, pointed, hlength, hcode, hrow, hleads⟩ :=
    listed_operand widths 1 hevent hshown (fun _ _ => by rw [hmode]; rfl)
  obtain ⟨displacement, rfl⟩ := List.length_eq_one_iff.1 hlength
  obtain ⟨condition, hoperation, hcondition⟩ := operation_of_branch ((target_modes opcode).1 hmode)
  rw [hoperation] at hleads
  obtain ⟨hpbr, hpc⟩ := hleads _ _ rfl
  rw [hcondition] at hpc
  refine ⟨_, ⟨displacement, hcode, rfl⟩, Row.names_of_eq ?_ (Text.hexLength_word _), hpbr, ?_, ?_⟩
  · change (Row.decode peek cpu.regs.programAddress widths).operands = _
    rw [hrow, hmode, Mode.operandText, Registers.programAddress, Address.offset_ofBank]
    rfl
  · intro htaken
    change (cpu.step memory).2.1.regs.pc = _
    rw [hpc, htaken]
    rfl
  · intro huntaken
    change Address.ofBank (cpu.step memory).2.1.regs.pbr (cpu.step memory).2.1.regs.pc =
      Address.advance (Row.decode peek cpu.regs.programAddress widths).addr
        (UInt16.ofNat (Row.decode peek cpu.regs.programAddress widths).length)
    rw [hrow, hpbr, hpc, huntaken, Registers.advance_programAddress]
    rfl

/-- A jump or call in the program bank goes where its row says. -/
theorem listed_jump (hevent : (cpu.step memory).1.event = .executed pbr pc opcode)
    (hshown : ∀ t ∈ cpu.transfers memory, t.purpose = .code → t.byte = peek t.addr)
    (hinstruction : (Instruction.decode opcode).mnemonic = .brl ∨
      (Instruction.decode opcode).mnemonic ∈ [.jmp, .jsr] ∧ (Instruction.decode opcode).mode = .absolute) :
    let row := Row.decode peek cpu.regs.programAddress widths
    let r' := (cpu.step memory).2.1.regs
    row.Names 4 r'.pc.toNat ∧ r'.pbr = cpu.regs.pbr := by
  intro row r'
  have hsize : ∀ narrowMemory narrowIndex,
      (Instruction.decode opcode).mode.operandLength narrowMemory narrowIndex = 2 := by
    intro narrowMemory narrowIndex
    rcases hinstruction with hbrl | ⟨-, habsolute⟩
    · rw [(target_modes opcode).2.1 (by simp [hbrl])]
      rfl
    · rw [habsolute]
      rfl
  obtain ⟨operand, pointed, -, -, hrow, hleads⟩ := listed_operand widths 2 hevent hshown hsize
  have htarget : ∃ target : UInt16,
      (Instruction.decode opcode).operation.destination cpu.regs operand pointed = some (cpu.regs.pbr, target) ∧
      (Instruction.decode opcode).mode.operandText cpu.regs.programAddress operand =
        "$" ++ Text.hex 4 target.toNat := by
    rcases hinstruction with hbrl | ⟨hjumps, habsolute⟩
    · have hmode := (target_modes opcode).2.1 (by simp [hbrl])
      refine ⟨cpu.regs.pc + 3 + wordOf operand, ?_, ?_⟩
      · rw [Instruction.operation, hbrl]
        rfl
      · rw [hmode, Mode.operandText, Registers.programAddress, Address.offset_ofBank]
        rfl
    · refine ⟨wordOf operand, ?_, by rw [habsolute]; rfl⟩
      rcases List.mem_cons.1 hjumps with hjmp | hjsr
      · rw [Instruction.operation, hjmp, habsolute]
        rfl
      · rw [Instruction.operation, List.mem_singleton.1 hjsr, habsolute]
        rfl
  obtain ⟨target, hdestination, htext⟩ := htarget
  obtain ⟨hpbr, hpc⟩ := hleads _ _ hdestination
  refine ⟨Row.names_of_eq ?_ (Text.hexLength_word _), hpbr⟩
  change (Row.decode peek cpu.regs.programAddress widths).operands = "$" ++ Text.hex 4 r'.pc.toNat
  rw [hrow, htext, ← hpc]

/-- A jump or call to any bank goes where its row says. -/
theorem listed_longJump (hevent : (cpu.step memory).1.event = .executed pbr pc opcode)
    (hshown : ∀ t ∈ cpu.transfers memory, t.purpose = .code → t.byte = peek t.addr)
    (hinstruction : (Instruction.decode opcode).mnemonic = .jsl ∨
      (Instruction.decode opcode).mnemonic = .jml ∧ (Instruction.decode opcode).mode = .absoluteLong) :
    let row := Row.decode peek cpu.regs.programAddress widths
    let r' := (cpu.step memory).2.1.regs
    row.Names 6 r'.programAddress.toNat := by
  intro row r'
  have hmode : (Instruction.decode opcode).mode = .absoluteLong := by
    rcases hinstruction with hjsl | ⟨-, hlong⟩
    · exact (target_modes opcode).2.2 hjsl
    · exact hlong
  obtain ⟨operand, pointed, -, -, hrow, hleads⟩ :=
    listed_operand widths 3 hevent hshown (fun _ _ => by rw [hmode]; rfl)
  have hdestination : (Instruction.decode opcode).operation.destination cpu.regs operand pointed =
      some (operand.getD 2 0, wordOf operand) := by
    rcases hinstruction with hjsl | ⟨hjml, -⟩
    · rw [Instruction.operation, hjsl]
      rfl
    · rw [Instruction.operation, hjml, hmode]
      rfl
  obtain ⟨hpbr, hpc⟩ := hleads _ _ hdestination
  refine Row.names_of_eq ?_ (Text.hexLength_long _ _)
  change (Row.decode peek cpu.regs.programAddress widths).operands =
    "$" ++ Text.hex 6 (Address.ofBank r'.pbr r'.pc).toNat
  rw [hrow, hmode, hpbr, hpc]
  rfl

/-- A relative push leaves the word that its row names. -/
theorem listed_push (hevent : (cpu.step memory).1.event = .executed pbr pc opcode)
    (hshown : ∀ t ∈ cpu.transfers memory, t.purpose = .code → t.byte = peek t.addr)
    (hmnemonic : (Instruction.decode opcode).mnemonic = .per) :
    ∃ word : UInt16,
      transfersFor .stack (cpu.transfers memory) = pushes cpu.regs [Word.high word, Word.low word] ∧
      (Row.decode peek cpu.regs.programAddress widths).Names 4 word.toNat := by
  have hmode := (target_modes opcode).2.1 (by simp [hmnemonic])
  obtain ⟨operand, pointed, -, hcode, hrow, -⟩ :=
    listed_operand widths 2 hevent hshown (fun _ _ => by rw [hmode]; rfl)
  obtain ⟨low, high, hlog⟩ := step_pushRelative cpu memory hevent hmnemonic
  have hoperand : operand = [low, high] := by
    rw [hlog] at hcode
    simpa [bytesFor] using hcode.symm
  refine ⟨cpu.regs.pc + 3 + Word.ofBytes low high, ?_, Row.names_of_eq ?_ (Text.hexLength_word _)⟩
  · rw [hlog]
    simp [Width.split]
  · rw [hrow, hmode, hoperand, Mode.operandText, Registers.programAddress, Address.offset_ofBank]
    rfl

end Targets

/-- **A listing names the targets that execution goes to**, if memory shows the bytes that the step fetches. A branch
that is not taken goes on behind its row, in the same bank. -/
theorem listed_target (cpu : Cpu) {μ : Type} [Memory μ] (memory : μ) (peek : UInt32 → UInt8) (widths : ListingWidths)
    {pbr : UInt8} {pc : UInt16} {opcode : UInt8} (hevent : (cpu.step memory).1.event = .executed pbr pc opcode)
    (hshown : ∀ t ∈ cpu.transfers memory, t.purpose = .code → t.byte = peek t.addr) :
    let instruction := Instruction.decode opcode
    let row := Row.decode peek cpu.regs.programAddress widths
    let r' := (cpu.step memory).2.1.regs
    (instruction.mode = .relative8 →
      ∃ target : UInt16, (∃ displacement, bytesFor .code (cpu.transfers memory) = [opcode, displacement] ∧
          target = cpu.regs.pc + 2 + Word.signExtend displacement) ∧
        row.Names 4 target.toNat ∧ r'.pbr = cpu.regs.pbr ∧
        (instruction.mnemonic.branches cpu.regs = true → r'.pc = target) ∧
        (instruction.mnemonic.branches cpu.regs = false →
          r'.programAddress = Address.advance row.addr (UInt16.ofNat row.length))) ∧
    (instruction.mnemonic = .brl ∨ instruction.mnemonic ∈ [.jmp, .jsr] ∧ instruction.mode = .absolute →
      row.Names 4 r'.pc.toNat ∧ r'.pbr = cpu.regs.pbr) ∧
    (instruction.mnemonic = .jsl ∨ instruction.mnemonic = .jml ∧ instruction.mode = .absoluteLong →
      row.Names 6 r'.programAddress.toNat) ∧
    (instruction.mnemonic = .per → ∃ word : UInt16,
      transfersFor .stack (cpu.transfers memory) = pushes cpu.regs [Word.high word, Word.low word] ∧
      row.Names 4 word.toNat) := by
  intro instruction row r'
  constructor
  · exact listed_branch hevent hshown
  constructor
  · exact listed_jump hevent hshown
  constructor
  · exact listed_longJump hevent hshown
  · exact listed_push hevent hshown

/-- A branch back over the start of its bank. -/
theorem listed_target_before_start :
    let memory : FlatMemory := ⟨fun _ => 0x80⟩
    let cpu : Cpu := { regs := { pc := 0 } }
    (cpu.step memory).1.event = .executed 0 0 0x80 ∧
    (∀ t ∈ cpu.transfers memory, t.purpose = .code → t.byte = memory.bytes t.addr) ∧
    (Row.decode memory.bytes cpu.regs.programAddress ⟨true, true⟩).operands = "$FF82" ∧
    (cpu.step memory).2.1.regs.pc = 0xFF82 := by
  intro memory cpu
  have hevent : (cpu.step memory).1.event = .executed 0 0 0x80 := by decide
  have hshown : ∀ t ∈ cpu.transfers memory, t.purpose = .code → t.byte = memory.bytes t.addr := by decide
  have hmode : (Instruction.decode 0x80).mode = .relative8 := by decide
  have htaken : (Instruction.decode 0x80).mnemonic.branches cpu.regs = true := by decide
  obtain ⟨hbranch, -⟩ := listed_target cpu memory memory.bytes ⟨true, true⟩ hevent hshown
  obtain ⟨target, ⟨displacement, hcode, htarget⟩, ⟨htext, -⟩, -, hpc, -⟩ := hbranch hmode
  have hbytes : bytesFor .code (cpu.transfers memory) = [0x80, 0x80] := by decide
  rw [hbytes] at hcode
  obtain rfl : 0x80 = displacement := (List.cons_eq_cons.1 (List.cons_eq_cons.1 hcode).2).1
  have htarget : target = 0xFF82 := htarget.trans (by decide)
  rw [htarget] at htext hpc
  exact ⟨hevent, hshown, htext, hpc htaken⟩

end Emu816
