import Emu816.Disassembly
import Emu816.Proofs.Costs
import Emu816.Proofs.Effects
import Emu816.Proofs.Steps

/-!
# Straight-line code

An instruction that does not jump, does not change the mode and takes no width from the stack leaves the program at the
next instruction, with the widths that a listing goes on with.

- `Registers.listingWidths`: the widths that a listing assumes; masks of status bits as facts on widths.
- `Registers.InLine`: the program counter, its bank and the widths stay.
- `fetches`, `Consumes`: a log that begins with the bytes at the program counter.
- `Operation.operandSize_eq`: an operation takes as many bytes as the addressing mode of its opcode has.
- `ensures_instruction_advances`: what every course of an instruction in line does.
-/

namespace Emu816

/-! ## Widths of a listing -/

/-- The widths that a status byte means. -/
def Status.listingWidths (p : UInt8) : ListingWidths :=
  ⟨p &&& Status.narrowMemory != 0, p &&& Status.narrowIndex != 0⟩

/-- The widths are two bits of the status byte. -/
theorem Status.listingWidths_eq (p : UInt8) :
    Status.listingWidths p = ⟨p.toBitVec.getLsbD 5, p.toBitVec.getLsbD 4⟩ :=
  forall_byte (P := fun p => Status.listingWidths p = ⟨p.toBitVec.getLsbD 5, p.toBitVec.getLsbD 4⟩)
    (by decide +kernel) p

theorem Status.listingWidths_or (p mask : UInt8) :
    Status.listingWidths (p ||| mask) =
      ⟨(Status.listingWidths p).narrowMemory || (Status.listingWidths mask).narrowMemory,
        (Status.listingWidths p).narrowIndex || (Status.listingWidths mask).narrowIndex⟩ := by
  simp [Status.listingWidths_eq]

theorem Status.listingWidths_and_not (p mask : UInt8) :
    Status.listingWidths (p &&& ~~~mask) =
      ⟨(Status.listingWidths p).narrowMemory && !(Status.listingWidths mask).narrowMemory,
        (Status.listingWidths p).narrowIndex && !(Status.listingWidths mask).narrowIndex⟩ := by
  simp [Status.listingWidths_eq]

/-- A mask without width bits. -/
theorem Status.listingWidths_of_disjoint {mask : UInt8} (h : mask &&& Status.widths = 0) :
    Status.listingWidths mask = ⟨false, false⟩ :=
  forall_byte (P := fun mask => mask &&& Status.widths = 0 → Status.listingWidths mask = ⟨false, false⟩)
    (by decide +kernel) mask h

namespace Registers

/-- The widths that a listing assumes at the program counter. -/
def listingWidths (r : Registers) : ListingWidths := ⟨r.accumulatorWidth == .byte, r.indexWidth == .byte⟩

theorem listingWidths_eq (r : Registers) : r.listingWidths = Status.listingWidths r.p := by
  have hnarrow (narrow : Bool) : (Width.ofNarrow narrow == .byte) = narrow := by cases narrow <;> rfl
  simp only [listingWidths, accumulatorWidth, indexWidth, hnarrow, Status.listingWidths]

@[simp] theorem listingWidths_setPc (r : Registers) (pc : UInt16) : (r.setPc pc).listingWidths = r.listingWidths := rfl

@[simp] theorem listingWidths_setP (r : Registers) (value : UInt8) :
    (r.setP value).listingWidths = Status.listingWidths value := by
  rw [listingWidths_eq, setP_p]

/-! ## Registers in line -/

/-- The program goes on at the same place and with the same widths. -/
structure InLine (r r' : Registers) : Prop where
  pc : r'.pc = r.pc
  pbr : r'.pbr = r.pbr
  widths : r'.listingWidths = r.listingWidths

theorem InLine.refl (r : Registers) : InLine r r := ⟨rfl, rfl, rfl⟩

theorem InLine.trans {r r' r'' : Registers} (h : InLine r r') (h' : InLine r' r'') : InLine r r'' :=
  ⟨h'.pc.trans h.pc, h'.pbr.trans h.pbr, h'.widths.trans h.widths⟩

/-- Bits that are no width bits may be written. -/
theorem inLine_setFlag (r : Registers) (mask : UInt8) (enabled : Bool) (h : mask &&& Status.widths = 0) :
    InLine r (r.setFlag mask enabled) := by
  refine ⟨setP_pc r _, setP_pbr r _, ?_⟩
  have hmask := Status.listingWidths_of_disjoint h
  rw [setFlag, listingWidths_setP, listingWidths_eq]
  cases enabled with
  | false => simp [Status.listingWidths_and_not, hmask]
  | true => simp [Status.listingWidths_or, hmask]

theorem inLine_setS (r : Registers) (value : UInt16) : InLine r (r.setS value) := ⟨rfl, rfl, rfl⟩

theorem inLine_tolerant : Tolerant InLine where
  refl := InLine.refl
  trans := InLine.trans
  setA _ _ := ⟨rfl, rfl, rfl⟩
  setX _ _ := ⟨rfl, rfl, rfl⟩
  setY _ _ := ⟨rfl, rfl, rfl⟩
  setS := inLine_setS
  setD _ _ := ⟨rfl, rfl, rfl⟩
  setDbr _ _ := ⟨rfl, rfl, rfl⟩
  setFlag := inLine_setFlag

end Registers

/-! ## Operand bytes -/

/-- The transfers that fetch bytes in order. -/
def fetches : Registers → List UInt8 → List Transfer
  | _, [] => []
  | r, byte :: bytes => ⟨.read, .code, r.programAddress, byte⟩ :: fetches (r.setPc (r.pc + 1)) bytes

/-- Where bytes are fetched follows from the program counter and its bank. -/
theorem fetches_congr {r r' : Registers} (hpbr : r'.pbr = r.pbr) (hpc : r'.pc = r.pc) (bytes : List UInt8) :
    fetches r' bytes = fetches r bytes := by
  induction bytes generalizing r r' with
  | nil => rfl
  | cons byte bytes ih =>
    have hrest : fetches (r'.setPc (r'.pc + 1)) bytes = fetches (r.setPc (r.pc + 1)) bytes :=
      ih hpbr (congrArg (· + 1) hpc)
    rw [fetches, fetches, hrest, Registers.programAddress, hpbr, hpc]
    rfl

theorem fetches_append (r : Registers) (first rest : List UInt8) :
    fetches r (first ++ rest) = fetches r first ++ fetches (r.setPc (r.pc + UInt16.ofNat first.length)) rest := by
  induction first generalizing r with
  | nil =>
    rw [List.nil_append, List.length_nil, show r.pc + UInt16.ofNat 0 = r.pc from UInt16.add_zero _, Registers.setPc_self]
    rfl
  | cons byte first ih =>
    rw [List.cons_append, fetches, fetches, ih, List.cons_append, Registers.setPc_setPc, Registers.setPc_pc,
      List.length_cons, UInt16.ofNat_add, UInt16.add_assoc, UInt16.add_comm (UInt16.ofNat first.length)]
    rfl

/-- Code goes on behind some of its bytes. -/
theorem mem_fetches_append {r r' : Registers} (first : List UInt8) {rest : List UInt8} (hpbr : r'.pbr = r.pbr)
    (hpc : r'.pc = r.pc + UInt16.ofNat first.length) {fetch : Transfer} (h : fetch ∈ fetches r' rest) :
    fetch ∈ fetches r (first ++ rest) := by
  have hrest : fetches r' rest = fetches (r.setPc (r.pc + UInt16.ofNat first.length)) rest :=
    fetches_congr (r := r.setPc (r.pc + UInt16.ofNat first.length)) hpbr hpc rest
  rw [hrest] at h
  rw [fetches_append]
  exact List.mem_append_right _ h

/-- Code goes on behind an opcode. -/
theorem mem_fetches_cons {r r' : Registers} {opcode : UInt8} {code : List UInt8} (hpbr : r'.pbr = r.pbr)
    (hpc : r'.pc = r.pc + 1) {fetch : Transfer} (h : fetch ∈ fetches r' code) :
    fetch ∈ fetches r (opcode :: code) :=
  mem_fetches_append [opcode] hpbr hpc h

/-- The log begins with the fetch of `count` bytes, and the program goes on in line behind them. -/
def Consumes (r : Registers) (count : Nat) (log : List Cycle) (r' : Registers) : Prop :=
  ∃ bytes rest, bytes.length = count ∧ transfers log = fetches r bytes ++ rest ∧
    (r.setPc (r.pc + UInt16.ofNat count)).InLine r'

section Consumes

variable {r r' r'' : Registers} {count : Nat} {log : List Cycle}

/-- What comes after the bytes stays in line. -/
theorem Consumes.append (h : Consumes r count log r') (hline : r'.InLine r'') (log' : List Cycle) :
    Consumes r count (log ++ log') r'' := by
  obtain ⟨bytes, rest, hlength, hlog, hfirst⟩ := h
  refine ⟨bytes, rest ++ transfers log', hlength, ?_, hfirst.trans hline⟩
  rw [transfers_append, hlog, List.append_assoc]

theorem Consumes.then (h : Consumes r count log r') (hline : r'.InLine r'') : Consumes r count log r'' := by
  have happend := h.append hline []
  rwa [List.append_nil] at happend

theorem consumes_zero (h : r.InLine r') (log : List Cycle) : Consumes r 0 log r' := by
  refine ⟨[], transfers log, rfl, rfl, ?_⟩
  simpa [Registers.setPc] using h

theorem consumes_one (byte : UInt8) (log : List Cycle) :
    Consumes r 1 (.read .code r.programAddress byte :: log) (r.setPc (r.pc + 1)) :=
  ⟨[byte], transfers log, rfl, rfl, .refl _⟩

theorem consumes_two (low high : UInt8) (log : List Cycle) :
    Consumes r 2 (.read .code r.programAddress low :: .read .code (r.setPc (r.pc + 1)).programAddress high :: log)
      (r.setPc (r.pc + 1 + 1)) := by
  refine ⟨[low, high], transfers log, rfl, rfl, ?_⟩
  have hpc : r.pc + 1 + 1 = r.pc + UInt16.ofNat 2 := by grind
  rw [hpc]
  exact .refl _

theorem consumes_three (low high bank : UInt8) (log : List Cycle) :
    Consumes r 3
      (.read .code r.programAddress low :: .read .code (r.setPc (r.pc + 1)).programAddress high ::
        .read .code (r.setPc (r.pc + 1 + 1)).programAddress bank :: log)
      (r.setPc (r.pc + 1 + 1 + 1)) := by
  refine ⟨[low, high, bank], transfers log, rfl, rfl, ?_⟩
  have hpc : r.pc + 1 + 1 + 1 = r.pc + UInt16.ofNat 3 := by grind
  rw [hpc]
  exact .refl _

end Consumes

/-- Operand bytes that an addressing mode takes on the way to a place in memory. -/
def Mode.placeSize : Mode → Nat
  | .direct | .directX | .directY | .directIndirect | .directIndirectLong | .directXIndirect | .directIndirectY
  | .directIndirectLongY | .stackRelative | .stackRelativeIndirectY => 1
  | .absolute | .absoluteX | .absoluteY => 2
  | .absoluteLong | .absoluteLongX => 3
  | _ => 0

/-- Bytes of a constant for a register group. -/
def ListingWidths.size (widths : ListingWidths) : RegisterClass → Nat
  | .accumulator => if widths.narrowMemory then 1 else 2
  | .index => if widths.narrowIndex then 1 else 2

/-- A constant has as many bytes as the registers of its group. -/
theorem Registers.size_listingWidths (r : Registers) (group : RegisterClass) :
    r.listingWidths.size group = (r.widthOf group).bytes := by
  cases group with
  | accumulator => cases hwidth : r.accumulatorWidth <;>
    simp [ListingWidths.size, listingWidths, widthOf, Width.bytes, hwidth]
  | index => cases hwidth : r.indexWidth <;>
    simp [ListingWidths.size, listingWidths, widthOf, Width.bytes, hwidth]

/-- Operand bytes that an operation takes. -/
def Operation.operandSize (mode : Mode) (widths : ListingWidths) : Operation → Nat
  | load group _ => if mode = .immediate ∨ mode = .immediateIndex then widths.size group else mode.placeSize
  | store _ _ | modify _ => mode.placeSize
  | internal _ _ | push _ _ | pull _ _ | ret | retLong | retInterrupt | rest _ => 0
  | maskStatus _ | branch _ | pushIndirect | interrupt _ | skip => 1
  | branchLong | pushConstant | pushRelative | jump | jumpIndirect | jumpIndexed | jumpLongIndirect | call
  | callIndexed | blockMove _ => 2
  | jumpLong | callLong => 3

/-- **An operation takes as many bytes as the addressing mode of its opcode has.** -/
theorem Operation.operandSize_eq (opcode : UInt8) (widths : ListingWidths) :
    (Instruction.decode opcode).operation.operandSize (Instruction.decode opcode).mode widths =
      (Instruction.decode opcode).mode.operandLength widths.narrowMemory widths.narrowIndex :=
  forall_byte
    (P := fun opcode => ∀ narrowMemory narrowIndex : Bool,
      (Instruction.decode opcode).operation.operandSize (Instruction.decode opcode).mode ⟨narrowMemory, narrowIndex⟩ =
        (Instruction.decode opcode).mode.operandLength narrowMemory narrowIndex)
    (by decide +kernel) opcode widths.narrowMemory widths.narrowIndex

/-! ## Operations in line -/

namespace Microcode

variable {r : Registers}

theorem consumes_resolve (mode : Mode) (access : Access) :
    (resolve mode access).Ensures r fun log _ r' => Consumes r mode.placeSize log r' := by
  cases mode with
  | direct | directX | directY | directIndirect | directIndirectLong | directXIndirect | directIndirectLongY
  | stackRelative | stackRelativeIndirectY =>
    simp [resolve, Mode.placeSize]
    intros
    exact consumes_one _ _
  | directIndirectY =>
    cases access <;> simp [resolve, Mode.placeSize] <;> intros <;> exact consumes_one _ _
  | absolute =>
    simp [resolve, Mode.placeSize]
    intros
    exact consumes_two _ _ _
  | absoluteX | absoluteY =>
    cases access <;> simp [resolve, Mode.placeSize] <;> intros <;> exact consumes_two _ _ _
  | absoluteLong | absoluteLongX =>
    simp [resolve, Mode.placeSize]
    intros
    exact consumes_three _ _ _ _
  | _ => exact consumes_zero (.refl r) []

theorem consumes_fetchWidth (group : RegisterClass) :
    (fetchWidth (r.widthOf group)).Ensures r fun log _ r' => Consumes r (r.listingWidths.size group) log r' := by
  rw [Registers.size_listingWidths]
  cases r.widthOf group with
  | byte =>
    simp [fetchWidth, Width.bytes]
    exact fun byte => consumes_one byte []
  | word =>
    simp [fetchWidth, Width.bytes]
    exact fun low high => consumes_two low high []

theorem unchanged_readAt (place : Place) (width : Width) : (readAt place width).Ensures r fun _ _ r' => r' = r := by
  cases width <;> simp [readAt]

theorem unchanged_writeAt (place : Place) (width : Width) (value : UInt16) :
    (writeAt place width value).Ensures r fun _ _ r' => r' = r := by
  cases width <;> simp [writeAt]

theorem consumes_readOperand (mode : Mode) (group : RegisterClass) :
    (readOperand mode (r.widthOf group)).Ensures r fun log _ r' =>
      Consumes r
        (if mode = .immediate ∨ mode = .immediateIndex then r.listingWidths.size group else mode.placeSize) log r' := by
  by_cases hconstant : mode = .immediate ∨ mode = .immediateIndex
  · rw [readOperand_of_constant hconstant, if_pos hconstant]
    exact consumes_fetchWidth group
  · rw [readOperand_of_place hconstant, if_neg hconstant, ensures_bind]
    refine (consumes_resolve mode .read).mono ?_
    intro log place r' hplace
    refine (unchanged_readAt place _).mono ?_
    rintro log' value r'' rfl
    exact hplace.append (.refl r'') log'

theorem inLine_pushWidth (width : Width) (value : UInt16) :
    (pushWidth width value).Ensures r fun _ _ r' => r.InLine r' := by
  cases width with
  | byte =>
    simp [pushWidth]
    exact Registers.inLine_setS r _
  | word =>
    simp [pushWidth]
    exact Registers.inLine_setS r _

theorem inLine_pullWidth (width : Width) : (pullWidth width).Ensures r fun _ _ r' => r.InLine r' := by
  cases width with
  | byte =>
    simp [pullWidth]
    exact Registers.inLine_setS r _
  | word =>
    simp [pullWidth]
    exact Registers.inLine_setS r _

end Microcode

/-- Whether an operation with the given registers behind its opcode leaves the program in line, if its function does. -/
def Operation.goesOn (r : Registers) : Operation → Bool
  | load _ _ | store _ _ | modify _ | internal _ _ | push _ _ | pull _ _ | pushConstant | pushIndirect | pushRelative
  | skip => true
  | branch condition => !condition r
  | _ => false

open Microcode in
theorem consumes_ofOperation {operation : Operation} {r : Registers} (heffects : operation.Effects Registers.InLine)
    (hgoesOn : operation.goesOn r = true) (mode : Mode) :
    (ofOperation mode operation).Ensures r fun log _ r' =>
      Consumes r (operation.operandSize mode r.listingWidths) log r' := by
  cases operation with
  | load group effect =>
    simp only [ofOperation, ensures_bind, ensures_get, ensures_modify, List.nil_append, List.append_nil]
    refine (consumes_readOperand mode group).mono ?_
    intro log value r' hoperand
    exact hoperand.then (heffects r' value)
  | store group source =>
    simp only [ofOperation, ensures_bind, ensures_get, List.nil_append]
    refine (consumes_resolve mode .write).mono ?_
    intro log place r' hplace
    refine (unchanged_writeAt place _ _).mono ?_
    rintro log' _ r'' rfl
    exact hplace.append (.refl r'') log'
  | modify effect =>
    by_cases hmode : mode = .accumulator
    · subst hmode
      simp only [ofOperation, if_true, ensures_bind, ensures_get, ensures_idle, ensures_modify, List.nil_append,
        List.append_nil]
      exact consumes_zero ((heffects r _).trans (Registers.inLine_tolerant.setAccumulator _ _)) _
    · simp only [ofOperation, if_neg hmode, ensures_bind, ensures_get, ensures_idle, ensures_modifyGet, List.nil_append]
      refine (consumes_resolve mode .write).mono ?_
      intro log place r' hplace
      refine (unchanged_readAt place _).mono ?_
      rintro log' value r'' rfl
      refine (unchanged_writeAt place _ _).mono ?_
      rintro log'' _ _ rfl
      exact hplace.append (heffects r'' value) _
  | internal cycles effect =>
    simp only [ofOperation, ensures_bind, ensures_idles, ensures_modify, List.append_nil]
    exact consumes_zero (heffects r) _
  | branch condition =>
    have hcondition : condition r = false := by simpa [Operation.goesOn] using hgoesOn
    simp [ofOperation, branch, hcondition]
    exact fun offset => consumes_one offset []
  | push width source =>
    simp only [ofOperation, ensures_bind, ensures_get, ensures_idle, List.nil_append]
    exact (inLine_pushWidth _ _).mono fun _ _ _ h => consumes_zero h _
  | pull width effect =>
    simp only [ofOperation, ensures_bind, ensures_get, ensures_idles, ensures_modify, List.nil_append, List.append_nil]
    exact (inLine_pullWidth _).mono fun _ value r' h => consumes_zero (h.trans (heffects r' value)) _
  | pushConstant =>
    simp [ofOperation]
    exact fun low high => (consumes_two low high _).then (Registers.inLine_setS _ _)
  | pushIndirect =>
    simp [ofOperation]
    exact fun offset _ _ => (consumes_one offset _).then (Registers.inLine_setS _ _)
  | pushRelative =>
    simp [ofOperation]
    exact fun low high => (consumes_two low high _).then (Registers.inLine_setS _ _)
  | skip =>
    simp [ofOperation]
    exact fun signature => consumes_one signature []
  | maskStatus _ | branchLong | jump | jumpIndirect | jumpIndexed | jumpLong | jumpLongIndirect | call | callIndexed
  | callLong | ret | retLong | retInterrupt | interrupt _ | blockMove _ | rest _ => cases hgoesOn

/-! ## Instructions in line -/

/-- Whether an instruction jumps, changes the mode, takes the widths from the stack or leaves the running state. The
branches that depend on a condition are not among them. -/
def Mnemonic.leavesLine : Mnemonic → Bool
  | .brl | .jmp | .jml | .jsr | .jsl | .rts | .rtl | .rti | .brk | .cop | .mvn | .mvp | .xce | .plp | .wai | .stp => true
  | _ => false

/-- Whether an instruction masks the status byte. -/
def Mnemonic.masksStatus : Mnemonic → Bool
  | .rep | .sep => true
  | _ => false

theorem goesOn_operation {instruction : Instruction} {r : Registers}
    (hleaves : instruction.mnemonic.leavesLine = false) (hbranches : instruction.mnemonic.branches r = false)
    (hmasks : instruction.mnemonic.masksStatus = false) :
    instruction.operation.goesOn (r.setPc (r.pc + 1)) = true := by
  obtain ⟨mnemonic, mode⟩ := instruction
  cases mnemonic with
  | bpl | bvc | bcc | bne =>
    have hflag := (Bool.not_eq_false' _).mp hbranches
    simp [Instruction.operation, Operation.branchIf, Operation.goesOn, hflag]
  | bmi | bvs | bcs | beq =>
    simp only [Mnemonic.branches] at hbranches
    simp [Instruction.operation, Operation.branchIf, Operation.goesOn, hbranches]
  | bit =>
    simp only [Instruction.operation]
    split <;> rfl
  | bra => cases hbranches
  | rep | sep => cases hmasks
  | brl | jmp | jml | jsr | jsl | rts | rtl | rti | brk | cop | mvn | mvp | xce | plp | wai | stp => cases hleaves
  | _ => rfl

theorem effects_inLine {instruction : Instruction} (hleaves : instruction.mnemonic.leavesLine = false)
    (hmasks : instruction.mnemonic.masksStatus = false) : instruction.operation.Effects Registers.InLine := by
  refine effects_operation Registers.inLine_tolerant instruction ?_
  obtain ⟨mnemonic, mode⟩ := instruction
  cases mnemonic with
  | rep | sep => cases hmasks
  | plp | xce => cases hleaves
  | _ => rfl

/-- The log fetches an instruction, and the program goes on behind it with the widths that a listing goes on with. -/
def Advances (r : Registers) (log : List Cycle) (opcode : UInt8) (r' : Registers) : Prop :=
  ∃ operand rest,
    operand.length = (Instruction.decode opcode).mode.operandLength r.listingWidths.narrowMemory
      r.listingWidths.narrowIndex ∧
    transfers log = fetches r (opcode :: operand) ++ rest ∧
    r'.pc = r.pc + UInt16.ofNat (operand.length + 1) ∧ r'.pbr = r.pbr ∧
    r'.listingWidths = r.listingWidths.after (opcode :: operand)

theorem ListingWidths.after_of_not_masksStatus {opcode : UInt8}
    (hmasks : (Instruction.decode opcode).mnemonic.masksStatus = false) (widths : ListingWidths)
    (operand : List UInt8) : widths.after (opcode :: operand) = widths := by
  cases operand with
  | nil => rfl
  | cons mask _ =>
    simp only [after]
    split
    · rename_i hrep
      rw [hrep] at hmasks
      cases hmasks
    · rename_i hsep
      rw [hsep] at hmasks
      cases hmasks
    · rfl

section Instruction

variable {r : Registers} {opcode : UInt8}

/-- There is one opcode for each mask of the status byte. -/
theorem opcode_of_masksStatus (hmasks : (Instruction.decode opcode).mnemonic.masksStatus = true) :
    opcode = 0xC2 ∨ opcode = 0xE2 :=
  forall_byte
    (P := fun opcode => (Instruction.decode opcode).mnemonic.masksStatus = true → opcode = 0xC2 ∨ opcode = 0xE2)
    (by decide +kernel) opcode hmasks

/-- A listing follows the widths through a mask of the status byte. -/
theorem advances_masks (hmasks : (Instruction.decode opcode).mnemonic.masksStatus = true) :
    (Microcode.ofOperation (Instruction.decode opcode).mode (Instruction.decode opcode).operation).Ensures
      (r.setPc (r.pc + 1)) fun log _ r' => Advances r (.read .code r.programAddress opcode :: log) opcode r' := by
  have hpc : r.pc + 1 + 1 = r.pc + UInt16.ofNat 2 := by grind
  rcases opcode_of_masksStatus hmasks with rfl | rfl
  · have hdecode : Instruction.decode 0xC2 = ⟨.rep, .immediate8⟩ := by decide
    simp [hdecode, Instruction.operation, Microcode.ofOperation]
    intro mask
    refine ⟨[mask], [], by rw [hdecode]; rfl, rfl, (Registers.setP_pc _ _).trans hpc, Registers.setP_pbr _ _, ?_⟩
    rw [Registers.listingWidths_setP, Status.listingWidths_and_not, Registers.listingWidths_eq]
    rfl
  · have hdecode : Instruction.decode 0xE2 = ⟨.sep, .immediate8⟩ := by decide
    simp [hdecode, Instruction.operation, Microcode.ofOperation]
    intro mask
    refine ⟨[mask], [], by rw [hdecode]; rfl, rfl, (Registers.setP_pc _ _).trans hpc, Registers.setP_pbr _ _, ?_⟩
    rw [Registers.listingWidths_setP, Status.listingWidths_or, Registers.listingWidths_eq]
    rfl

theorem advances_plain (hleaves : (Instruction.decode opcode).mnemonic.leavesLine = false)
    (hbranches : (Instruction.decode opcode).mnemonic.branches r = false)
    (hmasks : (Instruction.decode opcode).mnemonic.masksStatus = false) :
    (Microcode.ofOperation (Instruction.decode opcode).mode (Instruction.decode opcode).operation).Ensures
      (r.setPc (r.pc + 1)) fun log _ r' => Advances r (.read .code r.programAddress opcode :: log) opcode r' := by
  refine (consumes_ofOperation (effects_inLine hleaves hmasks) (goesOn_operation hleaves hbranches hmasks) _).mono ?_
  rintro log _ r' ⟨operand, rest, hlength, hlog, hline⟩
  rw [Operation.operandSize_eq, Registers.listingWidths_setPc] at hlength hline
  refine ⟨operand, rest, hlength, ?_, ?_, hline.pbr, ?_⟩
  · show _ :: transfers log = _
    rw [hlog]
    rfl
  · rw [hline.pc, ← hlength, Registers.setPc_pc, Registers.setPc_pc, Nat.add_comm operand.length 1, UInt16.ofNat_add]
    grind
  · rw [ListingWidths.after_of_not_masksStatus hmasks]
    exact hline.widths

end Instruction

/-- **Every course of an instruction** begins with its opcode, and in line it fetches the whole instruction and goes on
behind it. -/
theorem ensures_instruction_advances (r : Registers) :
    Cpu.instruction.Ensures r fun log opcode r' =>
      (∃ rest, transfers log = fetches r [opcode] ++ rest) ∧
        ((Instruction.decode opcode).mnemonic.leavesLine = false →
          (Instruction.decode opcode).mnemonic.branches r = false → Advances r log opcode r') := by
  rw [Cpu.ensures_instruction]
  intro opcode
  cases hmasks : (Instruction.decode opcode).mnemonic.masksStatus with
  | true => exact (advances_masks hmasks).mono fun log _ _ h => ⟨⟨transfers log, rfl⟩, fun _ _ => h⟩
  | false =>
    by_cases hline : (Instruction.decode opcode).mnemonic.leavesLine = false ∧
      (Instruction.decode opcode).mnemonic.branches r = false
    · exact (advances_plain hline.1 hline.2 hmasks).mono fun log _ _ h => ⟨⟨transfers log, rfl⟩, fun _ _ => h⟩
    · exact Microcode.ensures_of_forall fun log _ _ =>
        ⟨⟨transfers log, rfl⟩, fun hleaves hbranches => absurd ⟨hleaves, hbranches⟩ hline⟩

end Emu816
