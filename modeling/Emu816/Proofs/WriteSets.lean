import Emu816.Proofs.InterruptReturn
import Emu816.Proofs.Operands

/-!
# What steps write

The writes of a step follow from the registers at its start and the bytes that memory answers. An instruction stores a
value, changes an operand that it has read, pushes bytes, moves a byte of a block or writes nothing.

- `stackCell`, `stackWrites`: the cells below the stack pointer, and writes to them in order.
- `Instruction.writing`, `Writing.Made`: what an instruction writes, and transfers that do so.
- `makes_operation`: every instruction writes that and nothing else.
- `step_writes`: the writes of a step.
-/

namespace Emu816

/-! ## Cells of the stack -/

/-- The cell a number of bytes below the stack pointer, within page 1 in emulation mode. -/
def stackCell (r : Registers) (depth : Nat) : UInt16 :=
  if r.emulation then 0x0100 ||| (r.s - UInt16.ofNat depth &&& 0x00FF) else r.s - UInt16.ofNat depth

/-- Writes of some bytes, from the stack pointer down. -/
def stackWrites (r : Registers) (bytes : List UInt8) : List Transfer :=
  bytes.mapIdx fun depth byte => ⟨.write, .stack, (stackCell r depth).toUInt32, byte⟩

section Stack

variable {r : Registers}

theorem stackCell_eq (r : Registers) (depth : Nat) : stackCell r depth = (r.setS (r.s - UInt16.ofNat depth)).s := rfl

theorem stackCell_zero (hr : r.WellModed) : stackCell r 0 = r.s := by
  have hsettled := congrArg Registers.s hr.setS_s
  simpa [stackCell_eq] using hsettled

/-- Seen from a pointer that was moved, every cell is one deeper. -/
theorem stackCell_setS (r : Registers) (depth : Nat) :
    stackCell (r.setS (r.s - 1)) depth = stackCell r (depth + 1) := by
  have hdepth : UInt16.ofNat (depth + 1) = 1 + UInt16.ofNat depth := by rw [UInt16.ofNat_add, UInt16.add_comm]; rfl
  rw [stackCell_eq, stackCell_eq, Registers.setS_setS, Registers.setS_sub, hdepth, sub_sub_word]

/-- Pushes write one cell after the other. -/
theorem pushes_eq (hr : r.setS r.s = r) (bytes : List UInt8) : pushes r bytes = stackWrites r bytes := by
  induction bytes generalizing r with
  | nil => rfl
  | cons byte bytes ih =>
    have hcell : stackCell r 0 = r.s := by simpa [stackCell_eq] using congrArg Registers.s hr
    have hrest : stackWrites (r.setS (r.s - 1)) bytes =
        bytes.mapIdx fun depth byte => ⟨.write, .stack, (stackCell r (depth + 1)).toUInt32, byte⟩ := by
      simp only [stackWrites, stackCell_setS]
    rw [pushes, ih (by simp), hrest, stackWrites, List.mapIdx_cons, hcell]

@[simp] theorem stackWrites_setPc (r : Registers) (pc : UInt16) (bytes : List UInt8) :
    stackWrites (r.setPc pc) bytes = stackWrites r bytes := rfl

end Stack

/-! ## Writes of an instruction -/

/-- What an instruction writes. -/
inductive Writing where
  | nothing
  /-- A value at the operand. -/
  | store (width : Width) (value : UInt16)
  /-- A new value at the operand, which is read before. -/
  | modify (width : Width)
  /-- Bytes on the stack, in this order. -/
  | push (bytes : List UInt8)
  /-- A byte of a block. -/
  | move

/-- What an instruction writes, from the registers before the opcode and the bytes that memory answers after it. Words
are pushed high byte first. -/
def Instruction.writing (instruction : Instruction) (r : Registers) (bytes : List UInt8) : Writing :=
  let pushWidth (width : Width) (value : UInt16) := Writing.push (width.split value).reverse
  match instruction.mnemonic with
  | .sta => .store r.accumulatorWidth r.accumulator
  | .stx => .store r.indexWidth r.x
  | .sty => .store r.indexWidth r.y
  | .stz => .store r.accumulatorWidth 0
  | .asl | .lsr | .rol | .ror | .inc | .dec | .tsb | .trb =>
    if instruction.mode = .accumulator then .nothing else .modify r.accumulatorWidth
  | .pha => pushWidth r.accumulatorWidth r.accumulator
  | .phx => pushWidth r.indexWidth r.x
  | .phy => pushWidth r.indexWidth r.y
  | .php => .push [r.p]
  | .phb => .push [r.dbr]
  | .phk => .push [r.pbr]
  | .phd => pushWidth .word r.d
  | .pea => pushWidth .word (wordOf bytes)
  | .pei => pushWidth .word (wordOf bytes.tail)
  | .per => pushWidth .word (r.pc + 3 + wordOf bytes)
  | .jsr => pushWidth .word (r.pc + 2)
  | .jsl => .push (r.pbr :: (Width.word.split (r.pc + 3)).reverse)
  | .brk => .push (frame (r.setPc (r.pc + 2)) (if r.emulation then r.p ||| Status.breakBit else r.p))
  | .cop => .push (frame (r.setPc (r.pc + 2)) r.p)
  | .mvn | .mvp => .move
  | _ => .nothing

/-- The transfers of an instruction up to its operand: the opcode, the operand bytes and the pointer. -/
def Reaches (opcode : UInt8) (mode : Mode) (r : Registers) (lead : List Transfer) (place : Place) : Prop :=
  ∃ operand pointer, operand.length = mode.placeSize ∧ pointer.length = mode.pointerSize ∧
    lead = fetches r (opcode :: operand) ++ cells .read .pointer (.bank0 (mode.anchor r operand)) pointer ∧
    place = mode.place r operand pointer

/-- The transfers push the bytes and write nothing else, and the stack pointer moves down by as many cells. -/
def Pushed (bytes : List UInt8) (r : Registers) (log : List Transfer) (r' : Registers) : Prop :=
  log.filter (·.direction = .write) = stackWrites r bytes ∧ r'.s = stackCell r bytes.length

/-- The transfers of an instruction, from its opcode on, write what they have to and nothing else. A changed operand is
written at the places from which it was read, after it was read. -/
def Writing.Made (writing : Writing) (opcode : UInt8) (mode : Mode) (r : Registers) (log : List Transfer)
    (r' : Registers) : Prop :=
  match writing with
  | nothing => ∀ t ∈ log, t.direction = .read
  | store width value =>
    ∃ lead place, Reaches opcode mode r lead place ∧ log = lead ++ cells .write .data place (width.split value)
  | modify width =>
    ∃ lead place before after, Reaches opcode mode r lead place ∧
      before.length = width.bytes ∧ after.length = width.bytes ∧
      log = lead ++ (cells .read .data place before ++ cells .write .data place after)
  | push bytes => Pushed bytes r log r'
  | move =>
    ∃ target source byte, log = fetches r [opcode, target, source] ++
      [⟨.read, .data, Address.ofBank source r.x, byte⟩, ⟨.write, .data, Address.ofBank target r.y, byte⟩]

/-! ## Writes of operations -/

/-- Nothing is written. -/
def Reading (log : List Cycle) : Prop := ∀ t ∈ transfers log, t.direction = .read

@[simp] theorem reading_nil : Reading [] := nofun

@[simp] theorem reading_idle (log : List Cycle) : Reading (.idle :: log) ↔ Reading log := Iff.rfl

@[simp] theorem reading_read (purpose : Purpose) (addr : UInt32) (byte : UInt8) (log : List Cycle) :
    Reading (.read purpose addr byte :: log) ↔ Reading log := by
  simp [Reading]

@[simp] theorem reading_append (first second : List Cycle) :
    Reading (first ++ second) ↔ Reading first ∧ Reading second := by
  simp only [Reading, transfers_append, List.forall_mem_append]

@[simp] theorem reading_replicate_idle (n : Nat) : Reading (List.replicate n .idle) := by
  simp [Reading]

theorem reading_fetches (r : Registers) (bytes : List UInt8) : ∀ t ∈ fetches r bytes, t.direction = .read := by
  induction bytes generalizing r with
  | nil => simp [fetches]
  | cons byte bytes ih => simpa [fetches] using ih _

theorem direction_cells (direction : Direction) (purpose : Purpose) (place : Place) (bytes : List UInt8) :
    ∀ t ∈ cells direction purpose place bytes, t.direction = direction := by
  induction bytes generalizing place with
  | nil => simp [cells]
  | cons byte bytes ih => simpa [cells] using ih _

theorem Width.length_split (width : Width) (value : UInt16) : (width.split value).length = width.bytes := by
  cases width <;> rfl

theorem LeadsTo.reading {mode : Mode} {r : Registers} {log : List Transfer} {place : Place} {operand : List UInt8}
    (h : LeadsTo mode r log place operand) : ∀ t ∈ log, t.direction = .read := by
  obtain ⟨pointer, -, -, rfl, -⟩ := h
  exact List.forall_mem_append.2 ⟨reading_fetches _ _, direction_cells .read _ _ _⟩

/-- The way to a place behind the opcode, seen from the opcode. -/
theorem LeadsTo.reaches {mode : Mode} (hmode : mode.placeSize ≠ 0) {r : Registers} {log : List Transfer} {place : Place}
    {operand : List UInt8} (h : LeadsTo mode (r.setPc (r.pc + 1)) log place operand) (opcode : UInt8) :
    Reaches opcode mode r (⟨.read, .code, r.programAddress, opcode⟩ :: log) place := by
  obtain ⟨pointer, hoperand, hpointer, hlog, hplace⟩ := h
  refine ⟨operand, pointer, hoperand, hpointer, ?_, ?_⟩
  · rw [hlog, Mode.anchor_setPc]
    rfl
  · rw [hplace, Mode.place_setPc hmode]

theorem Reaches.reading {opcode : UInt8} {mode : Mode} {r : Registers} {lead : List Transfer} {place : Place}
    (h : Reaches opcode mode r lead place) : ∀ t ∈ lead, t.direction = .read := by
  obtain ⟨operand, pointer, -, -, rfl, -⟩ := h
  exact List.forall_mem_append.2 ⟨reading_fetches _ _, direction_cells .read _ _ _⟩

namespace Microcode

variable {r : Registers}

/-- Bytes are read at a place, and make up the value. -/
theorem ensures_readAt_cells (place : Place) (width : Width) :
    (readAt place width).Ensures r fun log value r' => ∃ bytes, bytes.length = width.bytes ∧
      transfers log = cells .read .data place bytes ∧ value = width.join bytes ∧ r' = r := by
  cases width with
  | byte =>
    simp only [readAt, bind_pure_comp, ensures_map, ensures_read, Place.wrap_address, transfers_transfer,
      transfers_nil, and_true]
    exact fun byte => ⟨[byte], rfl, rfl, rfl⟩
  | word =>
    simp only [readAt, ensures_readWord, transfers_transfer, transfers_nil, and_true]
    exact fun low high => ⟨[low, high], rfl, rfl, rfl⟩

theorem ensures_writeAt_cells (place : Place) (width : Width) (value : UInt16) :
    (writeAt place width value).Ensures r fun log _ r' =>
      transfers log = cells .write .data place (width.split value) ∧ r' = r := by
  cases width <;> simp [writeAt, Width.split, cells]

/-- An addressing mode finds its operand from the opcode on, and the program goes on behind the operand bytes. -/
theorem ensures_resolve_reaches {mode : Mode} (opcode : UInt8) (hmode : mode.placeSize ≠ 0) (access : Access) :
    (resolve mode access).Ensures (r.setPc (r.pc + 1)) fun log place r' =>
      Reaches opcode mode r (⟨.read, .code, r.programAddress, opcode⟩ :: transfers log) place ∧
      r' = r.setPc (r.pc + UInt16.ofNat (mode.placeSize + 1)) := by
  refine (ensures_resolve_place mode access).mono ?_
  rintro log place r' ⟨operand, hleads, rfl⟩
  have hlength : operand.length = mode.placeSize := by
    obtain ⟨_, hlength, -⟩ := hleads
    exact hlength
  refine ⟨hleads.reaches hmode opcode, ?_⟩
  rw [hlength, Registers.setPc_setPc, Registers.setPc_pc, UInt16.ofNat_add, UInt16.add_assoc, UInt16.add_comm 1]
  rfl

/-- A store writes its value at the operand. -/
theorem ensures_store {mode : Mode} (opcode : UInt8) (hmode : mode.placeSize ≠ 0) (group : RegisterClass)
    (source : Registers → UInt16) :
    (ofOperation mode (.store group source)).Ensures (r.setPc (r.pc + 1)) fun log _ r' =>
      ∃ lead place, Reaches opcode mode r lead place ∧
        ⟨.read, .code, r.programAddress, opcode⟩ :: transfers log =
          lead ++ cells .write .data place ((r.widthOf group).split (source (r.setPc (r.pc + 1)))) ∧
        r' = r.setPc (r.pc + UInt16.ofNat (mode.placeSize + 1)) := by
  simp only [ofOperation, ensures_bind, ensures_get, List.nil_append, Registers.setPc_widthOf]
  refine (ensures_resolve_reaches opcode hmode .write).mono ?_
  rintro log place r' ⟨hreaches, rfl⟩
  refine (ensures_writeAt_cells place _ _).mono ?_
  rintro log' _ _ ⟨hwrites, rfl⟩
  refine ⟨_, place, hreaches, ?_, rfl⟩
  rw [transfers_append, hwrites]
  rfl

/-- An operand in memory is read and written back where it was. -/
theorem ensures_modify_place {mode : Mode} (opcode : UInt8) (effect : Registers → UInt16 → UInt16 × Registers)
    (hmode : mode.placeSize ≠ 0) :
    (ofOperation mode (.modify effect)).Ensures (r.setPc (r.pc + 1)) fun log _ r' =>
      ∃ lead place bytes, Reaches opcode mode r lead place ∧ bytes.length = r.accumulatorWidth.bytes ∧
        let outcome := effect (r.setPc (r.pc + UInt16.ofNat (mode.placeSize + 1))) (r.accumulatorWidth.join bytes)
        ⟨.read, .code, r.programAddress, opcode⟩ :: transfers log =
          lead ++ (cells .read .data place bytes ++
            cells .write .data place (r.accumulatorWidth.split outcome.1)) ∧
        r' = outcome.2 := by
  have haccumulator : mode ≠ .accumulator := by
    rintro rfl
    exact hmode rfl
  simp only [ofOperation, if_neg haccumulator, ensures_bind, ensures_get, ensures_idle, ensures_modifyGet,
    List.nil_append, Registers.setPc_accumulatorWidth]
  refine (ensures_resolve_reaches opcode hmode .write).mono ?_
  rintro log place r' ⟨hreaches, rfl⟩
  refine (ensures_readAt_cells place _).mono ?_
  rintro log' value _ ⟨bytes, hbytes, hreads, rfl, rfl⟩
  refine (ensures_writeAt_cells place _ _).mono ?_
  rintro log'' _ _ ⟨hwrites, rfl⟩
  refine ⟨_, place, bytes, hreaches, hbytes, ?_, rfl⟩
  rw [transfers_append, transfers_append, transfers_append, hreads, hwrites]
  rfl

theorem reading_resolve (mode : Mode) (access : Access) :
    (resolve mode access).Ensures r fun log _ _ => Reading log :=
  (ensures_resolve_place mode access).mono fun _ _ _ ⟨_, h, _⟩ => h.reading

theorem reading_readOperand (mode : Mode) (width : Width) :
    (readOperand mode width).Ensures r fun log _ _ => Reading log := by
  by_cases hconstant : mode = .immediate ∨ mode = .immediateIndex
  · rw [readOperand_of_constant hconstant]
    cases width <;> simp [fetchWidth]
  · rw [readOperand_of_place hconstant, ensures_bind]
    refine (reading_resolve mode .read).mono ?_
    intro log place r' hlead
    refine (ensures_readAt_cells place width).mono ?_
    rintro log' _ _ ⟨bytes, -, hbytes, -⟩
    refine (reading_append _ _).2 ⟨hlead, ?_⟩
    rw [Reading, hbytes]
    exact direction_cells .read _ _ _

theorem reading_pullWidth (width : Width) : (pullWidth width).Ensures r fun log _ _ => Reading log := by
  cases width <;> simp [pullWidth]

end Microcode

/-- The entry into a handler pushes its frame. -/
theorem pushed_enter {r : Registers} (hr : r.WellModed) (status : UInt8) (vector : UInt16) (before : List Cycle)
    (hbefore : Reading before) :
    (Microcode.enter status vector).Ensures r fun log _ r' =>
      Pushed (frame r status) r (transfers (before ++ log)) r' := by
  refine (Microcode.ensures_enter hr status vector).mono ?_
  rintro log _ r' ⟨low, high, hlog, rfl⟩
  refine ⟨?_, ?_⟩
  · have hquiet : (transfers before).filter (·.direction = .write) = [] := by
      refine List.filter_eq_nil_iff.2 fun t ht => ?_
      simp [hbefore t ht]
    have hpushes : (pushes r (frame r status)).filter (·.direction = .write) = pushes r (frame r status) := by
      refine List.filter_eq_self.2 fun t ht => ?_
      simp [(mem_pushes ht).1]
    rw [transfers_append, hlog, List.filter_append, List.filter_append, hquiet, hpushes, ← pushes_eq hr.setS_s]
    simp [vectorReads]
  · rw [length_frame]
    rfl

/-- Behind the opcode the code writes what the bytes that memory answers ask for, and nothing else. -/
def Makes (opcode : UInt8) (mode : Mode) (r : Registers) (writing : List UInt8 → Writing) (code : Microcode Unit) :
    Prop :=
  code.Ensures (r.setPc (r.pc + 1)) fun log _ r' =>
    (writing (answers log)).Made opcode mode r (⟨.read, .code, r.programAddress, opcode⟩ :: transfers log) r'

section Makes

open Microcode

variable {opcode : UInt8} {mode : Mode} {r : Registers}

theorem makes_nothing {code : Microcode Unit} (h : code.Ensures (r.setPc (r.pc + 1)) fun log _ _ => Reading log) :
    Makes opcode mode r (fun _ => .nothing) code :=
  h.mono fun _ _ _ hlog => List.forall_mem_cons.2 ⟨rfl, hlog⟩

theorem makes_load (group : RegisterClass) (effect : Registers → UInt16 → Registers) :
    Makes opcode mode r (fun _ => .nothing) (ofOperation mode (.load group effect)) := by
  refine makes_nothing ?_
  simp only [ofOperation, ensures_bind, ensures_get, ensures_modify, List.nil_append, List.append_nil]
  exact reading_readOperand mode _

theorem makes_store (hmode : mode.placeSize ≠ 0) (group : RegisterClass) {source : Registers → UInt16} {value : UInt16}
    (hsource : source (r.setPc (r.pc + 1)) = value) :
    Makes opcode mode r (fun _ => .store (r.widthOf group) value) (ofOperation mode (.store group source)) := by
  refine (ensures_store opcode hmode group source).mono ?_
  rintro log _ r' ⟨lead, place, hreaches, hlog, -⟩
  rw [hsource] at hlog
  exact ⟨lead, place, hreaches, hlog⟩

theorem makes_modify_place (hmode : mode.placeSize ≠ 0) (effect : Registers → UInt16 → UInt16 × Registers) :
    Makes opcode mode r (fun _ => .modify r.accumulatorWidth) (ofOperation mode (.modify effect)) := by
  refine (ensures_modify_place opcode effect hmode).mono ?_
  rintro log _ r' ⟨lead, place, before, hreaches, hbefore, hlog, -⟩
  exact ⟨lead, place, before, _, hreaches, hbefore, Width.length_split _ _, hlog⟩

theorem makes_modify (hmode : mode ≠ .accumulator → mode.placeSize ≠ 0)
    (effect : Registers → UInt16 → UInt16 × Registers) :
    Makes opcode mode r (fun _ => if mode = .accumulator then .nothing else .modify r.accumulatorWidth)
      (ofOperation mode (.modify effect)) := by
  by_cases haccumulator : mode = .accumulator
  · subst haccumulator
    refine makes_nothing ?_
    simp [ofOperation]
  · simp only [if_neg haccumulator]
    exact makes_modify_place (hmode haccumulator) effect

theorem makes_internal (cycles : Nat) (effect : Registers → Registers) :
    Makes opcode mode r (fun _ => .nothing) (ofOperation mode (.internal cycles effect)) := by
  refine makes_nothing ?_
  simp [ofOperation]

theorem makes_maskStatus (effect : UInt8 → UInt8 → UInt8) :
    Makes opcode mode r (fun _ => .nothing) (ofOperation mode (.maskStatus effect)) := by
  refine makes_nothing ?_
  simp [ofOperation]

theorem makes_branch (condition : Registers → Bool) :
    Makes opcode mode r (fun _ => .nothing) (ofOperation mode (.branch condition)) := by
  refine makes_nothing ?_
  simp only [ofOperation, branch, ensures_bind, ensures_get, ensures_fetch, List.nil_append]
  intro offset
  split
  · simp only [ensures_bind, ensures_get, ensures_idle, ensures_ite, ensures_jumpTo]
    split <;> simp
  · simp

theorem makes_pull (width : Registers → Width) (effect : Registers → UInt16 → Registers) :
    Makes opcode mode r (fun _ => .nothing) (ofOperation mode (.pull width effect)) := by
  refine makes_nothing ?_
  simp only [ofOperation, ensures_bind, ensures_get, ensures_idles, ensures_modify, List.nil_append, List.append_nil]
  refine (reading_pullWidth _).mono ?_
  intro log _ _ hlog
  simpa using hlog

theorem makes_retInterrupt : Makes opcode mode r (fun _ => .nothing) (ofOperation mode .retInterrupt) := by
  refine makes_nothing ?_
  cases hmode : r.emulation with
  | false =>
    rw [ensures_retInterrupt_native (r := r.setPc (r.pc + 1)) hmode]
    simp
  | true =>
    rw [ensures_retInterrupt_emulated (r := r.setPc (r.pc + 1)) hmode]
    simp

/-- Code pushes bytes if its writes and its stack pointer are those of their pushes. -/
theorem makes_push (hr : r.WellModed) (bytes : List UInt8 → List UInt8) {code : Microcode Unit}
    (h : code.Ensures (r.setPc (r.pc + 1)) fun log _ r' =>
      (transfers log).filter (·.direction = .write) = pushes r (bytes (answers log)) ∧
        r'.s = (r.setS (r.s - UInt16.ofNat (bytes (answers log)).length)).s) :
    Makes opcode mode r (fun answered => .push (bytes answered)) code := by
  refine h.mono ?_
  rintro log _ r' ⟨hwrites, hs⟩
  refine ⟨?_, hs⟩
  rw [← pushes_eq hr.setS_s, ← hwrites]
  rfl

theorem makes_pushWidth (hr : r.WellModed) (width : Registers → Width) {source : Registers → UInt16} {value : UInt16}
    (hsource : source (r.setPc (r.pc + 1)) = value) :
    Makes opcode mode r (fun _ => .push ((width (r.setPc (r.pc + 1))).split value).reverse)
      (ofOperation mode (.push width source)) := by
  refine makes_push hr (fun _ => ((width (r.setPc (r.pc + 1))).split value).reverse) ?_
  simp only [ofOperation, ensures_bind, ensures_get, ensures_idle, List.nil_append, hsource]
  cases width (r.setPc (r.pc + 1)) with
  | byte => simp [pushWidth, Width.split, pushes]
  | word => simp [pushWidth, Width.split, pushes]

theorem makes_pushByte (hr : r.WellModed) {source : Registers → UInt8} {value : UInt8}
    (hsource : source (r.setPc (r.pc + 1)) = value) :
    Makes opcode mode r (fun _ => .push [value]) (ofOperation mode (.pushByte source)) := by
  refine makes_push hr (fun _ => [value]) ?_
  simp [Operation.pushByte, ofOperation, hsource, pushWidth, pushes, Word.low]

/-- The entry of an interrupt instruction pushes the frame behind its signature byte. -/
theorem makes_interrupt (hr : r.WellModed) (source : SoftwareInterrupt) {status : UInt8}
    (hstatus : (if source = .brk ∧ r.emulation then r.p ||| Status.breakBit else r.p) = status) :
    Makes opcode mode r (fun _ => .push (frame (r.setPc (r.pc + 2)) status)) (ofOperation mode (.interrupt source)) := by
  have hpc : r.pc + 1 + 1 = r.pc + 2 := by grind
  have hbehind : (r.setPc (r.pc + 2)).WellModed := (Registers.sameMode_setPc _ _).2 hr
  simp only [Makes, ofOperation, enterSoftware, ensures_bind, ensures_fetch, ensures_get, List.nil_append]
  intro signature
  simp only [Registers.setPc_pc, Registers.setPc_setPc, Registers.setPc_emulation, Registers.setPc_p, hpc, hstatus]
  exact pushed_enter hbehind status _
    [.read .code r.programAddress opcode, .read .code (r.setPc (r.pc + 1)).programAddress signature] (by simp)

end Makes

/-- Whether an instruction changes or stores an operand in memory. -/
def Instruction.writesOperand (instruction : Instruction) : Bool :=
  match instruction.mnemonic with
  | .sta | .stx | .sty | .stz => true
  | .asl | .lsr | .rol | .ror | .inc | .dec | .tsb | .trb => instruction.mode ≠ .accumulator
  | _ => false

/-- What is written back has a place in memory. -/
theorem placeSize_of_writesOperand (opcode : UInt8) (h : (Instruction.decode opcode).writesOperand = true) :
    (Instruction.decode opcode).mode.placeSize ≠ 0 :=
  forall_byte
    (P := fun opcode => (Instruction.decode opcode).writesOperand = true →
      (Instruction.decode opcode).mode.placeSize ≠ 0)
    (by decide +kernel) opcode h

section Operation

open Microcode

variable {r : Registers}

/-- **Every instruction writes what it has to** and nothing else. -/
theorem makes_operation (hr : r.WellModed) (opcode : UInt8) {instruction : Instruction}
    (hplace : instruction.writesOperand = true → instruction.mode.placeSize ≠ 0) :
    Makes opcode instruction.mode r (instruction.writing r) (ofOperation instruction.mode instruction.operation) := by
  have htwo : r.pc + 1 + 1 = r.pc + 2 := by grind
  have hthree : r.pc + 2 + 1 = r.pc + 3 := by grind
  obtain ⟨mnemonic, mode⟩ := instruction
  cases mnemonic with
  | lda | ora | and | eor | adc | sbc | cmp | ldx | ldy | cpx | cpy => exact makes_load _ _
  | bit =>
    simp only [Instruction.operation]
    split <;> exact makes_load _ _
  | sta | stz => exact makes_store (hplace rfl) .accumulator rfl
  | stx | sty => exact makes_store (hplace rfl) .index rfl
  | asl | lsr | rol | ror | inc | dec | tsb | trb =>
    refine makes_modify (fun hmode => hplace ?_) _
    simpa [Instruction.writesOperand] using hmode
  | inx | iny | dex | dey | tax | tay | txa | tya | txy | tyx | tsx | txs | tcs | tsc | tcd | tdc | xba | xce | nop
  | clc | sec | cli | sei | cld | sed | clv => exact makes_internal _ _
  | rep | sep => exact makes_maskStatus _
  | bpl | bvc | bcc | bne | bmi | bvs | bcs | beq | bra => exact makes_branch _
  | pla | plx | ply | plp | plb | pld => exact makes_pull _ _
  | pha => exact makes_pushWidth hr Registers.accumulatorWidth rfl
  | phx | phy => exact makes_pushWidth hr Registers.indexWidth rfl
  | php | phb | phk => exact makes_pushByte hr rfl
  | phd => exact makes_pushWidth hr (fun _ => .word) rfl
  | pea =>
    refine makes_push hr (fun bytes => (Width.word.split (wordOf bytes)).reverse) ?_
    simp [Instruction.operation, ofOperation, Width.split, wordOf, pushes]
  | pei =>
    refine makes_push hr (fun bytes => (Width.word.split (wordOf bytes.tail)).reverse) ?_
    simp [Instruction.operation, ofOperation, Width.split, wordOf, pushes]
  | per =>
    refine makes_push hr (fun bytes => (Width.word.split (r.pc + 3 + wordOf bytes)).reverse) ?_
    simp [Instruction.operation, ofOperation, Width.split, wordOf, pushes, htwo, hthree]
  | jsr =>
    refine makes_push hr (fun _ => (Width.word.split (r.pc + 2)).reverse) ?_
    simp only [Instruction.operation]
    split <;> simp [ofOperation, Width.split, pushes, htwo]
  | jsl =>
    refine makes_push hr (fun _ => r.pbr :: (Width.word.split (r.pc + 3)).reverse) ?_
    simp [Instruction.operation, ofOperation, Width.split, pushes, htwo, hthree, sub_sub_word]
    exact fun _ => rfl
  | brk => exact makes_interrupt hr .brk (by simp)
  | cop => exact makes_interrupt hr .cop rfl
  | mvn | mvp =>
    simp [Makes, Instruction.operation, ofOperation, blockMove, Instruction.writing, Writing.Made]
    exact fun target source byte => ⟨target, source, byte, rfl⟩
  | rti => exact makes_retInterrupt
  | brl | rts | rtl | wdm | wai | stp =>
    refine makes_nothing ?_
    simp [Instruction.operation, ofOperation]
  | jmp =>
    refine makes_nothing ?_
    simp only [Instruction.operation]
    split <;> simp [ofOperation]
  | jml =>
    refine makes_nothing ?_
    simp only [Instruction.operation]
    split <;> simp [ofOperation]

end Operation

/-! ## Writes of steps -/

/-- The status byte that a hardware interrupt leaves on the stack. -/
def hardwareStatus (r : Registers) : UInt8 := if r.emulation then r.p &&& ~~~Status.breakBit else r.p

theorem pushed_enterHardware (kind : Interrupt) {r : Registers} (hr : r.WellModed) :
    (Microcode.enterHardware kind).Ensures r fun log _ r' =>
      Pushed (frame r (hardwareStatus r)) r (transfers log) r' := by
  simp only [Microcode.enterHardware, Microcode.ensures_bind, Microcode.ensures_get, Microcode.ensures_idle,
    hardwareStatus]
  cases hmode : r.emulation with
  | false => exact pushed_enter hr r.p _ [.idle] (by simp)
  | true => exact pushed_enter hr (r.p &&& ~~~Status.breakBit) _ [.idle, .idle] (by simp)

/-- What a step writes, by what it did. -/
structure StepWrites (r : Registers) (log : List Cycle) (event : StepEvent) (r' : Registers) : Prop where
  executed : ∀ pbr pc opcode, event = .executed pbr pc opcode →
    ((Instruction.decode opcode).writing r (answers log).tail).Made opcode (Instruction.decode opcode).mode r
      (transfers log) r'
  interrupt : ∀ kind vector, event = .interrupt kind vector →
    Pushed (frame r (hardwareStatus r)) r (transfers log) r'
  waiting : event = .waiting → transfers log = []
  stopped : event = .stopped → transfers log = []

theorem ensures_activity_writes (cpu : Cpu) (hr : cpu.regs.WellModed) :
    cpu.activity.Ensures fun log result => StepWrites cpu.regs log result.1 result.2.1 := by
  rw [Cpu.ensures_activity]
  split
  · exact ⟨nofun, nofun, nofun, fun _ => rfl⟩
  · exact ⟨nofun, nofun, fun _ => rfl, nofun⟩
  · rename_i kind _
    exact (pushed_enterHardware kind hr).mono fun _ _ _ h => ⟨nofun, fun _ _ _ => h, nofun, nofun⟩
  · rw [Cpu.ensures_instruction]
    intro opcode
    refine (makes_operation hr opcode (placeSize_of_writesOperand opcode)).mono ?_
    intro log _ r' hmade
    refine ⟨?_, nofun, nofun, nofun⟩
    rintro _ _ _ ⟨⟩
    exact hmade

/-- **The writes of a step** are those of its instruction, the frame of an interrupt entry, or none. The cells of the
stack go down from the stack pointer, in page 1 on an emulated processor. -/
theorem step_writes (cpu : Cpu) (hr : cpu.regs.WellModed) {μ : Type} [Memory μ] (memory : μ) :
    StepWrites cpu.regs (cpu.log memory) (cpu.step memory).1.event (cpu.step memory).2.1.regs ∧
    stackCell cpu.regs 0 = cpu.regs.s ∧
    (cpu.regs.emulation = true → ∀ depth,
      0x0100 ≤ stackCell cpu.regs depth ∧ stackCell cpu.regs depth ≤ 0x01FF) := by
  refine ⟨Cpu.step_of_ensures (ensures_activity_writes cpu hr) memory, stackCell_zero hr, ?_⟩
  intro hmode depth
  rw [stackCell, if_pos hmode]
  exact stackPage_bounds _

/-- A word is stored at the last byte of bank 0 and at the first one. -/
theorem step_writes_wrap :
    let memory : FlatMemory := ⟨fun addr => if addr = 0 then 0x85 else 0x00⟩
    let cpu : Cpu := { regs := { a := 0x1234, d := 0xFFFF, p := 0, emulation := false } }
    (cpu.step memory).1.event = .executed 0 0 0x85 ∧
    (Writing.store .word 0x1234).Made 0x85 .direct cpu.regs (cpu.transfers memory) (cpu.step memory).2.1.regs ∧
    (cpu.transfers memory).filter (·.direction = .write) =
      [⟨.write, .data, 0xFFFF, 0x34⟩, ⟨.write, .data, 0x0000, 0x12⟩] := by
  intro memory cpu
  have hevent : (cpu.step memory).1.event = .executed 0 0 0x85 := by decide
  have hr : cpu.regs.WellModed := ⟨by decide, by decide⟩
  have hdecode : Instruction.decode 0x85 = ⟨.sta, .direct⟩ := by decide
  have hwriting (bytes : List UInt8) : Instruction.writing ⟨.sta, .direct⟩ cpu.regs bytes = .store .word 0x1234 :=
    congrArg₂ Writing.store (by decide) (by decide)
  have hwrites := (step_writes cpu hr memory).1.executed 0 0 0x85 hevent
  rw [hdecode, hwriting] at hwrites
  exact ⟨hevent, hwrites, by decide⟩

end Emu816
