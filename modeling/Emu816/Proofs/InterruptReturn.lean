import Emu816.Proofs.InterruptProtocol
import Emu816.Proofs.ModeRules
import Emu816.Proofs.Stack

/-!
# Return from interrupts

The entry into a handler leaves a frame on the stack, and the return takes a frame from it. On RAM the two fit together:
a handler that returns at once leaves the registers as they were before the entry.

- `frame`, `handlerStart`: what an entry pushes and the registers that the handler starts with (`ensures_enter`).
- `returned`: the registers after a return, from the bytes that it pulls (`ensures_return`).
- `returned_handlerStart`: a return undoes an entry.
- `return_undoes_entry`: the same for two steps of a processor on a memory.
-/

namespace Emu816

/-! ## Registers -/

namespace Registers

/-- While the index registers are settled, a status write changes the status only. -/
theorem setP_of_settled {r : Registers} {value : UInt8}
    (h : value &&& Status.narrowIndex ≠ 0 → r.x ≤ 0x00FF ∧ r.y ≤ 0x00FF) : r.setP value = { r with p := value } := by
  unfold setP
  split
  · rfl
  · rename_i hnarrow
    rw [beq_iff_eq] at hnarrow
    rw [and_lowByte_of_le (h hnarrow).1, and_lowByte_of_le (h hnarrow).2]

/-- The stack pointer is settled. -/
theorem WellModed.setS_s {r : Registers} (h : r.WellModed) : r.setS r.s = r := by
  have hsame : (r.setS r.s).s = r.s := by
    cases hmode : r.emulation with
    | false => simp [setS, hmode]
    | true =>
      obtain ⟨hlow, hhigh⟩ := h.stack_page hmode
      simp only [UInt16.le_iff_toNat_le, UInt16.reduceToNat] at hlow hhigh
      rw [setS, hmode, if_pos rfl, ← UInt16.toNat_inj, toNat_stackPage]
      omega
  calc r.setS r.s = { r with s := (r.setS r.s).s } := rfl
    _ = r := by rw [hsame]

end Registers

/-! ## Entry -/

/-- The bytes that an entry pushes, in order. -/
def frame (r : Registers) (status : UInt8) : List UInt8 :=
  (if r.emulation then [] else [r.pbr]) ++ [Word.high r.pc, Word.low r.pc, status]

/-- The number of these bytes. -/
def frameSize (r : Registers) : Nat := if r.emulation then 3 else 4

theorem length_frame (r : Registers) (status : UInt8) : (frame r status).length = frameSize r := by
  unfold frame frameSize
  split <;> rfl

/-- The registers at the start of a handler. -/
def handlerStart (r : Registers) (target : UInt16) : Registers :=
  { r with
    s := (r.setS (r.s - UInt16.ofNat (frameSize r))).s
    p := (r.p ||| Status.interruptDisable) &&& ~~~Status.decimal
    pbr := 0
    pc := target }

/-- The reads of a handler's address. -/
def vectorReads (vector : UInt16) (low high : UInt8) : List Transfer :=
  [⟨.read, .vector, vector.toUInt32, low⟩, ⟨.read, .vector, (vector + 1).toUInt32, high⟩]

/-- The status writes of an entry leave the index registers alone. -/
theorem handlerStart_eq {r : Registers} (hr : r.WellModed) (s target : UInt16) :
    ((((r.setS s).setFlag Status.interruptDisable true).setFlag Status.decimal false).setPbr 0).setPc target =
      { r with
        s := (r.setS s).s
        p := (r.p ||| Status.interruptDisable) &&& ~~~Status.decimal
        pbr := 0
        pc := target } := by
  have hdisable : (r.p ||| Status.interruptDisable) &&& Status.narrowIndex = r.p &&& Status.narrowIndex :=
    forall_byte (P := fun p => (p ||| Status.interruptDisable) &&& Status.narrowIndex = p &&& Status.narrowIndex)
      (by decide +kernel) r.p
  have hbinary : ((r.p ||| Status.interruptDisable) &&& ~~~Status.decimal) &&& Status.narrowIndex =
      r.p &&& Status.narrowIndex :=
    forall_byte (P := fun p => ((p ||| Status.interruptDisable) &&& ~~~Status.decimal) &&& Status.narrowIndex =
      p &&& Status.narrowIndex) (by decide +kernel) r.p
  have hfirst : (r.setS s).setFlag Status.interruptDisable true =
      { r.setS s with p := r.p ||| Status.interruptDisable } := by
    refine Registers.setP_of_settled fun hnarrow => hr.narrow_index ?_
    rw [← hdisable]
    exact hnarrow
  have hsecond : ({ r.setS s with p := r.p ||| Status.interruptDisable }).setFlag Status.decimal false =
      { r.setS s with p := (r.p ||| Status.interruptDisable) &&& ~~~Status.decimal } := by
    refine Registers.setP_of_settled fun hnarrow => hr.narrow_index ?_
    rw [← hbinary]
    exact hnarrow
  rw [hfirst, hsecond]
  rfl

theorem Microcode.ensures_enter_native {r : Registers} (hmode : r.emulation = false) (status : UInt8)
    (vector : UInt16) (post : List Cycle → Unit → Registers → Prop) :
    (enter status vector).Ensures r post ↔ ∀ low high,
      post [.write .stack r.s.toUInt32 r.pbr, .write .stack (r.setS (r.s - 1)).s.toUInt32 (Word.high r.pc),
          .write .stack (r.setS (r.s - 2)).s.toUInt32 (Word.low r.pc),
          .write .stack (r.setS (r.s - 3)).s.toUInt32 status,
          .read .vector vector.toUInt32 low, .read .vector (vector + 1).toUInt32 high]
        ()
        (((((r.setS (r.s - 4)).setFlag Status.interruptDisable true).setFlag Status.decimal false).setPbr 0).setPc
          (Word.ofBytes low high)) := by
  simp [enter, hmode, sub_sub_word, Place.address, Place.next]

theorem Microcode.ensures_enter_emulated {r : Registers} (hmode : r.emulation = true) (status : UInt8)
    (vector : UInt16) (post : List Cycle → Unit → Registers → Prop) :
    (enter status vector).Ensures r post ↔ ∀ low high,
      post [.write .stack r.s.toUInt32 (Word.high r.pc), .write .stack (r.setS (r.s - 1)).s.toUInt32 (Word.low r.pc),
          .write .stack (r.setS (r.s - 2)).s.toUInt32 status,
          .read .vector vector.toUInt32 low, .read .vector (vector + 1).toUInt32 high]
        ()
        (((((r.setS (r.s - 3)).setFlag Status.interruptDisable true).setFlag Status.decimal false).setPbr 0).setPc
          (Word.ofBytes low high)) := by
  simp [enter, hmode, sub_sub_word, Place.address, Place.next]

theorem Microcode.ensures_enter {r : Registers} (hr : r.WellModed) (status : UInt8) (vector : UInt16) :
    (enter status vector).Ensures r fun log _ r' => ∃ low high,
      transfers log = pushes r (frame r status) ++ vectorReads vector low high ∧
      r' = handlerStart r (Word.ofBytes low high) := by
  cases hmode : r.emulation with
  | false =>
    rw [ensures_enter_native hmode]
    intro low high
    refine ⟨low, high, ?_, ?_⟩
    · simp [frame, hmode, pushes, vectorReads, sub_sub_word]
    · rw [handlerStart_eq hr, handlerStart, frameSize, hmode]
      rfl
  | true =>
    rw [ensures_enter_emulated hmode]
    intro low high
    refine ⟨low, high, ?_, ?_⟩
    · simp [frame, hmode, pushes, vectorReads, sub_sub_word]
    · rw [handlerStart_eq hr, handlerStart, frameSize, hmode]
      rfl

/-- A stacked status byte shows the status; on an emulated processor the width bits have another meaning there. -/
def Shows (r : Registers) (status : UInt8) : Prop :=
  status &&& ~~~Status.widths = r.p &&& ~~~Status.widths ∧ (r.emulation = false → status = r.p)

/-- An entry: after some reads the frame is pushed and the handler's address is read. -/
def Enters (r : Registers) (log : List Cycle) (r' : Registers) : Prop :=
  ∃ lead status vector low high, (∀ t ∈ lead, t.direction = .read ∧ t.purpose ≠ .vector) ∧ Shows r status ∧
    transfers log = lead ++ (pushes r (frame r status) ++ vectorReads vector low high) ∧
    r' = handlerStart r (Word.ofBytes low high)

/-- The bits that an emulated processor shows are those of its status. -/
theorem shows_of_emulation {r : Registers} {status : UInt8} (hmode : r.emulation = true)
    (h : status &&& ~~~Status.widths = r.p &&& ~~~Status.widths) : Shows r status :=
  ⟨h, fun hnative => absurd (hmode.symm.trans hnative) (by decide)⟩

theorem shows_self (r : Registers) : Shows r r.p := ⟨rfl, fun _ => rfl⟩

/-- Reads of other bytes may come before the frame. -/
theorem enters_of_ensures_enter {r : Registers} (hr : r.WellModed) {status : UInt8} (hstatus : Shows r status)
    (vector : UInt16) (before : List Cycle)
    (hbefore : ∀ t ∈ transfers before, t.direction = .read ∧ t.purpose ≠ .vector) :
    (Microcode.enter status vector).Ensures r fun log _ r' => Enters r (before ++ log) r' := by
  refine (Microcode.ensures_enter hr status vector).mono ?_
  rintro log _ r' ⟨low, high, hlog, hr'⟩
  exact ⟨transfers before, status, vector, low, high, hbefore, hstatus, by rw [transfers_append, hlog], hr'⟩

theorem ensures_enterHardware (kind : Interrupt) {r : Registers} (hr : r.WellModed) :
    (Microcode.enterHardware kind).Ensures r fun log _ r' => Enters r log r' := by
  simp only [Microcode.enterHardware, Microcode.ensures_bind, Microcode.ensures_get, Microcode.ensures_idle]
  cases hmode : r.emulation with
  | false =>
    exact enters_of_ensures_enter hr (shows_self r) _ [.idle] (by simp)
  | true =>
    have hstatus : Shows r (r.p &&& ~~~Status.breakBit) :=
      shows_of_emulation hmode <|
        forall_byte (P := fun p => p &&& ~~~Status.breakBit &&& ~~~Status.widths = p &&& ~~~Status.widths)
          (by decide +kernel) r.p
    exact enters_of_ensures_enter hr hstatus _ [.idle, .idle] (by simp)

theorem ensures_enterSoftware (source : SoftwareInterrupt) {r : Registers} (hr : r.WellModed) :
    (Microcode.enterSoftware source).Ensures r fun log _ r' => Enters (r.setPc (r.pc + 1)) log r' := by
  simp only [Microcode.enterSoftware, Microcode.ensures_bind, Microcode.ensures_fetch, Microcode.ensures_get]
  intro signature
  have hwellModed : (r.setPc (r.pc + 1)).WellModed := (Registers.sameMode_setPc r _).2 hr
  have hstatus : Shows (r.setPc (r.pc + 1))
      (if source = .brk ∧ r.emulation then r.p ||| Status.breakBit else r.p) := by
    split
    · rename_i hbrk
      refine shows_of_emulation hbrk.2 ?_
      exact forall_byte (P := fun p => (p ||| Status.breakBit) &&& ~~~Status.widths = p &&& ~~~Status.widths)
        (by decide +kernel) r.p
    · exact shows_self _
  exact enters_of_ensures_enter hwellModed hstatus _ [.read .code r.programAddress signature] (by simp)

/-- Whether a step that reports the event entered a handler. -/
def StepEvent.entersHandler : StepEvent → Bool
  | interrupt _ _ => true
  | executed _ _ opcode =>
    (Instruction.decode opcode).mnemonic = .brk ∨ (Instruction.decode opcode).mnemonic = .cop
  | _ => false

/-- Where the program goes on after the handler: an interrupt instruction has a signature byte. -/
def StepEvent.resumesAt (event : StepEvent) (pc : UInt16) : UInt16 :=
  match event with
  | executed _ _ _ => pc + 2
  | _ => pc

theorem ensures_activity_enters (cpu : Cpu) (hr : cpu.regs.WellModed) :
    cpu.activity.Ensures fun log result => result.1.entersHandler = true →
      Enters (cpu.regs.setPc (result.1.resumesAt cpu.regs.pc)) log result.2.1 ∧ result.2.2 = .running := by
  rw [Cpu.ensures_activity]
  split
  · exact nofun
  · exact nofun
  · rename_i kind _
    exact (ensures_enterHardware kind hr).mono fun _ _ _ h _ => ⟨h, rfl⟩
  · rw [Cpu.ensures_instruction]
    intro opcode
    by_cases henters : (Instruction.decode opcode).mnemonic = .brk ∨ (Instruction.decode opcode).mnemonic = .cop
    · obtain ⟨source, hsource⟩ : ∃ source, (Instruction.decode opcode).operation = .interrupt source := by
        rcases henters with h | h
        · exact ⟨.brk, by rw [Instruction.operation, h]⟩
        · exact ⟨.cop, by rw [Instruction.operation, h]⟩
      rw [hsource]
      have hfetched : (cpu.regs.setPc (cpu.regs.pc + 1)).WellModed := (Registers.sameMode_setPc _ _).2 hr
      refine (ensures_enterSoftware source hfetched).mono ?_
      rintro log _ r' ⟨lead, status, vector, low, high, hlead, hstatus, hlog, hr'⟩ -
      have hpc : cpu.regs.pc + 1 + 1 = cpu.regs.pc + 2 := by grind
      refine ⟨⟨⟨.read, .code, cpu.regs.programAddress, opcode⟩ :: lead, status, vector, low, high, ?_, ?_, ?_, ?_⟩, rfl⟩
      · simpa using hlead
      · exact hstatus
      · simpa [StepEvent.resumesAt, hpc] using hlog
      · simpa [StepEvent.resumesAt, hpc] using hr'
    · refine Microcode.ensures_of_forall ?_
      intro log _ r' h
      exact absurd (of_decide_eq_true h) henters

/-! ## Return -/

/-- The registers after a return, from the bytes that it pulls. The program bank is pulled in native mode only. -/
def returned (r : Registers) (status low high : UInt8) (bank : Option UInt8) : Registers :=
  let resumed := ((r.setS (r.s + UInt16.ofNat (frameSize r))).restoreP status).setPc (Word.ofBytes low high)
  match bank with
  | some bank => resumed.setPbr bank
  | none => resumed

theorem ensures_retInterrupt_native {r : Registers} (hmode : r.emulation = false) (mode : Mode)
    (post : List Cycle → Unit → Registers → Prop) :
    (Microcode.ofOperation mode .retInterrupt).Ensures r post ↔ ∀ status low high bank,
      post [.idle, .idle, .read .stack (r.setS (r.s + 1)).s.toUInt32 status,
          .read .stack (r.setS (r.s + 2)).s.toUInt32 low, .read .stack (r.setS (r.s + 3)).s.toUInt32 high,
          .read .stack (r.setS (r.s + 4)).s.toUInt32 bank]
        () ((((r.setS (r.s + 4)).restoreP status).setPc (Word.ofBytes low high)).setPbr bank) := by
  simp [Microcode.ofOperation, hmode, UInt16.add_assoc]

theorem ensures_retInterrupt_emulated {r : Registers} (hmode : r.emulation = true) (mode : Mode)
    (post : List Cycle → Unit → Registers → Prop) :
    (Microcode.ofOperation mode .retInterrupt).Ensures r post ↔ ∀ status low high,
      post [.idle, .idle, .read .stack (r.setS (r.s + 1)).s.toUInt32 status,
          .read .stack (r.setS (r.s + 2)).s.toUInt32 low, .read .stack (r.setS (r.s + 3)).s.toUInt32 high]
        () (((r.setS (r.s + 3)).restoreP status).setPc (Word.ofBytes low high)) := by
  simp [Microcode.ofOperation, hmode, UInt16.add_assoc]

theorem ensures_return (r : Registers) :
    Cpu.instruction.Ensures r fun log opcode r' => ∃ rest,
      transfers log = ⟨.read, .code, r.programAddress, opcode⟩ :: rest ∧
      ((Instruction.decode opcode).mnemonic = .rti → ∃ status low high bank,
        bank.toList.length + 3 = frameSize r ∧ rest = pulls r (status :: low :: high :: bank.toList) ∧
          r' = returned r status low high bank) := by
  rw [Cpu.ensures_instruction]
  intro opcode
  by_cases hreturn : (Instruction.decode opcode).mnemonic = .rti
  · have hop : (Instruction.decode opcode).operation = .retInterrupt := by
      rw [Instruction.operation, hreturn]
    rw [hop]
    cases hmode : r.emulation with
    | false =>
      rw [ensures_retInterrupt_native (r := r.setPc (r.pc + 1)) hmode]
      intro status low high bank
      refine ⟨_, rfl, fun _ => ⟨status, low, high, some bank, ?_, ?_, ?_⟩⟩
      · simp [frameSize, hmode]
      · simp [pulls, UInt16.add_assoc]
        rfl
      · simp [returned, frameSize, hmode]
    | true =>
      rw [ensures_retInterrupt_emulated (r := r.setPc (r.pc + 1)) hmode]
      intro status low high
      refine ⟨_, rfl, fun _ => ⟨status, low, high, none, ?_, ?_, ?_⟩⟩
      · simp [frameSize, hmode]
      · simp [pulls, UInt16.add_assoc]
        rfl
      · simp [returned, frameSize, hmode]
  · exact Microcode.ensures_of_forall fun log _ r' => ⟨transfers log, rfl, fun h => absurd h hreturn⟩

/-! ## Entry and return -/

/-- A status byte of an emulated processor restores the status together with the width bits that are live. -/
theorem Shows.restored {r : Registers} {status : UInt8} (h : Shows r status) :
    (if r.emulation then (status &&& ~~~Status.widths) |||
        (((r.p ||| Status.interruptDisable) &&& ~~~Status.decimal) &&& Status.widths) else status) = r.p := by
  cases hmode : r.emulation with
  | false =>
    rw [if_neg Bool.false_ne_true]
    exact h.2 hmode
  | true =>
    rw [if_pos rfl, h.1]
    exact forall_byte (P := fun p => (p &&& ~~~Status.widths) |||
      (((p ||| Status.interruptDisable) &&& ~~~Status.decimal) &&& Status.widths) = p) (by decide +kernel) r.p

/-- A return undoes an entry, but an emulated processor does not get its program bank back. -/
theorem returned_handlerStart {r : Registers} (hr : r.WellModed) {status : UInt8} (hstatus : Shows r status)
    (target : UInt16) :
    returned (handlerStart r target) status (Word.low r.pc) (Word.high r.pc)
        (if r.emulation then none else some r.pbr) =
      { r with pbr := if r.emulation then 0 else r.pbr } := by
  have hsize : frameSize (handlerStart r target) = frameSize r := rfl
  have hs : ((handlerStart r target).setS ((handlerStart r target).s + UInt16.ofNat (frameSize r))) =
      { handlerStart r target with s := r.s } := by
    have hback : (r.setS ((r.setS (r.s - UInt16.ofNat (frameSize r))).s + UInt16.ofNat (frameSize r))).s = r.s := by
      rw [Registers.setS_add, UInt16.sub_add_cancel, hr.setS_s]
    calc (handlerStart r target).setS ((handlerStart r target).s + UInt16.ofNat (frameSize r))
        = { handlerStart r target with
            s := (r.setS ((r.setS (r.s - UInt16.ofNat (frameSize r))).s + UInt16.ofNat (frameSize r))).s } := rfl
      _ = { handlerStart r target with s := r.s } := by rw [hback]
  have hp : ({ handlerStart r target with s := r.s }).restoreP status =
      { handlerStart r target with s := r.s, p := r.p } := by
    calc ({ handlerStart r target with s := r.s }).restoreP status
        = ({ handlerStart r target with s := r.s }).setP r.p := congrArg _ hstatus.restored
      _ = { handlerStart r target with s := r.s, p := r.p } := by
        apply Registers.setP_of_settled
        exact hr.narrow_index
  unfold returned
  rw [hsize, hs, hp, Word.ofBytes_low_high]
  cases hmode : r.emulation with
  | false => simp [handlerStart, Registers.setPc, Registers.setPbr, hmode]
  | true => simp [handlerStart, Registers.setPc, hmode]

/-! ## Two steps -/

/-- Where the handler lies that an entry found: the bytes read from the vector make its offset in bank 0. -/
def handlerAddress (log : List Cycle) : UInt32 :=
  match (transfers log).filterMap fun t => if t.purpose = .vector then some t.byte else none with
  | [low, high] => (Word.ofBytes low high).toUInt32
  | _ => 0

/-- After an entry the program counter is at the handler. -/
theorem Enters.programAddress {r r' : Registers} {log : List Cycle} (h : Enters r log r') :
    r'.programAddress = handlerAddress log := by
  obtain ⟨lead, status, vector, low, high, hlead, -, hlog, rfl⟩ := h
  have hvector : (transfers log).filterMap (fun t => if t.purpose = .vector then some t.byte else none) =
      [low, high] := by
    rw [hlog, List.filterMap_append, List.filterMap_append]
    have hlead : lead.filterMap (fun t => if t.purpose = .vector then some t.byte else none) = [] := by
      rw [List.filterMap_eq_nil_iff]
      intro t ht
      rw [if_neg (hlead t ht).2]
    have hpushes : (pushes r (frame r status)).filterMap
        (fun t => if t.purpose = .vector then some t.byte else none) = [] := by
      rw [List.filterMap_eq_nil_iff]
      intro t ht
      rw [if_neg (by rw [(mem_pushes ht).2]; decide)]
    rw [hlead, hpushes]
    rfl
  unfold handlerAddress
  rw [hvector]
  exact Address.ofBank_zero _

/-- The bytes of a frame, from the top of the stack on. -/
theorem frame_reverse_eq {r : Registers} {status status' low high : UInt8} {bank : Option UInt8}
    (h : status' :: low :: high :: bank.toList = (frame r status).reverse) :
    status' = status ∧ low = Word.low r.pc ∧ high = Word.high r.pc ∧
      bank = if r.emulation then none else some r.pbr := by
  cases hmode : r.emulation <;> cases bank <;> simp [frame, hmode] at h ⊢ <;> exact h

section Memory

variable {μ : Type} [Memory μ]

/-- On RAM a return pulls the frame that the entry before it pushed. -/
theorem pulled_eq_frame {r : Registers} (hr : r.WellModed) {memory between after : μ} {cells : UInt32 → Prop}
    (hram : Ram memory cells) {lead : List Transfer} {code : Transfer} {status low high : UInt8}
    {vector target : UInt16} {pulled : List UInt8} (hlead : ∀ t ∈ lead, t.direction = .read)
    (hcode : code.direction = .read) (hcells : ∀ t ∈ pushes r (frame r status), cells t.addr)
    (hlength : pulled.length = frameSize r)
    (hentry : Exchange memory (lead ++ (pushes r (frame r status) ++ vectorReads vector low high)) between)
    (hreturn : Exchange between (code :: pulls (handlerStart r target) pulled) after) :
    pulled = (frame r status).reverse := by
  have hroom : 0 + (frame r status).length ≤ stackSize r := by
    rw [length_frame, frameSize, stackSize]
    split <;> decide
  have hquiet : ∀ t ∈ vectorReads vector low high ++ [code], t.direction = .read := by
    simp [vectorReads, hcode]
  have hcoherent : Coherent (fun _ => none)
      (lead ++ (pushes r (frame r status) ++ ((vectorReads vector low high ++ [code]) ++
        pulls (handlerStart r target) pulled))) := by
    refine hram _ after (by simpa using hentry.append hreturn) ?_
    -- only the pushes write
    intro t ht hwrite
    simp only [List.mem_append] at ht
    rcases ht with ht | ht | ht | ht
    · exact absurd (hwrite.symm.trans (hlead t ht)) (by decide)
    · exact hcells t ht
    · exact absurd (hwrite.symm.trans (hquiet t (List.mem_append.2 ht))) (by decide)
    · exact absurd (hwrite.symm.trans (mem_pulls ht).1) (by decide)
  obtain ⟨contents, hafter, hstack⟩ :=
    (onStack_nil _ r).pushes hr.setS_s (frame r status) hroom (hcoherent.of_reads hlead)
  rw [List.append_nil, length_frame] at hstack
  have hhandler : OnStack contents (handlerStart r target) (frame r status).reverse := hstack.congr rfl rfl
  have hlast : Coherent contents (pulls (handlerStart r target) pulled ++ []) := by
    rw [List.append_nil]
    exact hafter.of_reads hquiet
  refine hhandler.pulls pulled ?_ hlast
  rw [List.length_reverse, length_frame, hlength]

/-- A handler is entered only when no further request is left. -/
theorem keepsNmi_of_enters {cpu : Cpu} {memory : μ} (h : (cpu.step memory).1.event.entersHandler = true) :
    cpu.keepsNmi = false := by
  have htask := cpu.task_event memory
  by_cases hstop : cpu.runState = .stopped
  · rw [Cpu.task_eq_stop.2 hstop] at htask
    cases hevent : (cpu.step memory).1.event <;> simp [hevent, StepEvent.task, StepEvent.entersHandler] at htask h
  · cases hnmi : cpu.nmiPending with
    | false => simp [Cpu.keepsNmi, hnmi]
    | true => simp [Cpu.keepsNmi, Cpu.task_eq_nmi.2 ⟨hstop, hnmi⟩]

/-- With interrupts disabled, a running processor executes the next instruction. -/
theorem Cpu.task_eq_execute {cpu : Cpu} (hrun : cpu.runState = .running) (hnmi : cpu.nmiPending = false)
    (hdisable : cpu.regs.flag Status.interruptDisable = true) : cpu.task = .execute := by
  simp [task, hrun, hnmi, hdisable]

theorem handlerStart_disables (r : Registers) (target : UInt16) :
    (handlerStart r target).flag Status.interruptDisable = true :=
  forall_byte (P := fun p => (((p ||| Status.interruptDisable) &&& ~~~Status.decimal) &&& Status.interruptDisable ==
    Status.interruptDisable) = true) (by decide +kernel) r.p

/-- What the execution of a return does on a memory. -/
theorem step_return {cpu : Cpu} (htask : cpu.task = .execute) (memory : μ)
    (hreturn : (Instruction.decode (Memory.read memory cpu.regs.programAddress).1).mnemonic = .rti) :
    let opcode := (Memory.read memory cpu.regs.programAddress).1
    (cpu.step memory).1.event = .executed cpu.regs.pbr cpu.regs.pc opcode ∧
    ∃ status low high bank, bank.toList.length + 3 = frameSize cpu.regs ∧
      cpu.transfers memory = ⟨.read, .code, cpu.regs.programAddress, opcode⟩ ::
        pulls cpu.regs (status :: low :: high :: bank.toList) ∧
      (cpu.step memory).2.1.regs = returned cpu.regs status low high bank := by
  have hactivity : cpu.activity.Ensures fun log result => ∃ opcode rest,
      result.1 = .executed cpu.regs.pbr cpu.regs.pc opcode ∧
      transfers log = ⟨.read, .code, cpu.regs.programAddress, opcode⟩ :: rest ∧
      ((Instruction.decode opcode).mnemonic = .rti → ∃ status low high bank,
        bank.toList.length + 3 = frameSize cpu.regs ∧ rest = pulls cpu.regs (status :: low :: high :: bank.toList) ∧
          result.2.1 = returned cpu.regs status low high bank) := by
    rw [Cpu.ensures_activity, htask]
    refine (ensures_return cpu.regs).mono ?_
    rintro log opcode r' ⟨rest, hlog, hpulls⟩
    exact ⟨opcode, rest, rfl, hlog, hpulls⟩
  obtain ⟨opcode, rest, hevent, hlog, hpulls⟩ := Cpu.step_of_ensures hactivity memory
  -- the opcode in the log is the byte that memory answers
  have hopcode : (Memory.read memory cpu.regs.programAddress).1 = opcode := by
    have hexchange := cpu.exchange_step memory
    rw [Cpu.transfers, hlog] at hexchange
    exact hexchange.1
  rw [hopcode] at hreturn ⊢
  obtain ⟨status, low, high, bank, hbank, rfl, hregs⟩ := hpulls hreturn
  exact ⟨hevent, status, low, high, bank, hbank, hlog, hregs⟩

/-- **A handler that returns at once goes unnoticed** on RAM, but for the program bank of an emulated processor. -/
theorem return_undoes_entry (cpu : Cpu) (memory : μ) (line : Bool) (hr : cpu.regs.WellModed)
    (hentry : (cpu.step memory).1.event.entersHandler = true)
    (hram : Ram memory fun addr => ∃ t ∈ cpu.transfers memory, t.direction = .write ∧ t.addr = addr)
    (hhandler : (Instruction.decode
      (Memory.read (cpu.step memory).2.2 (handlerAddress (cpu.log memory))).1).mnemonic = .rti) :
    let entered := (cpu.step memory).2
    let after := (entered.1.setIrqLine line).step entered.2
    after.1.event = .executed 0 (Address.offset (handlerAddress (cpu.log memory)))
      (Memory.read entered.2 (handlerAddress (cpu.log memory))).1 ∧
    after.2.1.regs = { cpu.regs with
      pc := (cpu.step memory).1.event.resumesAt cpu.regs.pc
      pbr := if cpu.regs.emulation then 0 else cpu.regs.pbr } := by
  intro entered after
  let r := cpu.regs.setPc ((cpu.step memory).1.event.resumesAt cpu.regs.pc)
  have hwellModed : r.WellModed := (Registers.sameMode_setPc _ _).2 hr
  obtain ⟨henters, hrun⟩ : Enters r (cpu.log memory) entered.1.regs ∧ entered.1.runState = .running :=
    Cpu.step_of_ensures (ensures_activity_enters cpu hr) memory hentry
  have haddress : entered.1.regs.programAddress = handlerAddress (cpu.log memory) := henters.programAddress
  obtain ⟨lead, status, vector, low, high, hlead, hstatus, hlog, hregs⟩ := henters
  let resting := entered.1.setIrqLine line
  have hresting : resting.regs = handlerStart r (Word.ofBytes low high) := hregs
  have hdisable : resting.regs.flag Status.interruptDisable = true := by
    rw [hresting]
    exact handlerStart_disables r _
  have htask : resting.task = .execute := Cpu.task_eq_execute hrun (keepsNmi_of_enters hentry) hdisable
  rw [← haddress] at hhandler ⊢
  obtain ⟨hevent, status', low', high', bank, hbank, hpulls, hafter⟩ := step_return htask entered.2 hhandler
  have hframe : status' :: low' :: high' :: bank.toList = (frame r status).reverse := by
    have hfirst := cpu.exchange_step memory
    have hsecond := resting.exchange_step entered.2
    have hwritten : ∀ t ∈ pushes r (frame r status),
        ∃ t' ∈ cpu.transfers memory, t'.direction = .write ∧ t'.addr = t.addr := by
      intro t ht
      refine ⟨t, ?_, (mem_pushes ht).1, rfl⟩
      rw [Cpu.transfers, hlog]
      exact List.mem_append_right _ (List.mem_append_left _ ht)
    rw [Cpu.transfers, hlog] at hfirst
    rw [hpulls, hresting] at hsecond
    rw [hresting] at hbank
    exact pulled_eq_frame hwellModed hram (fun t ht => (hlead t ht).1) rfl hwritten hbank hfirst hsecond
  obtain ⟨hstatusByte, hlow, hhigh, hbankByte⟩ := frame_reverse_eq hframe
  constructor
  · have hoffset : Address.offset entered.1.regs.programAddress = resting.regs.pc := Address.offset_ofBank _ _
    have hbankZero : resting.regs.pbr = 0 := by rw [hresting]; rfl
    rw [hoffset, ← hbankZero]
    exact hevent
  · have hreturned : after.2.1.regs = returned resting.regs status' low' high' bank := hafter
    rw [hreturned, hresting, hstatusByte, hlow, hhigh, hbankByte, returned_handlerStart hwellModed hstatus]
    rfl

/-- A native processor breaks, and goes on after the signature byte. -/
theorem return_undoes_entry_break :
    let memory : FlatMemory := ⟨fun addr => if addr = 0 then 0x00 else 0x40⟩
    let cpu : Cpu := { regs := { emulation := false } }
    let entered := (cpu.step memory).2
    cpu.regs.WellModed ∧ (cpu.step memory).1.event.entersHandler = true ∧
    (Instruction.decode (Memory.read entered.2 (handlerAddress (cpu.log memory))).1).mnemonic = .rti ∧
    ((entered.1.setIrqLine true).step entered.2).2.1.regs = { cpu.regs with pc := 2 } :=
  have hr : ({ emulation := false } : Registers).WellModed := ⟨by decide, by decide⟩
  ⟨hr, by decide, by decide,
    (return_undoes_entry _ _ true hr (by decide) ((FlatMemory.ram _).mono fun _ _ => trivial) (by decide)).2⟩

end Memory

end Emu816
