import Emu816.Proofs.FrameCounts
import Emu816.Proofs.RegisterRouting
import Emu816.Proofs.Reset
import Emu816.Proofs.StorageFrame

/-!
# Rows of a trace

The line on a step is taken from memory before the step, without a side effect, while the processor reads the
instruction as any other byte. Without callbacks both see the same, but for the two status registers: they answer the
processor, while a listing shows that nothing is stored there.

- `Cpu.executed_opcode`: the opcode that a step executes is the byte that it reads at the program counter.
- `Bus.read_unhandled`: what a bus without callbacks answers.
- `Machine.handlers_frameSteps`: the callbacks of a machine during its frames.
- `traceLine_executed`: the line on a step that executes an instruction; `traced_rows`: all lines of a report.
- `row_of_status_register`: a program that runs into a status register.
-/

namespace Emu816

/-! ## Opcodes -/

/-- A step executes the instruction at the program counter, whose opcode is the first byte that it reads. -/
theorem Cpu.executed_opcode {μ : Type} [Memory μ] (cpu : Cpu) (memory : μ) {pbr : UInt8} {pc : UInt16}
    {opcode : UInt8} (h : (cpu.step memory).1.event = .executed pbr pc opcode) :
    pbr = cpu.regs.pbr ∧ pc = cpu.regs.pc ∧ (Memory.read memory cpu.regs.programAddress).1 = opcode := by
  obtain ⟨hpbr, hpc, rest, hlog⟩ := Cpu.step_of_executed h
    (fun log _ => ∃ rest, log = .read .code cpu.regs.programAddress opcode :: rest)
    (Microcode.ensures_of_forall fun log _ _ => ⟨log, rfl⟩)
  have hexchange := cpu.exchange_step memory
  rw [Cpu.transfers, hlog] at hexchange
  exact ⟨hpbr, hpc, hexchange.1⟩

/-- The addresses of the two status registers, which answer without a callback; all system banks show them. -/
def IsStatusRegister (bank : UInt8) (offset : UInt16) : Prop :=
  bank.toNat % 0x80 < 0x40 ∧ (offset = 0x4210 ∨ offset = 0x4212)

namespace Bus

variable {σ : Type} (bus : Bus σ)

/-- A register without a callback answers what such registers do, and shows nothing. -/
theorem read_register (h : bus.handlers = {}) {addr : UInt32} {register : UInt16}
    (hregister : bus.scheme.locate addr = .io register) :
    (bus.read addr).1 = defaultIoRead register ∧ bus.peek addr = openBus := by
  rw [bus.read_io hregister, h, peek, hregister]
  simp [stored]

/-- **Without callbacks** a bus answers what it shows, but for the status registers. -/
theorem read_unhandled (h : bus.handlers = {}) (bank : UInt8) (offset : UInt16) :
    (¬IsStatusRegister bank offset →
        (bus.read (Address.ofBank bank offset)).1 = bus.peek (Address.ofBank bank offset)) ∧
      (IsStatusRegister bank offset →
        (bus.read (Address.ofBank bank offset)).1 = (if offset = 0x4210 then 0x02 else 0x00) ∧
          bus.peek (Address.ofBank bank offset) = openBus) := by
  have hlocate {register : UInt16} : bus.scheme.locate (Address.ofBank bank offset) = .io register ↔
      bank.toNat % 0x80 < 0x40 ∧ offset = register ∧ 0x2000 ≤ register ∧ register < 0x6000 := by
    rw [Scheme.locate_eq_io, Address.bank_ofBank, Address.offset_ofBank]
  constructor
  · intro hstatus
    cases hplain : (bus.scheme.locate (Address.ofBank bank offset)).isIo with
    | false => rw [bus.read_eq hplain]
    | true =>
      obtain ⟨register, hregister⟩ := Location.isIo_iff.1 hplain
      obtain ⟨hread, hpeek⟩ := bus.read_register h hregister
      obtain ⟨hbank, rfl, -⟩ := hlocate.1 hregister
      rw [hread, hpeek, defaultIoRead, if_neg fun hfirst => hstatus ⟨hbank, .inl hfirst⟩,
        if_neg fun hsecond => hstatus ⟨hbank, .inr hsecond⟩]
      rfl
  · rintro ⟨hbank, hstatus⟩
    have hanswer : defaultIoRead offset = if offset = 0x4210 then 0x02 else 0x00 := by
      rcases hstatus with rfl | rfl <;> rfl
    have hwindow : 0x2000 ≤ offset ∧ offset < 0x6000 := by
      rcases hstatus with rfl | rfl <;> decide
    rw [← hanswer]
    exact bus.read_register h (hlocate.2 ⟨hbank, rfl, hwindow⟩)

end Bus

/-! ## Callbacks during frames -/

namespace Machine

variable {σ τ : Type} [Observer σ] [TraceSink τ]

/-- A step whose task it is executes an instruction. -/
theorem executes_of_task {machine : Machine σ τ} (h : machine.cpu.task = .execute) :
    ∃ opcode, machine.step.1.event = .executed machine.cpu.regs.pbr machine.cpu.regs.pc opcode := by
  have htask : machine.step.1.event.task = .execute := (machine.cpu.task_event machine.bus).trans h
  cases hevent : machine.step.1.event with
  | executed pbr pc opcode =>
    obtain ⟨rfl, rfl, -⟩ := machine.cpu.executed_opcode machine.bus hevent
    exact ⟨opcode, rfl⟩
  | interrupt kind vector => rw [hevent] at htask; cases htask
  | waiting => rw [hevent] at htask; cases htask
  | stopped => rw [hevent] at htask; cases htask

theorem handlers_afterSteps (count : Nat) (machine : Machine σ τ) :
    (afterSteps count machine).bus.handlers = machine.bus.handlers :=
  handlers_of_exchange (exchange_starts count machine)

theorem handlers_starts {count : Nat} {machine start : Machine σ τ} (hmem : start ∈ starts count machine) :
    start.bus.handlers = machine.bus.handlers := by
  obtain ⟨k, hstart⟩ := List.getElem?_of_mem hmem
  have hk : k < count := by
    have hlength := (List.getElem?_eq_some_iff.1 hstart).1
    rwa [length_starts] at hlength
  rw [getElem?_starts hk, Option.some_inj] at hstart
  rw [← hstart]
  exact handlers_afterSteps k machine

/-- Frames leave the callbacks in place. -/
theorem handlers_frameSteps {deliverNmi : Bool} {frames : Nat} {machine start : Machine σ τ}
    (hmem : start ∈ frameSteps deliverNmi frames machine) : start.bus.handlers = machine.bus.handlers := by
  induction frames generalizing machine with
  | zero => cases hmem
  | succ frames ih =>
    rw [frameSteps_succ, List.mem_append] at hmem
    rcases hmem with hmem | hmem
    · exact handlers_starts hmem
    · have hframe : (machine.runFrame deliverNmi).2.bus.handlers = machine.bus.handlers := by
        rw [runFrame_machine]
        cases deliverNmi <;> exact handlers_afterSteps _ machine
      exact (ih hmem).trans hframe

end Machine

namespace Runner

/-! ## Lines -/

section Lines

variable {σ τ : Type} [Observer σ] [TraceSink τ]

/-- What a row shows of a step that executes an instruction: its address, and its opcode or, for a status register, that
nothing is stored there. -/
structure RowOf (row : Row) (pbr : UInt8) (pc : UInt16) (opcode : UInt8) : Prop where
  addr : row.addr = Address.ofBank pbr pc
  stored : ¬IsStatusRegister pbr pc → row.bytes.head? = some opcode
  status : IsStatusRegister pbr pc →
    row.bytes.head? = some openBus ∧ opcode = if pc = 0x4210 then 0x02 else 0x00

/-- **The line on a step that executes an instruction**, on a machine without callbacks. -/
theorem traceLine_executed {machine : Machine σ τ} (h : machine.bus.handlers = {}) {pbr : UInt8} {pc : UInt16}
    {opcode : UInt8} (hevent : machine.step.1.event = .executed pbr pc opcode) :
    ∃ row, nextRow machine = some row ∧ RowOf row pbr pc opcode ∧
      traceLine machine = some (Text.padRight 32 row.text ++ " ; " ++ toString machine.step.1.cycles) := by
  have htask : machine.step.1.event.task = machine.cpu.task := machine.cpu.task_event machine.bus
  rw [hevent] at htask
  have hrow := nextRow_of_execute htask.symm
  obtain ⟨rfl, rfl, hopcode⟩ := machine.cpu.executed_opcode machine.bus hevent
  obtain ⟨hplain, hstatus⟩ := machine.bus.read_unhandled h machine.cpu.regs.pbr machine.cpu.regs.pc
  have hhead : (machine.cpu.regs.row machine.bus.peek).bytes.head? =
      some (machine.bus.peek machine.cpu.regs.programAddress) := by
    simp [Registers.row, Row.decode]
  refine ⟨_, hrow, ⟨Registers.row_addr .., fun hother => ?_, fun hregister => ?_⟩, ?_⟩
  · rw [hhead, ← hopcode]
    exact congrArg some (hplain hother).symm
  · obtain ⟨hread, hpeek⟩ := hstatus hregister
    exact ⟨hhead.trans (congrArg some hpeek), hopcode.symm.trans hread⟩
  · rw [traceLine, hrow, Report.step, hevent]
    rfl

end Lines

/-! ## Reports -/

/-- A session starts without callbacks. -/
theorem handlers_prepare (options : Options) (cartridge : Image) (console : Console) :
    (prepare options cartridge console).bus.handlers = {} := by
  rw [prepare, Machine.installSink, Machine.mapBus, Machine.reset_eq]
  cases options.scheme? with
  | none => rfl
  | some scheme => rfl

/-- **The lines of a traced report** are those on the steps of its frames, in order. The line on a step that executes an
instruction starts with the row at its address. The first byte of the row is the opcode that was executed wherever the
program counter points, but for the two status registers: they are executed as what they answer, while the row, which
is taken without a side effect, shows that nothing is stored there. -/
theorem traced_rows {arguments : List String} {options : Options}
    (hcommand : Command.ofArguments arguments = .ok (.run options)) (htrace : options.trace = true)
    (readFile : String → Except ReadFault Image) {file : Image} (hfile : readFile options.path = .ok file)
    (hcartridge : file.withoutCopierHeader.isEmpty = false) :
    let machine := prepare options file.withoutCopierHeader (startConsole options file)
    let steps := Machine.frameSteps options.deliverNmi options.frames machine
    (∃ rest, (respond arguments readFile).stdout = headerLine machine ++ asLines (steps.filterMap traceLine) ++ rest) ∧
    ∀ start ∈ steps, ∀ pbr pc opcode, start.step.1.event = .executed pbr pc opcode →
      ∃ row, nextRow start = some row ∧ RowOf row pbr pc opcode ∧
        traceLine start = some (Text.padRight 32 row.text ++ " ; " ++ toString start.step.1.cycles) := by
  intro machine steps
  refine ⟨?_, fun start hmem pbr pc opcode hevent => ?_⟩
  · rw [respond_of_cartridge hcommand hfile hcartridge, reportRun_eq, htrace, if_pos rfl, frameLines_eq]
    exact ⟨_, rfl⟩
  · have hhandlers : start.bus.handlers = {} :=
      (Machine.handlers_frameSteps hmem).trans (handlers_prepare options _ _)
    exact traceLine_executed hhandlers hevent

/-! ## A program that executes a status register -/

/-- A jump to a status register. -/
def statusProgram : Image := #[0x4C, 0x10, 0x42]

/-- Options for a trace of it. -/
def statusOptions : Options := { path := "demo.sfc", trace := true, deliverNmi := false }

/-- The machine that is traced. -/
def statusMachine : Machine Console Tally :=
  prepare statusOptions statusProgram.withoutCopierHeader (startConsole statusOptions statusProgram)

theorem handlers_statusMachine : statusMachine.step.2.bus.handlers = {} :=
  (Machine.handlers_afterSteps 1 statusMachine).trans (handlers_prepare ..)

/-- It jumps in its first step, and executes the register in its second. -/
theorem steps_statusMachine :
    (∃ rest, Machine.frameSteps statusOptions.deliverNmi statusOptions.frames statusMachine =
      statusMachine :: statusMachine.step.2 :: rest) ∧
      statusMachine.step.1.event = .executed 0 0x8000 0x4C ∧
      statusMachine.step.2.step.1.event = .executed 0 0x4210 0x02 := by
  have hcycles : statusMachine.step.1.cycles ≤ 9 := statusMachine.cpu.step_cycles_le statusMachine.bus
  have hbudget : statusMachine.config.cyclesPerFrame = 59659 := rfl
  have hnext : 59659 - statusMachine.step.1.cycles ≠ 0 := by omega
  refine ⟨?_, by decide +kernel, ?_⟩
  · rw [show statusOptions.frames = 1 from rfl, Machine.frameSteps_succ, hbudget,
      Machine.runStarts_of_ne_zero _ (by decide), Machine.runStarts_of_ne_zero _ hnext, List.cons_append,
      List.cons_append]
    exact ⟨_, rfl⟩
  · -- the table of callbacks cannot be evaluated, so the byte comes from the law of the bus
    obtain ⟨htask, hpbr, hpc⟩ :
        statusMachine.step.2.cpu.task = .execute ∧ statusMachine.step.2.cpu.regs.pbr = 0 ∧
          statusMachine.step.2.cpu.regs.pc = 0x4210 := by decide +kernel
    obtain ⟨opcode, hevent⟩ := Machine.executes_of_task htask
    obtain ⟨-, -, hread⟩ := statusMachine.step.2.cpu.executed_opcode _ hevent
    have hstatus := (statusMachine.step.2.bus.read_unhandled handlers_statusMachine 0 0x4210).2 ⟨by decide, .inl rfl⟩
    rw [hpbr, hpc] at hevent
    rw [hevent, ← hread, Registers.programAddress, hpbr, hpc]
    exact congrArg _ hstatus.1

/-- The row of that step shows that nothing is stored there, and so another instruction. -/
theorem row_of_status_register :
    ¬∀ start ∈ Machine.frameSteps statusOptions.deliverNmi statusOptions.frames statusMachine, ∀ pbr pc opcode,
      start.step.1.event = .executed pbr pc opcode →
        ∃ row, nextRow start = some row ∧ row.addr = Address.ofBank pbr pc ∧ row.bytes.head? = some opcode := by
  obtain ⟨⟨rest, hsteps⟩, -, hevent⟩ := steps_statusMachine
  intro h
  rw [hsteps] at h
  obtain ⟨row, hrow, -, hopcode⟩ := h statusMachine.step.2 (by simp) 0 0x4210 0x02 hevent
  obtain ⟨row', hrow', hshows, -⟩ := traceLine_executed handlers_statusMachine hevent
  rw [hrow, Option.some_inj] at hrow'
  obtain ⟨hhead, -⟩ := hshows.status ⟨by decide, .inl rfl⟩
  rw [← hrow', hopcode] at hhead
  exact absurd hhead (by decide)

/-- The first two lines of the report on that session. -/
theorem traced_rows_status :
    let line (row : Row) (start : Machine Console Tally) :=
      Text.padRight 32 row.text ++ " ; " ++ toString start.step.1.cycles
    ∃ (jump register : Row) (lines : List String) (rest : String),
      (respond ["--trace", "--no-nmi", "demo.sfc"] fun _ => .ok statusProgram).stdout =
        headerLine statusMachine ++
          asLines (line jump statusMachine :: line register statusMachine.step.2 :: lines) ++ rest ∧
      RowOf jump 0 0x8000 0x4C ∧ RowOf register 0 0x4210 0x02 := by
  intro line
  have hcommand : Command.ofArguments ["--trace", "--no-nmi", "demo.sfc"] = .ok (.run statusOptions) := by
    decide +kernel
  obtain ⟨⟨others, hsteps⟩, hjump, hregister⟩ := steps_statusMachine
  obtain ⟨⟨rest, hout⟩, hlines⟩ :=
    traced_rows hcommand rfl (fun _ => .ok statusProgram) rfl (by decide +kernel)
  rw [show prepare statusOptions _ (startConsole statusOptions _) = statusMachine from rfl, hsteps] at hout hlines
  obtain ⟨jump, -, hjumpRow, hjumpLine⟩ := hlines statusMachine (by simp) _ _ _ hjump
  obtain ⟨register, -, hregisterRow, hregisterLine⟩ := hlines statusMachine.step.2 (by simp) _ _ _ hregister
  refine ⟨jump, register, others.filterMap traceLine, rest, ?_, hjumpRow, hregisterRow⟩
  rw [hout, List.filterMap_cons_some hjumpLine, List.filterMap_cons_some hregisterLine]

end Runner

end Emu816
