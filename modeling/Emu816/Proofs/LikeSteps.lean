import Emu816.Proofs.InterruptProtocol
import Emu816.Proofs.LikeRoutines

/-!
# Steps of processors that are alike

Two processors that are alike do the same in a step, unless the step depends on what is different about them; the
instruction that is executed, or the entry into a handler, decides on what it depends.

- `Cpu.Alike`: processors that differ in registers alone, which are alike.
- `StepEvent.Agree`: registers in which a step finds the same.
- `Cpu.SameStep`: what the steps of two processors have in common; `Cpu.Alike.step`: those of processors that are alike.
- `Cpu.Alike.play`: runs under the same host.
-/

namespace Emu816

variable {L : Likeness}

/-! ## Events -/

/-- Whether a step depends on the byte of the accumulator that the byte width hides. -/
def StepEvent.usesHiddenByte (event : StepEvent) (r : Registers) : Bool :=
  match event with
  | executed _ _ opcode => (Instruction.decode opcode).mnemonic.usesHiddenByte r
  | interrupt _ _ | waiting | stopped => false

/-- Whether a step pushes a bank register. -/
def StepEvent.pushesBank (event : StepEvent) (r : Registers) : Bool :=
  match event with
  | executed _ _ opcode => (Instruction.decode opcode).mnemonic.pushesBank r
  | interrupt _ _ => !r.emulation
  | waiting | stopped => false

/-- The events differ at most in the bank that they report. -/
inductive StepEvent.Alike (L : Likeness) : StepEvent → StepEvent → Prop
  | executed {pbr pbr' : UInt8} (h : L.bank pbr pbr') (pc : UInt16) (opcode : UInt8) :
    Alike L (.executed pbr pc opcode) (.executed pbr' pc opcode)
  | interrupt (kind : Interrupt) (vector : UInt16) : Alike L (.interrupt kind vector) (.interrupt kind vector)
  | waiting : Alike L .waiting .waiting
  | stopped : Alike L .stopped .stopped

/-- The registers are alike, and the same in all that the step depends on. -/
def StepEvent.Agree (L : Likeness) (event : StepEvent) (r r' : Registers) : Prop :=
  match event with
  | executed _ _ opcode => L.Agree (Instruction.decode opcode).mnemonic r r'
  | interrupt _ _ => Microcode.SameFrame L r r'
  | waiting | stopped => L.Alike r r'

/-- Registers that are alike agree if the accumulators show the same, and what is hidden of them and the banks are the
same where the step depends on them. -/
theorem StepEvent.agree_of_alike {event : StepEvent} {r r' : Registers} (h : L.Alike r r')
    (hoperand : r.accumulator = r'.accumulator) (hwhole : event.usesHiddenByte r = true → r.a = r'.a)
    (hbanks : event.pushesBank r = true → r.pbr = r'.pbr ∧ r.dbr = r'.dbr) : event.Agree L r r' := by
  cases event with
  | executed pbr pc opcode => exact ⟨h, hoperand, hwhole, hbanks⟩
  | interrupt kind vector => exact ⟨h, fun hnative => (hbanks (by simp [pushesBank, hnative])).1⟩
  | waiting => exact h
  | stopped => exact h

namespace Cpu

/-! ## Processors -/

/-- The processors differ in registers alone, which are alike. -/
structure Alike (L : Likeness) (cpu cpu' : Cpu) : Prop where
  regs : L.Alike cpu.regs cpu'.regs
  runState : cpu.runState = cpu'.runState
  nmiPending : cpu.nmiPending = cpu'.nmiPending
  irqLine : cpu.irqLine = cpu'.irqLine
  cycles : cpu.cycles = cpu'.cycles
  stepCycles : cpu.stepCycles = cpu'.stepCycles
  resetFallback : cpu.resetFallback = cpu'.resetFallback

namespace Alike

variable {cpu cpu' : Cpu} (h : Alike L cpu cpu')
include h

theorem task : cpu.task = cpu'.task := by
  rw [Cpu.task, Cpu.task, h.runState, h.nmiPending, h.irqLine, h.regs.flag]

theorem keepsNmi : cpu.keepsNmi = cpu'.keepsNmi := by
  rw [Cpu.keepsNmi, Cpu.keepsNmi, h.nmiPending, h.task]

theorem restarted (vector : UInt16) : Alike L (cpu.restarted vector) (cpu'.restarted vector) := by
  rw [Cpu.restarted, Cpu.restarted, entryPoint, entryPoint, h.resetFallback]
  exact ⟨.refl L _, rfl, rfl, rfl, rfl, rfl, rfl⟩

end Alike

/-! ## Activities of a step -/

/-- The cycles of an instruction after its opcode, with what the step reports. -/
def execution (cpu : Cpu) (opcode : UInt8) : Activity (StepEvent × Registers × RunState) := do
  let entry := Instruction.decode opcode
  let ((), regs) ← (Microcode.ofOperation entry.mode entry.operation).run (cpu.regs.setPc (cpu.regs.pc + 1))
  return (.executed cpu.regs.pbr cpu.regs.pc opcode, regs, entry.operation.runState)

theorem activity_of_execute {cpu : Cpu} (h : cpu.task = .execute) :
    cpu.activity = .read .code (Address.wrap cpu.regs.programAddress) cpu.execution := by
  rw [activity, h]
  simp [instruction, Microcode.fetch]
  rfl

/-- What a step ends in, for processors that are alike. -/
def Ending (L : Likeness) (result result' : StepEvent × Registers × RunState) : Prop :=
  result.1.Alike L result'.1 ∧ L.Alike result.2.1 result'.2.1 ∧ result.2.2 = result'.2.2

variable {cpu cpu' : Cpu}

theorem lockstep_execution (h : Alike L cpu cpu') {opcode : UInt8}
    (hagree : L.Agree (Instruction.decode opcode).mnemonic cpu.regs cpu'.regs) :
    Activity.Lockstep L.near (Ending L) (cpu.execution opcode) (cpu'.execution opcode) := by
  have hpc : cpu'.regs.setPc (cpu'.regs.pc + 1) = cpu'.regs.setPc (cpu.regs.pc + 1) := by rw [h.regs.pc]
  have hcode := Microcode.together_ofOperation (L.kept_agree _) (likens_operation L (Instruction.decode opcode))
    (Instruction.decode opcode).mode _ _ ((L.kept_agree _).setPc hagree (cpu.regs.pc + 1))
  rw [execution, execution, hpc, ← h.regs.pc]
  exact hcode.bind fun out out' hout => .done ⟨.executed h.regs.pbr _ _, hout.2, rfl⟩

theorem lockstep_interrupt {kind : Interrupt} (h : Alike L cpu cpu') (htask : cpu.task = .interrupt kind)
    (hframe : Microcode.SameFrame L cpu.regs cpu'.regs) :
    Activity.Lockstep L.near (Ending L) cpu.activity cpu'.activity := by
  rw [activity, activity, ← h.task, htask, ← h.regs.emulation]
  exact (Microcode.together_enterHardware kind _ _ hframe).bind fun out out' hout =>
    .done ⟨.interrupt kind _, hout.2, rfl⟩

section Memory

variable {μ : Type} [Memory μ]

/-- A step that executes reports the opcode that memory shows at the program counter. -/
theorem eventAt_execute (htask : cpu.task = .execute) (memory : μ) :
    eventAt (cpu, memory) = .executed cpu.regs.pbr cpu.regs.pc
      (Memory.read memory (Address.wrap cpu.regs.programAddress)).1 := by
  have hreports (opcode : UInt8) : (cpu.execution opcode).Ensures fun _ result =>
      result.1 = .executed cpu.regs.pbr cpu.regs.pc opcode :=
    (Activity.ensures_bind _ _ _).mpr (Activity.ensures_of_forall fun _ _ => rfl)
  show (cpu.activity.run memory).value.1 = _
  rw [activity_of_execute htask]
  exact (hreports _).log _

/-! ## Steps -/

/-- What the steps of two processors have in common on a memory. -/
structure SameStep (L : Likeness) (cpu cpu' : Cpu) (memory : μ) : Prop where
  event : (eventAt (cpu, memory)).Alike L (eventAt (cpu', memory))
  cycles : (cpu.step memory).1.cycles = (cpu'.step memory).1.cycles
  transfers : List.Forall₂ (Transfer.Near L.near) (cpu.transfers memory) (cpu'.transfers memory)
  after : Alike L (cpu.step memory).2.1 (cpu'.step memory).2.1
  memory : (cpu.step memory).2.2 = (cpu'.step memory).2.2

/-- The step of a processor plays its activity. -/
theorem sameStep_of_sameRun (h : Alike L cpu cpu') {memory : μ}
    (hrun : Activity.SameRun L.near (Ending L) cpu.activity cpu'.activity memory) : SameStep L cpu cpu' memory where
  event := hrun.value.1
  cycles := hrun.cycles
  transfers := hrun.transfers
  memory := hrun.after
  after :=
    { regs := hrun.value.2.1
      runState := hrun.value.2.2
      nmiPending := h.keepsNmi
      irqLine := h.irqLine
      cycles := (congrArg (cpu.cycles + ·) hrun.cycles).trans (congrArg (· + _) h.cycles)
      stepCycles := hrun.cycles
      resetFallback := h.resetFallback }

/-- **Processors that are alike do the same in a step** that finds the same in their registers. -/
theorem Alike.step (h : Alike L cpu cpu') (hμ : Activity.Indifferent L.near μ) {memory : μ}
    (hagree : (eventAt (cpu, memory)).Agree L cpu.regs cpu'.regs) : SameStep L cpu cpu' memory := by
  refine sameStep_of_sameRun h ?_
  have htask' := h.task.symm
  cases htask : cpu.task with
  | stop =>
    rw [htask] at htask'
    rw [activity, activity, htask, htask']
    exact (Activity.SameRun.done ⟨.stopped, h.regs, rfl⟩ memory).idle
  | wait =>
    rw [htask] at htask'
    rw [activity, activity, htask, htask']
    exact (Activity.SameRun.done ⟨.waiting, h.regs, rfl⟩ memory).idle
  | interrupt kind =>
    -- an entry depends on the mode and on the bank that it pushes
    have hframe : Microcode.SameFrame L cpu.regs cpu'.regs := by
      have htaskEvent := cpu.task_event memory
      rw [htask] at htaskEvent
      cases hevent : (cpu.step memory).1.event with
      | interrupt entered vector =>
        rw [eventAt, hevent] at hagree
        exact hagree
      | executed _ _ _ | waiting | stopped =>
        rw [hevent] at htaskEvent
        cases htaskEvent
    exact (lockstep_interrupt h htask hframe).run hμ memory
  | execute =>
    rw [eventAt_execute htask] at hagree
    rw [activity_of_execute htask, activity_of_execute (htask'.trans htask)]
    exact .read hμ (L.near_wrap h.regs.near_programAddress) .code ((lockstep_execution h hagree).run hμ _)

end Memory

end Cpu

/-! ## Runs under a host -/

theorem RegisterWrite.apply_alike (write : RegisterWrite) {r r' : Registers} (h : L.Alike r r') :
    L.Alike (write.apply r) (write.apply r') := by
  cases write with
  | a value => exact h.setA value
  | x value => exact h.setX value
  | y value => exact h.setY value
  | s value => exact h.setS value
  | d value => exact h.setD value
  | pc value => exact h.setPc value
  | pbr value => exact h.setPbr value
  | dbr value => exact h.setDbr value
  | p value => exact h.setP value
  | pulledStatus value => exact h.restoreP value
  | flag mask enabled => exact h.setFlag mask enabled
  | emulation enabled => exact h.setEmulation enabled
  | accumulator value => exact h.setAccumulator value

theorem HostCall.apply_alike (call : HostCall) {cpu cpu' : Cpu} (h : cpu.Alike L cpu') :
    (call.apply cpu).Alike L (call.apply cpu') := by
  cases call with
  | raiseNmi => exact { h with nmiPending := rfl }
  | setNmiPending pending => exact { h with nmiPending := rfl }
  | setIrqLine asserted => exact { h with irqLine := rfl }
  | write w => exact { h with regs := w.apply_alike h.regs }
  | setFlag mask enabled => exact { h with regs := h.regs.setFlag mask enabled }
  | updateZero value group =>
    have hzero : L.Alike (cpu.regs.setZero value (cpu.regs.widthOf group))
        (cpu'.regs.setZero value (cpu'.regs.widthOf group)) := by
      rw [h.regs.widthOf]
      exact h.regs.setZero value _
    exact { h with regs := hzero }
  | updateNegative value group =>
    have hnegative : L.Alike (cpu.regs.setNegative value (cpu.regs.widthOf group))
        (cpu'.regs.setNegative value (cpu'.regs.widthOf group)) := by
      rw [h.regs.widthOf]
      exact h.regs.setNegative value _
    exact { h with regs := hnegative }

section Runs

variable {μ : Type} [Memory μ] {cpu cpu' : Cpu}

/-- All that happens between steps keeps processors alike, and does the same to memory. -/
theorem Action.apply_alike {action : Action μ} (hstep : action ≠ .step) (h : cpu.Alike L cpu') (memory : μ) :
    (action.apply (cpu, memory)).1.Alike L (action.apply (cpu', memory)).1 ∧
      (action.apply (cpu, memory)).2 = (action.apply (cpu', memory)).2 := by
  cases action with
  | call c => exact ⟨c.apply_alike h, rfl⟩
  | memory change => exact ⟨h, rfl⟩
  | reset => exact ⟨h.restarted _, rfl⟩
  | step => exact absurd rfl hstep

/-- **Under the same host, processors that are alike do the same in every step**, as long as each step finds the same
in all registers that are alike. -/
theorem Cpu.Alike.play (h : cpu.Alike L cpu') (hμ : Activity.Indifferent L.near μ) (actions : List (Action μ))
    (memory : μ)
    (hagree : ∀ start ∈ stepStarts actions (cpu, memory), ∀ other : Cpu, start.1.Alike L other →
      (eventAt start).Agree L start.1.regs other.regs) :
    List.Forall₂ (fun start start' => start.2 = start'.2 ∧ start.1.SameStep L start'.1 start.2)
        (stepStarts actions (cpu, memory)) (stepStarts actions (cpu', memory)) ∧
      (Emu816.play actions (cpu, memory)).1.Alike L (Emu816.play actions (cpu', memory)).1 ∧
      (Emu816.play actions (cpu, memory)).2 = (Emu816.play actions (cpu', memory)).2 := by
  induction actions generalizing cpu cpu' memory with
  | nil => exact ⟨.nil, h, rfl⟩
  | cons action actions ih =>
    by_cases hstep : action = .step
    · subst hstep
      rw [stepStarts_step] at hagree
      have hfirst : cpu.SameStep L cpu' memory := h.step hμ (hagree _ List.mem_cons_self cpu' h)
      have hnext : Action.step.apply (cpu', memory) =
          ((cpu'.step memory).2.1, (Action.step.apply (cpu, memory)).2) := Prod.ext rfl hfirst.memory.symm
      have hrest := ih hfirst.after _ fun start hmem => hagree start (List.mem_cons_of_mem _ hmem)
      rw [stepStarts_step, stepStarts_step, play_cons, play_cons, hnext]
      exact ⟨.cons ⟨rfl, hfirst⟩ hrest.1, hrest.2⟩
    · obtain ⟨halike, hmemory⟩ := Action.apply_alike hstep h memory
      have hnext : action.apply (cpu', memory) =
          ((action.apply (cpu', memory)).1, (action.apply (cpu, memory)).2) := Prod.ext rfl hmemory.symm
      rw [stepStarts_of_ne_step hstep] at hagree
      rw [stepStarts_of_ne_step hstep, stepStarts_of_ne_step hstep, play_cons, play_cons, hnext]
      exact ih halike _ hagree

end Runs

end Emu816
