import Emu816.Proofs.CycleCount
import Emu816.Proofs.InterruptReturn
import Emu816.Proofs.Tracing
import Mathlib.Algebra.GroupWithZero.Nat

/-!
# What is counted in frames

Cycles, steps, instructions and interrupts are counted apart from each other: by the processor, by the outcome of each
frame, by the total of all frames and by a tally of trace events. Each count is given here as a function of the machines
at the starts of the steps, so that the counts can be compared.

- `Cpu.step_cycles_le`: no step takes more than nine cycles; `Machine.cyclesOf_runStarts`: what a run takes.
- `Machine.frameStarts`, `Machine.frameSteps`: the frames of a run and their steps.
- `Runner.total_runFrames`, `Runner.cycles_runFrames`, `Runner.Counting.events_runFrames`: the counts after some frames.
- `Machine.Quiet`, `Machine.Requested`, `Machine.interrupts_frames_tail`: which frames serve an interrupt.
- `Machine.interrupts_frames_running`: frames of a program that never stops the processor;
  `Machine.outcomes_frameSteps_of_stops`: and of one that stops it at once.
-/

namespace Emu816

/-! ## Single steps -/

/-- An entry into a handler takes seven cycles, in native mode for a longer frame. -/
theorem Microcode.ensures_enterHardware_length (kind : Interrupt) (r : Registers) :
    (enterHardware kind).Ensures r fun log _ _ => log.length = 7 := by
  cases hmode : r.emulation with
  | false => simp [enterHardware, hmode, ensures_enter_native hmode]
  | true => simp [enterHardware, hmode, ensures_enter_emulated hmode]

/-- No step takes more than nine cycles. -/
theorem Cpu.step_cycles_le {μ : Type} [Memory μ] (cpu : Cpu) (memory : μ) : (cpu.step memory).1.cycles ≤ 9 := by
  have hbound : cpu.activity.Ensures fun log _ => log.length ≤ 9 := by
    rw [ensures_activity]
    split
    · exact Nat.le_of_ble_eq_true rfl
    · exact Nat.le_of_ble_eq_true rfl
    · exact (Microcode.ensures_enterHardware_length _ _).mono fun _ _ _ hlength => by omega
    · exact (ensures_instruction_cost cpu.regs).mono fun _ _ _ hcost => (Instruction.publishedCost_bounds hcost).2
  rw [cpu.step_cycles]
  exact hbound.log memory

/-- Whether the step entered the handler of a hardware interrupt. -/
def StepEvent.isInterrupt : StepEvent → Bool
  | interrupt _ _ => true
  | executed _ _ _ | waiting | stopped => false

/-- Whether the step executed an instruction of the given name. -/
def StepEvent.executes (event : StepEvent) (mnemonic : Mnemonic) : Bool :=
  match event with
  | executed _ _ opcode => (Instruction.decode opcode).mnemonic = mnemonic
  | interrupt _ _ | waiting | stopped => false

theorem StepEvent.isInterrupt_iff {event : StepEvent} :
    event.isInterrupt = true ↔ event.enters .nmi = true ∨ event.enters .irq = true := by
  cases event with
  | interrupt kind vector => cases kind <;> simp [isInterrupt, enters]
  | executed _ _ _ | waiting | stopped => simp [isInterrupt, enters]

/-- A tally counts the interrupts. -/
theorem interrupts_events (outcome : Outcome) (tally : Tally) :
    (outcome.events.foldl TraceSink.record tally).interrupts =
      tally.interrupts + outcome.event.isInterrupt.toNat := by
  unfold Outcome.events
  cases outcome.event with
  | executed pbr pc opcode => rfl
  | interrupt kind vector => rfl
  | waiting => rfl
  | stopped => rfl

theorem Instruction.mnemonic_of_runState {opcode : UInt8}
    (h : (Instruction.decode opcode).operation.runState = .stopped) : (Instruction.decode opcode).mnemonic = .stp :=
  forall_byte (P := fun opcode => (Instruction.decode opcode).operation.runState = .stopped →
    (Instruction.decode opcode).mnemonic = .stp) (by decide +kernel) opcode h

/-- Only the instruction for it stops a processor. -/
theorem Cpu.stops_of_step {μ : Type} [Memory μ] (cpu : Cpu) (memory : μ)
    (h : (cpu.step memory).2.1.runState = .stopped) :
    cpu.runState = .stopped ∨ (cpu.step memory).1.event.executes .stp = true := by
  have hpost : cpu.activity.Ensures fun _ result => result.2.2 = .stopped →
      cpu.runState = .stopped ∨ result.1.executes .stp = true := by
    rw [ensures_activity]
    cases htask : cpu.task with
    | stop => exact fun _ => .inl (task_eq_stop.1 htask)
    | wait => exact nofun
    | interrupt kind => exact Microcode.ensures_of_forall fun _ _ _ => nofun
    | execute =>
      exact Microcode.ensures_of_forall fun _ opcode _ hstopped =>
        .inr (decide_eq_true (Instruction.mnemonic_of_runState hstopped))
  exact Cpu.step_of_ensures hpost memory h

namespace Machine

variable {σ τ : Type} [Observer σ] [TraceSink τ]

/-! ## Cycles and steps of a run -/

/-- The cycles of the steps from some starts. -/
def cyclesOf (starts : List (Machine σ τ)) : Nat := (starts.map fun start => start.step.1.cycles).sum

@[simp] theorem cyclesOf_nil : cyclesOf ([] : List (Machine σ τ)) = 0 := rfl

@[simp] theorem cyclesOf_cons (start : Machine σ τ) (starts : List (Machine σ τ)) :
    cyclesOf (start :: starts) = start.step.1.cycles + cyclesOf starts := by
  rw [cyclesOf, List.map_cons, List.sum_cons, cyclesOf]

@[simp] theorem cyclesOf_append (first second : List (Machine σ τ)) :
    cyclesOf (first ++ second) = cyclesOf first + cyclesOf second := by
  rw [cyclesOf, List.map_append, List.sum_append, cyclesOf, cyclesOf]

/-- Every step takes time. -/
theorem length_le_cyclesOf (starts : List (Machine σ τ)) : starts.length ≤ cyclesOf starts := by
  induction starts with
  | nil => exact Nat.le_refl 0
  | cons start starts ih =>
    have hpos := start.step_cycles_pos
    rw [List.length_cons, cyclesOf_cons]
    omega

/-- **A run takes its budget**, and no more beyond it than a step that began one cycle before the end. -/
theorem cyclesOf_runStarts (machine : Machine σ τ) (budget : Nat) :
    budget ≤ cyclesOf (machine.runStarts budget) ∧ cyclesOf (machine.runStarts budget) ≤ budget + 8 := by
  induction machine, budget using stepsFor.induct with
  | case1 machine =>
    rw [runStarts_zero, cyclesOf_nil]
    exact ⟨Nat.le_refl 0, Nat.zero_le _⟩
  | case2 machine budget hbudget ih =>
    have hstep : machine.step.1.cycles ≤ 9 := machine.cpu.step_cycles_le machine.bus
    rw [runStarts_of_ne_zero machine hbudget, cyclesOf_cons]
    by_cases hlast : budget ≤ machine.step.1.cycles
    · rw [Nat.sub_eq_zero_of_le hlast, runStarts_zero, cyclesOf_nil]
      omega
    · omega

/-- The processor counts the cycles of all steps. -/
theorem cycles_afterSteps (count : Nat) (machine : Machine σ τ) :
    (afterSteps count machine).cpu.cycles = machine.cpu.cycles + cyclesOf (starts count machine) := by
  induction count generalizing machine with
  | zero => rfl
  | succ count ih =>
    have hstep : machine.step.2.cpu.cycles = machine.cpu.cycles + machine.step.1.cycles := rfl
    rw [afterSteps, ih, hstep, starts, cyclesOf_cons, Nat.add_assoc]

/-- What passes in some steps is their number, as far as it is counted, and their cycles. -/
theorem passing_eq (starts : List (Machine σ τ)) {passed : RunOutcome} (h : passed.steps ≤ RunOutcome.maxSteps) :
    passing passed starts =
      ⟨min (passed.steps + starts.length) RunOutcome.maxSteps, passed.cycles + cyclesOf starts⟩ := by
  induction starts generalizing passed with
  | nil =>
    rw [List.length_nil, Nat.add_zero, Nat.min_eq_left h]
    rfl
  | cons start starts ih =>
    have hnext : (passed.addStep start.step.1).steps ≤ RunOutcome.maxSteps := Nat.min_le_right _ _
    have hrest : passing passed (start :: starts) = passing (passed.addStep start.step.1) starts := rfl
    rw [hrest, ih hnext, List.length_cons, cyclesOf_cons]
    simp only [RunOutcome.addStep, RunOutcome.add, RunOutcome.mk.injEq]
    omega

/-! ## Frames -/

/-- The machine at the start of each of the next frames. -/
def frameStarts (deliverNmi : Bool) : (frames : Nat) → Machine σ τ → List (Machine σ τ)
  | 0, _ => []
  | frames + 1, machine => machine :: frameStarts deliverNmi frames (machine.runFrame deliverNmi).2

/-- The machine at the start of each step of the next frames. -/
def frameSteps (deliverNmi : Bool) (frames : Nat) (machine : Machine σ τ) : List (Machine σ τ) :=
  (frameStarts deliverNmi frames machine).flatMap fun start => start.runStarts start.config.cyclesPerFrame

theorem frameSteps_succ (deliverNmi : Bool) (frames : Nat) (machine : Machine σ τ) :
    frameSteps deliverNmi (frames + 1) machine =
      machine.runStarts machine.config.cyclesPerFrame ++
        frameSteps deliverNmi frames (machine.runFrame deliverNmi).2 := by
  rw [frameSteps, frameStarts, List.flatMap_cons, frameSteps]

@[simp] theorem length_frameStarts (deliverNmi : Bool) (frames : Nat) (machine : Machine σ τ) :
    (frameStarts deliverNmi frames machine).length = frames := by
  induction frames generalizing machine with
  | zero => rfl
  | succ frames ih => rw [frameStarts, List.length_cons, ih]

variable (machine : Machine σ τ) (deliverNmi : Bool)

/-- The steps of a frame, without the request at its end. -/
def frameEnd : Machine σ τ := afterSteps (machine.stepsFor machine.config.cyclesPerFrame) machine

theorem runFrame_machine :
    (machine.runFrame deliverNmi).2 = if deliverNmi then machine.frameEnd.mapCpu Cpu.raiseNmi else machine.frameEnd := by
  rw [runFrame_eq]
  rfl

theorem runFrame_config : (machine.runFrame deliverNmi).2.config = machine.config := by
  rw [runFrame_machine]
  cases deliverNmi <;> exact config_afterSteps _ machine

theorem runFrame_cycles :
    (machine.runFrame deliverNmi).2.cpu.cycles =
      machine.cpu.cycles + cyclesOf (machine.runStarts machine.config.cyclesPerFrame) := by
  rw [runFrame_machine]
  cases deliverNmi <;> exact cycles_afterSteps _ machine

theorem runFrame_runState : (machine.runFrame deliverNmi).2.cpu.runState = machine.frameEnd.cpu.runState := by
  rw [runFrame_machine]
  cases deliverNmi <;> rfl

/-- **Frames take their budgets**, and no more beyond them than eight cycles each. -/
theorem cyclesOf_frameSteps (frames : Nat) :
    frames * machine.config.cyclesPerFrame ≤ cyclesOf (frameSteps deliverNmi frames machine) ∧
      cyclesOf (frameSteps deliverNmi frames machine) ≤ frames * (machine.config.cyclesPerFrame + 8) := by
  induction frames generalizing machine with
  | zero => exact ⟨by simp, Nat.le_of_eq (by simp [frameSteps, frameStarts])⟩
  | succ frames ih =>
    obtain ⟨hleast, hmost⟩ := cyclesOf_runStarts machine machine.config.cyclesPerFrame
    obtain ⟨hrestLeast, hrestMost⟩ := ih (machine.runFrame deliverNmi).2
    rw [runFrame_config] at hrestLeast hrestMost
    rw [frameSteps_succ, cyclesOf_append, Nat.succ_mul, Nat.succ_mul]
    omega

end Machine

/-! ## Counts after some frames -/

namespace Runner

variable {σ τ : Type} [Observer σ] [TraceSink τ] (deliverNmi : Bool) (frames : Nat)

/-- One more frame adds its outcome, and the others begin where it ends. -/
theorem runFrames_succ (machine : Machine σ τ) (passed : RunOutcome) (out : String) :
    runFrames false deliverNmi (frames + 1) machine passed out =
      runFrames false deliverNmi frames (machine.runFrame deliverNmi).2
        (passed.add (machine.runFrame deliverNmi).1) out := rfl

/-- The lines on frames are those on their steps. -/
theorem frameLines_eq (machine : Machine σ τ) :
    frameLines deliverNmi frames machine = traceLines (Machine.frameSteps deliverNmi frames machine) := by
  induction frames generalizing machine with
  | zero => rfl
  | succ frames ih =>
    rw [frameLines, ih, Machine.frameSteps_succ, traceLines, traceLines, traceLines, List.filterMap_append]

/-- The total counts the steps of all frames and their cycles. -/
theorem total_runFrames (machine : Machine σ τ) {passed : RunOutcome} (h : passed.steps ≤ RunOutcome.maxSteps)
    (out : String) :
    let steps := Machine.frameSteps deliverNmi frames machine
    (runFrames false deliverNmi frames machine passed out).1 =
      ⟨min (passed.steps + steps.length) RunOutcome.maxSteps, passed.cycles + Machine.cyclesOf steps⟩ := by
  induction frames generalizing machine passed with
  | zero => exact congrArg₂ RunOutcome.mk (Nat.min_eq_left h).symm rfl
  | succ frames ih =>
    have hframe : (machine.runFrame deliverNmi).1 =
        Machine.passing {} (machine.runStarts machine.config.cyclesPerFrame) := by
      rw [Machine.runFrame_eq]
    have hnext : (passed.add (machine.runFrame deliverNmi).1).steps ≤ RunOutcome.maxSteps := Nat.min_le_right _ _
    intro steps
    rw [runFrames_succ, ih _ hnext, hframe, Machine.passing_eq _ (Nat.zero_le _)]
    simp only [steps, Machine.frameSteps_succ, Machine.cyclesOf_append, List.length_append, RunOutcome.add,
      RunOutcome.mk.injEq]
    omega

/-- The processor counts the cycles of all frames. -/
theorem cycles_runFrames (machine : Machine σ τ) (passed : RunOutcome) (out : String) :
    (runFrames false deliverNmi frames machine passed out).2.2.cpu.cycles =
      machine.cpu.cycles + Machine.cyclesOf (Machine.frameSteps deliverNmi frames machine) := by
  induction frames generalizing machine passed with
  | zero => rfl
  | succ frames ih =>
    rw [runFrames_succ, ih, Machine.runFrame_cycles, Machine.frameSteps_succ, Machine.cyclesOf_append, Nat.add_assoc]

/-- The tally counts the events of all frames. -/
theorem Counting.events_runFrames {σ : Type} [Observer σ] {machine : Machine σ Tally} {tally : Tally}
    (h : Counting machine tally) (passed : RunOutcome) (out : String) :
    Counting (Runner.runFrames false deliverNmi frames machine passed out).2.2
      (((Machine.frameSteps deliverNmi frames machine).flatMap fun start => start.step.1.events).foldl
        TraceSink.record tally) := by
  induction frames generalizing machine tally passed with
  | zero => exact h
  | succ frames ih =>
    rw [runFrames_succ, Machine.frameSteps_succ, List.flatMap_append, List.foldl_append]
    exact ih (h.runFrame deliverNmi) _

end Runner

/-! ## Interrupts of frames -/

namespace Machine

variable {σ τ : Type} [Observer σ] [TraceSink τ] {machine : Machine σ τ}

/-- The processor serves no interrupt before its host acts: the line is not asserted, and no request is latched or the
processor has stopped. -/
structure Quiet (machine : Machine σ τ) : Prop where
  line : machine.cpu.irqLine = false
  latch : machine.cpu.nmiPending = false ∨ machine.cpu.runState = .stopped

/-- Without an asserted line, a step enters a handler exactly on a latched request, unless the processor has stopped. -/
theorem isInterrupt_step (hline : machine.cpu.irqLine = false) :
    machine.step.1.event.isInterrupt = (machine.cpu.nmiPending && machine.cpu.runState != .stopped) := by
  have hnmi : machine.step.1.event.enters .nmi = true ↔ _ := @enters_nmi_iff _ _ (machine.cpu, machine.bus)
  have hirq : machine.step.1.event.enters .irq = true ↔ _ := @enters_irq_iff _ _ (machine.cpu, machine.bus)
  rw [Bool.eq_iff_iff, StepEvent.isInterrupt_iff, hnmi, hirq, hline]
  simp [and_comm]

/-- After any step without an asserted line the processor is quiet: a request that could be served has been. -/
theorem quiet_step (hline : machine.cpu.irqLine = false) : Quiet machine.step.2 := by
  refine ⟨hline, ?_⟩
  have hlatch : machine.step.2.cpu.nmiPending =
      (machine.cpu.nmiPending && !(eventAt (machine.cpu, machine.bus)).enters .nmi) :=
    step_latch (machine.cpu, machine.bus)
  by_cases hstopped : machine.cpu.runState = .stopped
  · have hrests : Rests .stopped (machine.cpu, machine.bus) := rests_of_stopped hstopped
    have hnext : machine.step.2.cpu = _ := congrArg Prod.fst hrests.apply_step
    exact .inr (by rw [hnext]; exact hstopped)
  · refine .inl ?_
    rw [hlatch]
    cases hpending : machine.cpu.nmiPending with
    | false => rfl
    | true => rw [enters_nmi_iff.2 ⟨hstopped, hpending⟩]; rfl

theorem Quiet.afterSteps (h : Quiet machine) (count : Nat) : Quiet (Machine.afterSteps count machine) := by
  induction count generalizing machine with
  | zero => exact h
  | succ count ih => exact ih (quiet_step h.line)

theorem Quiet.countP_starts (h : Quiet machine) (count : Nat) :
    (Machine.starts count machine).countP (fun start => start.step.1.event.isInterrupt) = 0 := by
  induction count generalizing machine with
  | zero => rfl
  | succ count ih =>
    have hnone : machine.step.1.event.isInterrupt = false := by
      rw [isInterrupt_step h.line]
      rcases h.latch with hlatch | hstopped
      · rw [hlatch, Bool.false_and]
      · rw [hstopped, bne_self_eq_false, Bool.and_false]
    rw [Machine.starts, List.countP_cons, hnone, ih (quiet_step h.line)]
    rfl

theorem Quiet.countP_runStarts (h : Quiet machine) (budget : Nat) :
    (machine.runStarts budget).countP (fun start => start.step.1.event.isInterrupt) = 0 :=
  h.countP_starts (machine.stepsFor budget)

/-- A frame serves the request that was latched at its start, unless the processor had stopped by then. -/
theorem countP_runStarts (hline : machine.cpu.irqLine = false) {budget : Nat} (hbudget : budget ≠ 0) :
    (machine.runStarts budget).countP (fun start => start.step.1.event.isInterrupt) =
      (machine.cpu.nmiPending && machine.cpu.runState != .stopped).toNat := by
  rw [runStarts_of_ne_zero machine hbudget, List.countP_cons, (quiet_step hline).countP_runStarts,
    isInterrupt_step hline, Nat.zero_add]
  cases machine.cpu.nmiPending && machine.cpu.runState != .stopped <;> rfl

/-- Without requests at the ends of frames, frames that begin quiet serve no interrupt. -/
theorem Quiet.interrupts_frames (h : Quiet machine) (frames : Nat) :
    (frameSteps false frames machine).countP (fun start => start.step.1.event.isInterrupt) = 0 := by
  induction frames generalizing machine with
  | zero => rfl
  | succ frames ih =>
    have hnext : Quiet (machine.runFrame false).2 := by
      rw [runFrame_machine]
      exact h.afterSteps _
    rw [frameSteps_succ, List.countP_append, h.countP_runStarts, ih hnext]

/-- A frame is about to begin with a latched request. -/
structure Requested (machine : Machine σ τ) : Prop where
  line : machine.cpu.irqLine = false
  latch : machine.cpu.nmiPending = true
  budget : machine.config.cyclesPerFrame ≠ 0

theorem irqLine_afterSteps (count : Nat) (machine : Machine σ τ) :
    (afterSteps count machine).cpu.irqLine = machine.cpu.irqLine := by
  induction count generalizing machine with
  | zero => rfl
  | succ count ih => exact ih machine.step.2

/-- So it is after a frame with a request at its end. -/
theorem requested_runFrame (hline : machine.cpu.irqLine = false) (hbudget : machine.config.cyclesPerFrame ≠ 0) :
    Requested (machine.runFrame true).2 := by
  have hmachine := machine.runFrame_machine true
  refine ⟨?_, ?_, ?_⟩
  · rw [hmachine]
    exact (irqLine_afterSteps _ machine).trans hline
  · rw [hmachine]
    rfl
  · rw [runFrame_config]
    exact hbudget

/-- A frame that begins with a request serves it, unless the processor has stopped; and so do the frames after it. -/
theorem Requested.interrupts_frames (h : Requested machine) (frames : Nat) :
    (frameSteps true frames machine).countP (fun start => start.step.1.event.isInterrupt) =
      (frameStarts true frames machine).countP fun start => start.cpu.runState != .stopped := by
  induction frames generalizing machine with
  | zero => rfl
  | succ frames ih =>
    rw [frameSteps_succ, List.countP_append, countP_runStarts h.line h.budget, h.latch, Bool.true_and,
      ih (requested_runFrame h.line h.budget), frameStarts, List.countP_cons, Nat.add_comm]
    cases machine.cpu.runState != .stopped <;> rfl

/-- **The first frame serves no interrupt** if no request was latched before it, and each later one serves the request
from the end of the frame before it, unless the processor has stopped by its start. -/
theorem interrupts_frames_tail (hquiet : Quiet machine) (hbudget : machine.config.cyclesPerFrame ≠ 0) (frames : Nat) :
    (frameSteps true frames machine).countP (fun start => start.step.1.event.isInterrupt) =
      (frameStarts true frames machine).tail.countP fun start => start.cpu.runState != .stopped := by
  cases frames with
  | zero => rfl
  | succ frames =>
    rw [frameSteps_succ, List.countP_append, hquiet.countP_runStarts, Nat.zero_add, frameStarts, List.tail_cons]
    exact (requested_runFrame hquiet.line hbudget).interrupts_frames frames

/-! ## Programs that do not stop the processor -/

theorem runState_afterSteps (hruns : machine.cpu.runState ≠ .stopped) (count : Nat)
    (hstop : ∀ start ∈ starts count machine, start.step.1.event.executes .stp = false) :
    (afterSteps count machine).cpu.runState ≠ .stopped := by
  induction count generalizing machine with
  | zero => exact hruns
  | succ count ih =>
    have hnext : machine.step.2.cpu.runState ≠ .stopped := by
      intro hstopped
      rcases machine.cpu.stops_of_step machine.bus hstopped with hbefore | hexecutes
      · exact hruns hbefore
      · exact absurd ((hstop machine List.mem_cons_self).symm.trans hexecutes) Bool.false_ne_true
    exact ih hnext fun start hmem => hstop start (List.mem_cons_of_mem _ hmem)

/-- If no step stops the processor, no frame begins with a processor that has stopped. -/
theorem runState_frameStarts (hruns : machine.cpu.runState ≠ .stopped) (deliverNmi : Bool) (frames : Nat)
    (hstop : ∀ start ∈ frameSteps deliverNmi frames machine, start.step.1.event.executes .stp = false) :
    ∀ start ∈ frameStarts deliverNmi frames machine, start.cpu.runState ≠ .stopped := by
  induction frames generalizing machine with
  | zero => exact List.forall_mem_nil _
  | succ frames ih =>
    rw [frameSteps_succ, List.forall_mem_append] at hstop
    have hnext : (machine.runFrame deliverNmi).2.cpu.runState ≠ .stopped := by
      rw [runFrame_runState]
      exact runState_afterSteps hruns _ hstop.1
    intro start hmem
    rcases List.mem_cons.1 hmem with rfl | hmem
    · exact hruns
    · exact ih hnext hstop.2 start hmem

/-- No frame serves more than one interrupt, and the first none. -/
theorem interrupts_frames_le (hquiet : Quiet machine) (hbudget : machine.config.cyclesPerFrame ≠ 0) (frames : Nat) :
    (frameSteps true frames machine).countP (fun start => start.step.1.event.isInterrupt) ≤ frames - 1 := by
  have hlength : (frameStarts true frames machine).tail.length = frames - 1 := by
    rw [List.length_tail, length_frameStarts]
  rw [interrupts_frames_tail hquiet hbudget, ← hlength]
  exact List.countP_le_length

/-- Every frame but the first serves one if nothing stops the processor. -/
theorem interrupts_frames_running (hquiet : Quiet machine) (hbudget : machine.config.cyclesPerFrame ≠ 0)
    (hruns : machine.cpu.runState ≠ .stopped) (frames : Nat)
    (hstop : ∀ start ∈ frameSteps true frames machine, start.step.1.event.executes .stp = false) :
    (frameSteps true frames machine).countP (fun start => start.step.1.event.isInterrupt) = frames - 1 := by
  have hlength : (frameStarts true frames machine).tail.length = frames - 1 := by
    rw [List.length_tail, length_frameStarts]
  have hstarts := runState_frameStarts hruns true frames hstop
  rw [interrupts_frames_tail hquiet hbudget, ← hlength, List.countP_eq_length]
  exact fun start hmem => bne_iff_ne.2 (hstarts start (List.mem_of_mem_tail hmem))

/-! ## Programs that stop the processor -/

/-- A stopped processor lets a cycle pass with each step. -/
theorem step_of_stopped (h : machine.cpu.runState = .stopped) :
    machine.step.1 = ⟨.stopped, 1⟩ ∧ machine.step.2.cpu.runState = .stopped := by
  have hrests : Rests .stopped (machine.cpu, machine.bus) := rests_of_stopped h
  have hstep : machine.cpu.step machine.bus = _ := hrests.1
  exact ⟨congrArg Prod.fst hstep, (congrArg (fun result => result.2.1.runState) hstep).trans h⟩

theorem stopped_afterSteps (h : machine.cpu.runState = .stopped) (count : Nat) :
    (afterSteps count machine).cpu.runState = .stopped := by
  induction count generalizing machine with
  | zero => exact h
  | succ count ih => exact ih (step_of_stopped h).2

/-- So a run of it has a step for each cycle of the budget. -/
theorem outcomes_runStarts_of_stopped (h : machine.cpu.runState = .stopped) (budget : Nat) :
    (machine.runStarts budget).map (fun start => start.step.1) = .replicate budget ⟨.stopped, 1⟩ := by
  induction budget generalizing machine with
  | zero => rw [runStarts_zero]; rfl
  | succ budget ih =>
    obtain ⟨hstep, hnext⟩ := step_of_stopped h
    rw [runStarts_of_ne_zero machine (Nat.succ_ne_zero budget), List.map_cons, hstep, List.replicate_succ]
    exact congrArg _ (ih hnext)

theorem outcomes_frameSteps_of_stopped (h : machine.cpu.runState = .stopped) (deliverNmi : Bool) (frames : Nat) :
    (frameSteps deliverNmi frames machine).map (fun start => start.step.1) =
      .replicate (frames * machine.config.cyclesPerFrame) ⟨.stopped, 1⟩ := by
  induction frames generalizing machine with
  | zero => rw [Nat.zero_mul]; rfl
  | succ frames ih =>
    have hnext : (machine.runFrame deliverNmi).2.cpu.runState = .stopped := by
      rw [runFrame_runState]
      exact stopped_afterSteps h _
    rw [frameSteps_succ, List.map_append, outcomes_runStarts_of_stopped h, ih hnext, runFrame_config,
      List.replicate_append_replicate, Nat.succ_mul, Nat.add_comm]

/-- **A program that stops the processor at once**: all cycles of the frames but those of its first step pass one by
one. -/
theorem outcomes_frameSteps_of_stops (h : machine.step.2.cpu.runState = .stopped)
    (hbudget : machine.step.1.cycles ≤ machine.config.cyclesPerFrame) (deliverNmi : Bool) (frames : Nat) :
    (frameSteps deliverNmi (frames + 1) machine).map (fun start => start.step.1) =
      machine.step.1 ::
        .replicate ((frames + 1) * machine.config.cyclesPerFrame - machine.step.1.cycles) ⟨.stopped, 1⟩ := by
  have hsome : machine.config.cyclesPerFrame ≠ 0 :=
    Nat.ne_of_gt (Nat.lt_of_lt_of_le machine.step_cycles_pos hbudget)
  have hnext : (machine.runFrame deliverNmi).2.cpu.runState = .stopped := by
    rw [runFrame_runState, frameEnd, stepsFor, if_neg hsome]
    exact stopped_afterSteps h _
  rw [frameSteps_succ, runStarts_of_ne_zero machine hsome, List.cons_append, List.map_cons, List.map_append,
    outcomes_runStarts_of_stopped h, outcomes_frameSteps_of_stopped hnext, runFrame_config, List.replicate_append_replicate,
    ← Nat.sub_add_comm hbudget, Nat.succ_mul, Nat.add_comm (frames * _)]

/-- What is counted of such steps. -/
theorem counts_of_stops {steps : List (Machine σ τ)} {first : Outcome} {idle : Nat}
    (h : steps.map (fun start => start.step.1) = first :: .replicate idle ⟨.stopped, 1⟩) :
    steps.length = idle + 1 ∧ cyclesOf steps = first.cycles + idle ∧
      ∀ p : StepEvent → Bool, p .stopped = false →
        steps.countP (fun start => p start.step.1.event) = (p first.event).toNat := by
  refine ⟨by simpa using congrArg List.length h, ?_, fun p hp => ?_⟩
  · have hcycles : cyclesOf steps = ((steps.map fun start => start.step.1).map Outcome.cycles).sum := by
      rw [List.map_map]
      rfl
    simp [hcycles, h]
  · have hcount : steps.countP (fun start => p start.step.1.event) =
        (steps.map fun start => start.step.1).countP fun outcome => p outcome.event := by
      rw [List.countP_map]
      rfl
    rw [hcount, h, countP_cons_toNat, List.countP_replicate, hp]
    rfl

end Machine

end Emu816
