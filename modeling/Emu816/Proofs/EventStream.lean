import Emu816.Proofs.FrameCounts
import Emu816.Proofs.MachineHost

/-!
# The stream of trace events

While a host calls a machine, three accounts are kept: the outcomes of its steps, the events that go to its trace sink
and the cycles that its processor counts. They agree, whatever the host does in between, and the machine goes on in the
same way if nobody listens.

- `MachineCall.starts`, `MachineCall.outcomes`: the steps that calls make, and what comes of them.
- `Narrates`: the events that tell of some outcomes; `narrates_iff`: there is one list of them.
- `cycles_step`: the cycles of a step, as its events tell of them.
- `sink_applyAll`, `cycles_applyAll`: what calls leave in the sink and on the clock.
- `Machine.untraced`: a machine without its trace; `applyAll_untraced`: calls on it.
- `event_stream_accounts`: the three accounts, and runs with and without a trace.
-/

namespace Emu816

/-! ## Single steps -/

/-- Whether the step executed an instruction. -/
def StepEvent.isExecuted : StepEvent → Bool
  | executed _ _ _ => true
  | interrupt _ _ | waiting | stopped => false

/-- The cycles of a step that executes no instruction. -/
def StepEvent.fixedCycles? : StepEvent → Option Nat
  | executed _ _ _ => none
  | interrupt _ _ => some 7
  | waiting | stopped => some 1

/-- A step without an instruction takes as long as its kind always does. -/
theorem Cpu.step_fixedCycles {μ : Type} [Memory μ] (cpu : Cpu) (memory : μ) {cycles : Nat}
    (h : (cpu.step memory).1.event.fixedCycles? = some cycles) : (cpu.step memory).1.cycles = cycles := by
  have hpost : cpu.activity.Ensures fun log result => result.1.fixedCycles? = some cycles → log.length = cycles := by
    rw [ensures_activity]
    split
    · exact Option.some.inj
    · exact Option.some.inj
    · exact (Microcode.ensures_enterHardware_length _ _).mono fun log _ _ hlength hcycles =>
        hlength.trans (Option.some.inj hcycles)
    · exact Microcode.ensures_of_forall fun _ _ _ => nofun
  rw [cpu.step_cycles]
  exact Cpu.step_of_ensures hpost memory h

namespace TraceEvent

/-- The cycles of the instruction whose end the event tells of. -/
def retiredCycles : TraceEvent → Nat
  | retired cycles => cycles
  | start _ _ _ | interrupt _ _ => 0

/-- Whether the event tells of an interrupt. -/
def isInterrupt : TraceEvent → Bool
  | interrupt _ _ => true
  | start _ _ _ | retired _ => false

end TraceEvent

/-- The cycles of steps that events tell of: those of the instructions, and seven for each interrupt. -/
def toldCycles (events : List TraceEvent) : Nat :=
  (events.map TraceEvent.retiredCycles).sum + 7 * events.countP TraceEvent.isInterrupt

theorem toldCycles_append (first second : List TraceEvent) :
    toldCycles (first ++ second) = toldCycles first + toldCycles second := by
  simp only [toldCycles, List.map_append, List.sum_append, List.countP_append]
  omega

/-! ## Events that tell of steps -/

/-- The events tell of the outcomes, in order: of an instruction by its start and right behind it its end, of an
interrupt by its entry, and of a step that rests not at all. -/
inductive Narrates : List Outcome → List TraceEvent → Prop where
  | nil : Narrates [] []
  | executed {outcome : Outcome} {pbr : UInt8} {pc : UInt16} {opcode : UInt8} {outcomes : List Outcome}
      {events : List TraceEvent} (event : outcome.event = .executed pbr pc opcode) (rest : Narrates outcomes events) :
      Narrates (outcome :: outcomes) (.start pbr pc opcode :: .retired outcome.cycles :: events)
  | interrupt {outcome : Outcome} {kind : Interrupt} {vector : UInt16} {outcomes : List Outcome}
      {events : List TraceEvent} (event : outcome.event = .interrupt kind vector) (rest : Narrates outcomes events) :
      Narrates (outcome :: outcomes) (.interrupt kind vector :: events)
  | idle {outcome : Outcome} {outcomes : List Outcome} {events : List TraceEvent}
      (event : outcome.event = .waiting ∨ outcome.event = .stopped) (rest : Narrates outcomes events) :
      Narrates (outcome :: outcomes) events

/-- **One list of events** tells of some outcomes: the events of each of them in turn. -/
theorem narrates_iff {outcomes : List Outcome} {events : List TraceEvent} :
    Narrates outcomes events ↔ events = outcomes.flatMap Outcome.events := by
  constructor
  · intro h
    induction h with
    | nil => rfl
    | executed event rest ih => simp [Outcome.events, event, ih]
    | interrupt event rest ih => simp [Outcome.events, event, ih]
    | idle event rest ih => rcases event with event | event <;> simp [Outcome.events, event, ih]
  · rintro rfl
    induction outcomes with
    | nil => exact .nil
    | cons outcome outcomes ih =>
      rw [List.flatMap_cons, Outcome.events]
      cases hevent : outcome.event with
      | executed pbr pc opcode => exact .executed hevent ih
      | interrupt kind vector => exact .interrupt hevent ih
      | waiting => exact .idle (.inl hevent) ih
      | stopped => exact .idle (.inr hevent) ih

/-- A tally counts the instructions. -/
theorem instructions_events (outcome : Outcome) (tally : Tally) :
    (outcome.events.foldl TraceSink.record tally).instructions =
      tally.instructions + outcome.event.isExecuted.toNat := by
  unfold Outcome.events
  cases outcome.event <;> rfl

/-- **A tally counts** instructions and interrupts of the steps that events tell of. -/
theorem Narrates.tally {outcomes : List Outcome} {events : List TraceEvent} (h : Narrates outcomes events)
    (tally : Tally) :
    let counted := events.foldl TraceSink.record tally
    counted.instructions = tally.instructions + outcomes.countP (fun outcome => outcome.event.isExecuted) ∧
      counted.interrupts = tally.interrupts + outcomes.countP (fun outcome => outcome.event.isInterrupt) := by
  rw [narrates_iff] at h
  subst h
  induction outcomes generalizing tally with
  | nil => exact ⟨rfl, rfl⟩
  | cons outcome outcomes ih =>
    obtain ⟨hinstructions, hinterrupts⟩ := ih (outcome.events.foldl TraceSink.record tally)
    simp only [List.flatMap_cons, List.foldl_append, countP_cons_toNat, hinstructions, hinterrupts,
      instructions_events, interrupts_events, Nat.add_assoc, and_self]

namespace Machine

variable {σ τ : Type} [Observer σ] [TraceSink τ]

/-- The cycles of a step are those that its events tell of, or one if it rests. -/
theorem cycles_step (machine : Machine σ τ) :
    machine.step.1.cycles = toldCycles machine.step.1.events + (!machine.step.1.event.isReported).toNat := by
  have hfixed {cycles : Nat} (h : machine.step.1.event.fixedCycles? = some cycles) :
      machine.step.1.cycles = cycles := machine.cpu.step_fixedCycles machine.bus h
  rw [Outcome.events]
  cases hevent : machine.step.1.event with
  | executed pbr pc opcode => simp [toldCycles, TraceEvent.retiredCycles, TraceEvent.isInterrupt, StepEvent.isReported]
  | interrupt kind vector => exact hfixed (congrArg StepEvent.fixedCycles? hevent)
  | waiting => exact hfixed (congrArg StepEvent.fixedCycles? hevent)
  | stopped => exact hfixed (congrArg StepEvent.fixedCycles? hevent)

/-- The cycles of some steps, as their events tell of them. -/
theorem cyclesOf_eq_told (starts : List (Machine σ τ)) :
    cyclesOf starts =
      toldCycles ((starts.map fun start => start.step.1).flatMap Outcome.events) +
        (starts.map fun start => start.step.1).countP fun outcome => !outcome.event.isReported := by
  induction starts with
  | nil => rfl
  | cons start starts ih =>
    rw [cyclesOf_cons, ih, start.cycles_step, List.map_cons, List.flatMap_cons, toldCycles_append, countP_cons_toNat]
    omega

end Machine

/-! ## Steps of calls -/

namespace MachineCall

variable {σ τ : Type}

/-- Whether the call leaves tracing on and the sink in its place. -/
def keepsTracing : MachineCall σ τ → Bool
  | installSink _ | removeSink => false
  | setTracing enabled => enabled
  | _ => true

/-- Whether the call leaves the processor in its place and does not reset it. -/
def keepsProcessor : MachineCall σ τ → Bool
  | reset | putCpu _ => false
  | _ => true

/-- Whether the call is about the trace alone. -/
def concernsTrace : MachineCall σ τ → Bool
  | installSink _ | removeSink | setTracing _ => true
  | _ => false

variable [Observer σ] [TraceSink τ]

/-- The machines at the starts of the steps that a call makes. -/
def starts (call : MachineCall σ τ) (machine : Machine σ τ) : List (Machine σ τ) :=
  match call with
  | step => [machine]
  | runCycles budget => machine.runStarts budget
  | runFrame _ => machine.runStarts machine.config.cyclesPerFrame
  | _ => []

/-- The machines at the starts of all steps that some calls make. -/
def startsAll : List (MachineCall σ τ) → Machine σ τ → List (Machine σ τ)
  | [], _ => []
  | call :: calls, machine => call.starts machine ++ startsAll calls (call.apply machine).2

/-- What comes of the steps that some calls make. -/
def outcomes (calls : List (MachineCall σ τ)) (machine : Machine σ τ) : List Outcome :=
  (startsAll calls machine).map fun start => start.step.1

theorem outcomes_cons (call : MachineCall σ τ) (calls : List (MachineCall σ τ)) (machine : Machine σ τ) :
    outcomes (call :: calls) machine =
      (call.starts machine).map (fun start => start.step.1) ++ outcomes calls (call.apply machine).2 := by
  rw [outcomes, startsAll, List.map_append, outcomes]

/-- The sink takes the events of a call's steps. -/
theorem sink_apply {call : MachineCall σ τ} (hcall : call.keepsTracing = true) {machine : Machine σ τ} {sink : τ}
    (htracing : machine.config.tracing = true) (hsink : machine.sink = some sink) :
    (call.apply machine).2.config.tracing = true ∧
      (call.apply machine).2.sink =
        some (((call.starts machine).flatMap fun start => start.step.1.events).foldl TraceSink.record sink) := by
  have hrun (budget : Nat) :
      (Machine.afterSteps (machine.stepsFor budget) machine).config.tracing = true ∧
        (Machine.afterSteps (machine.stepsFor budget) machine).sink =
          some (((machine.runStarts budget).flatMap fun start => start.step.1.events).foldl TraceSink.record sink) := by
    rw [Machine.config_afterSteps, Machine.sink_afterSteps _ htracing, hsink]
    exact ⟨htracing, rfl⟩
  cases call with
  | cpu call | bus call | changeBus change | peek addr | listing count => exact ⟨htracing, hsink⟩
  | putCpu cpu | load image | reset => exact ⟨htracing, hsink⟩
  | importSaveRam image =>
    simp only [apply]
    split <;> exact ⟨htracing, hsink⟩
  | step =>
    refine ⟨htracing, ?_⟩
    simp [apply, starts, Machine.step_sink, htracing, hsink]
  | runCycles budget =>
    simp only [apply, Machine.runCycles, Machine.runRemaining_eq]
    exact hrun budget
  | runFrame deliverNmi =>
    simp only [apply, Machine.runFrame_eq]
    cases deliverNmi <;> exact hrun _
  | installSink other => cases hcall
  | removeSink => cases hcall
  | setTracing enabled => exact ⟨hcall, hsink⟩

/-- **The sink takes the events of all steps**, whatever else the host does. -/
theorem sink_applyAll {calls : List (MachineCall σ τ)} (hcalls : ∀ call ∈ calls, call.keepsTracing = true)
    {machine : Machine σ τ} {sink : τ} (htracing : machine.config.tracing = true) (hsink : machine.sink = some sink) :
    (applyAll calls machine).2.sink =
      some (((outcomes calls machine).flatMap Outcome.events).foldl TraceSink.record sink) := by
  induction calls generalizing machine sink with
  | nil => exact hsink
  | cons call calls ih =>
    obtain ⟨hcall, hcalls⟩ := List.forall_mem_cons.1 hcalls
    obtain ⟨hnext, htaken⟩ := sink_apply hcall htracing hsink
    rw [outcomes_cons, List.flatMap_append, List.foldl_append, List.flatMap_map]
    exact ih hcalls hnext htaken

theorem cycles_apply {call : MachineCall σ τ} (hcall : call.keepsProcessor = true) (machine : Machine σ τ) :
    (call.apply machine).2.cpu.cycles = machine.cpu.cycles + Machine.cyclesOf (call.starts machine) := by
  cases call with
  | cpu call => cases call <;> rfl
  | importSaveRam image =>
    simp only [apply]
    split <;> rfl
  | runCycles budget =>
    simp only [apply, Machine.runCycles, Machine.runRemaining_eq]
    exact Machine.cycles_afterSteps _ machine
  | runFrame deliverNmi => exact machine.runFrame_cycles deliverNmi
  | putCpu cpu => cases hcall
  | reset => cases hcall
  | _ => rfl

/-- The processor counts the cycles of all steps. -/
theorem cycles_applyAll {calls : List (MachineCall σ τ)} (hcalls : ∀ call ∈ calls, call.keepsProcessor = true)
    (machine : Machine σ τ) :
    (applyAll calls machine).2.cpu.cycles = machine.cpu.cycles + Machine.cyclesOf (startsAll calls machine) := by
  induction calls generalizing machine with
  | nil => rfl
  | cons call calls ih =>
    obtain ⟨hcall, hcalls⟩ := List.forall_mem_cons.1 hcalls
    rw [startsAll, Machine.cyclesOf_append, ← Nat.add_assoc, ← cycles_apply hcall]
    exact ih hcalls _

end MachineCall

/-! ## Machines without a trace -/

namespace Machine

variable {σ τ : Type}

/-- The machine with tracing off and no sink. -/
def untraced (machine : Machine σ τ) : Machine σ τ := (machine.setTracing false).removeSink.2

variable [Observer σ] [TraceSink τ]

/-- A step is the same without a trace. -/
theorem step_untraced (machine : Machine σ τ) : machine.untraced.step = (machine.step.1, machine.step.2.untraced) := rfl

theorem starts_untraced (count : Nat) (machine : Machine σ τ) :
    starts count machine.untraced = (starts count machine).map untraced := by
  induction count generalizing machine with
  | zero => rfl
  | succ count ih => rw [starts, step_untraced, ih, starts, List.map_cons]

theorem afterSteps_untraced (count : Nat) (machine : Machine σ τ) :
    afterSteps count machine.untraced = (afterSteps count machine).untraced := by
  induction count generalizing machine with
  | zero => rfl
  | succ count ih => rw [afterSteps, step_untraced, ih, afterSteps]

theorem stepsFor_untraced (machine : Machine σ τ) (budget : Nat) :
    machine.untraced.stepsFor budget = machine.stepsFor budget := by
  induction machine, budget using stepsFor.induct with
  | case1 machine => rw [stepsFor, if_pos rfl, stepsFor, if_pos rfl]
  | case2 machine budget hbudget ih =>
    have hstep (machine : Machine σ τ) :
        machine.stepsFor budget = machine.step.2.stepsFor (budget - machine.step.1.cycles) + 1 := by
      rw [stepsFor, if_neg hbudget]
    rw [hstep, hstep machine, step_untraced, ih]

theorem runStarts_untraced (machine : Machine σ τ) (budget : Nat) :
    machine.untraced.runStarts budget = (machine.runStarts budget).map untraced := by
  rw [runStarts, stepsFor_untraced, starts_untraced, runStarts]

/-- A frame ends in the same way without a trace. -/
theorem runFrame_untraced (machine : Machine σ τ) (deliverNmi : Bool) :
    (machine.untraced.runFrame deliverNmi).2 = (machine.runFrame deliverNmi).2.untraced := by
  have hend : machine.untraced.frameEnd = machine.frameEnd.untraced := by
    rw [frameEnd, stepsFor_untraced]
    exact afterSteps_untraced _ machine
  rw [runFrame_machine, runFrame_machine, hend]
  cases deliverNmi <;> rfl

end Machine

namespace MachineCall

variable {σ τ : Type} [Observer σ] [TraceSink τ]

/-- A call that is about the trace alone makes no steps and leaves the rest of the machine as it is. -/
theorem apply_of_concernsTrace {call : MachineCall σ τ} (hcall : call.concernsTrace = true) (machine : Machine σ τ) :
    call.starts machine = [] ∧ (call.apply machine).2.untraced = machine.untraced := by
  cases call with
  | installSink sink => exact ⟨rfl, rfl⟩
  | removeSink => exact ⟨rfl, rfl⟩
  | setTracing enabled => exact ⟨rfl, rfl⟩
  | _ => cases hcall

/-- Any other call does the same without a trace. -/
theorem apply_untraced {call : MachineCall σ τ} (hcall : call.concernsTrace = false) (machine : Machine σ τ) :
    call.starts machine.untraced = (call.starts machine).map Machine.untraced ∧
      (call.apply machine.untraced).2 = (call.apply machine).2.untraced := by
  cases call with
  | installSink sink => cases hcall
  | removeSink => cases hcall
  | setTracing enabled => cases hcall
  | importSaveRam image =>
    refine ⟨rfl, ?_⟩
    simp only [apply, show machine.untraced.bus = machine.bus from rfl]
    split <;> rfl
  | runCycles budget =>
    refine ⟨machine.runStarts_untraced budget, ?_⟩
    simp only [apply, Machine.runCycles, Machine.runRemaining_eq, Machine.stepsFor_untraced]
    exact Machine.afterSteps_untraced _ machine
  | runFrame deliverNmi => exact ⟨machine.runStarts_untraced _, machine.runFrame_untraced deliverNmi⟩
  | _ => exact ⟨rfl, rfl⟩

/-- **Calls on a machine without a trace** make the same steps and leave the same behind, when those that are about the
trace are left out. -/
theorem applyAll_untraced (calls : List (MachineCall σ τ)) (machine : Machine σ τ) :
    let plain := calls.filter fun call => !call.concernsTrace
    startsAll plain machine.untraced = (startsAll calls machine).map Machine.untraced ∧
      (applyAll plain machine.untraced).2 = (applyAll calls machine).2.untraced := by
  induction calls generalizing machine with
  | nil => exact ⟨rfl, rfl⟩
  | cons call calls ih =>
    obtain ⟨hstarts, hfinal⟩ := ih (call.apply machine).2
    intro plain
    cases hcall : call.concernsTrace with
    | true =>
      obtain ⟨hnone, hsame⟩ := apply_of_concernsTrace hcall machine
      have hplain : plain = calls.filter fun call => !call.concernsTrace := by simp [plain, hcall]
      rw [hplain, ← hsame, startsAll, hnone]
      exact ⟨hstarts, hfinal⟩
    | false =>
      obtain ⟨hsteps, hnext⟩ := apply_untraced hcall machine
      have hplain : plain = call :: calls.filter fun call => !call.concernsTrace := by simp [plain, hcall]
      rw [hplain, startsAll, startsAll, List.map_append, hsteps, hnext, hstarts]
      refine ⟨rfl, ?_⟩
      have hsplit : (applyAll (call :: calls.filter fun call => !call.concernsTrace) machine.untraced).2 =
          (applyAll (calls.filter fun call => !call.concernsTrace) (call.apply machine.untraced).2).2 := rfl
      rw [hsplit, hnext, hfinal]
      rfl

end MachineCall

/-! ## The accounts of a run -/

/-- **The accounts of a run agree.** While a host lets a traced machine step, and does whatever it likes in between but
take the trace away, the sink gets the events that tell of the outcomes of the steps. A tally counts from them how many
steps executed an instruction and how many entered a handler. As long as the host neither resets the processor nor puts
another in its place, the cycles that the events tell of and one for each step that rests are those that the processor
counts. And at whatever points tracing is switched on or off and sinks are installed or removed, the outcomes, the
processor and the bus are those of a run without any of this. -/
theorem event_stream_accounts {σ τ : Type} [Observer σ] [TraceSink τ] (machine : Machine σ τ)
    (calls : List (MachineCall σ τ)) :
    let outcomes := MachineCall.outcomes calls machine
    let final := (MachineCall.applyAll calls machine).2
    (∀ sink, machine.config.tracing = true → machine.sink = some sink →
      (∀ call ∈ calls, call.keepsTracing = true) →
      ∃ events, Narrates outcomes events ∧ final.sink = some (events.foldl TraceSink.record sink) ∧
        (∀ tally : Tally,
          let counted := events.foldl TraceSink.record tally
          counted.instructions = tally.instructions + outcomes.countP (fun outcome => outcome.event.isExecuted) ∧
          counted.interrupts = tally.interrupts + outcomes.countP (fun outcome => outcome.event.isInterrupt)) ∧
        ((∀ call ∈ calls, call.keepsProcessor = true) →
          final.cpu.cycles = machine.cpu.cycles +
            ((events.map TraceEvent.retiredCycles).sum + 7 * events.countP TraceEvent.isInterrupt +
              outcomes.countP fun outcome => outcome.event = .waiting ∨ outcome.event = .stopped))) ∧
    (let plain := calls.filter fun call => !call.concernsTrace
      let plainFinal := (MachineCall.applyAll plain machine.untraced).2
      outcomes = MachineCall.outcomes plain machine.untraced ∧
        final.cpu = plainFinal.cpu ∧ final.bus = plainFinal.bus) := by
  intro outcomes final
  refine ⟨?_, ?_⟩
  · intro sink htracing hsink hcalls
    have hnarrates : Narrates outcomes (outcomes.flatMap Outcome.events) := narrates_iff.2 rfl
    refine ⟨_, hnarrates, MachineCall.sink_applyAll hcalls htracing hsink, hnarrates.tally, fun hprocessor => ?_⟩
    have hrests (outcome : Outcome) :
        (!outcome.event.isReported) = decide (outcome.event = .waiting ∨ outcome.event = .stopped) := by
      cases outcome.event <;> rfl
    simp only [← hrests]
    exact (MachineCall.cycles_applyAll hprocessor machine).trans
      (congrArg (machine.cpu.cycles + ·) (Machine.cyclesOf_eq_told _))
  · intro plain plainFinal
    obtain ⟨hstarts, hfinal⟩ := MachineCall.applyAll_untraced calls machine
    refine ⟨?_, ?_, ?_⟩
    · rw [MachineCall.outcomes, hstarts, List.map_map]
      rfl
    · simp only [plainFinal, plain, hfinal]
      rfl
    · simp only [plainFinal, plain, hfinal]
      rfl

/-- A processor that waits, is woken by a request and goes on beyond the image, with a tally that listens. -/
theorem event_stream_accounts_wake :
    let machine : Machine Runner.Console Tally :=
      { cpu := { runState := .waiting }, bus := { host := ⟨false, ""⟩ }, config := { tracing := true }, sink := some {} }
    let calls := [.step, .cpu .raiseNmi, .step, .setTracing true, .step]
    let final := (MachineCall.applyAll calls machine).2
    ∃ events, Narrates [⟨.waiting, 1⟩, ⟨.interrupt .nmi 0xFFFA, 7⟩, ⟨.executed 0 0xFFFF 0xFF, 5⟩] events ∧
      final.sink = some (events.foldl TraceSink.record {}) ∧
      (events.foldl TraceSink.record ({} : Tally)).instructions = 1 ∧
      (events.foldl TraceSink.record ({} : Tally)).interrupts = 1 ∧
      final.cpu.cycles = (events.map TraceEvent.retiredCycles).sum + 7 * events.countP TraceEvent.isInterrupt + 1 := by
  intro machine calls final
  have houtcomes : MachineCall.outcomes calls machine =
      [⟨.waiting, 1⟩, ⟨.interrupt .nmi 0xFFFA, 7⟩, ⟨.executed 0 0xFFFF 0xFF, 5⟩] := by decide +kernel
  obtain ⟨haccounts, -⟩ := event_stream_accounts machine calls
  obtain ⟨events, hnarrates, hsink, htally, hcycles⟩ := haccounts {} rfl rfl (by simp [calls, MachineCall.keepsTracing])
  rw [houtcomes] at hnarrates htally hcycles
  refine ⟨events, hnarrates, hsink, (htally {}).1, (htally {}).2, ?_⟩
  rw [hcycles (by simp [calls, MachineCall.keepsProcessor])]
  exact Nat.zero_add _

end Emu816
