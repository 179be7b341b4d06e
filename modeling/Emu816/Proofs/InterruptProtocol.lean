import Emu816.Proofs.Host
import Emu816.Proofs.Ram
import Emu816.Proofs.Steps
import Mathlib.Tactic.ByContra

/-!
# Interrupts and rests in a run

A request that cannot be disabled is latched until a step serves it, the request line is looked at afresh by every step,
a wait lasts until either of them shows, and a stop lasts until reset.

- `Cpu.task_event`: what a step reports is its task; the `Cpu.task_eq_*` lemmas say which task it is.
- `Rests`: a step that only lets a cycle pass.
- `nmi_first`, `nmi_count_le`: a latched request goes before everything else, and is served once.
- `stopped_rests`, `waiting_rests`: what lasts until reset, and what lasts until a request.
- `interrupt_protocol`: all of it, for a run without reset.
-/

namespace Emu816

/-- The task that an event reports. -/
def StepEvent.task : StepEvent → Task
  | executed _ _ _ => .execute
  | interrupt kind _ => .interrupt kind
  | waiting => .wait
  | stopped => .stop

/-- Whether the event is the entry into the handler of a hardware interrupt. -/
def StepEvent.enters (event : StepEvent) (kind : Interrupt) : Bool :=
  match event with
  | interrupt entered _ => entered = kind
  | _ => false

theorem StepEvent.enters_iff {event : StepEvent} {kind : Interrupt} :
    event.enters kind = true ↔ event.task = .interrupt kind := by
  cases event <;> simp [enters, task]

namespace Cpu

/-! ## The task of a step -/

theorem task_eq_stop {cpu : Cpu} : cpu.task = .stop ↔ cpu.runState = .stopped := by
  unfold task
  split <;> grind

theorem task_eq_wait {cpu : Cpu} :
    cpu.task = .wait ↔ cpu.runState = .waiting ∧ cpu.nmiPending = false ∧ cpu.irqLine = false := by
  unfold task
  split <;> grind

theorem task_eq_nmi {cpu : Cpu} :
    cpu.task = .interrupt .nmi ↔ cpu.runState ≠ .stopped ∧ cpu.nmiPending = true := by
  unfold task
  split <;> grind

theorem task_eq_irq {cpu : Cpu} :
    cpu.task = .interrupt .irq ↔ cpu.runState ≠ .stopped ∧ cpu.nmiPending = false ∧ cpu.irqLine = true ∧
      cpu.regs.flag Status.interruptDisable = false := by
  unfold task
  split <;> grind

variable {μ : Type} [Memory μ]

/-- A step reports its task. -/
theorem task_event (cpu : Cpu) (memory : μ) : (cpu.step memory).1.event.task = cpu.task := by
  have h : cpu.activity.Ensures fun _ result => result.1.task = cpu.task := by
    rw [ensures_activity]
    cases cpu.task with
    | stop => rfl
    | wait => rfl
    | interrupt kind => exact Microcode.ensures_of_forall fun _ _ _ => rfl
    | execute => exact Microcode.ensures_of_forall fun _ _ _ => rfl
  exact h.log memory

end Cpu

variable {μ : Type} [Memory μ]

/-! ## Rests -/

/-- The step reports the event and takes one cycle, has no transfer and changes nothing but the cycle counts. -/
def Rests (event : StepEvent) (start : Cpu × μ) : Prop :=
  start.1.step start.2 =
      (⟨event, 1⟩, { start.1 with cycles := start.1.cycles + 1, stepCycles := 1 }, start.2) ∧
    start.1.transfers start.2 = []

theorem rests_of_stopped {start : Cpu × μ} (h : start.1.runState = .stopped) : Rests .stopped start := by
  have htask := Cpu.task_eq_stop.2 h
  simp [Rests, Cpu.step, Cpu.transfers, Cpu.log, Cpu.activity, Cpu.keepsNmi, Activity.run, Activity.log, htask, h]

theorem rests_of_waiting {start : Cpu × μ} (h : start.1.runState = .waiting) (hnmi : start.1.nmiPending = false)
    (hirq : start.1.irqLine = false) : Rests .waiting start := by
  have htask := Cpu.task_eq_wait.2 ⟨h, hnmi, hirq⟩
  simp [Rests, Cpu.step, Cpu.transfers, Cpu.log, Cpu.activity, Cpu.keepsNmi, Activity.run, Activity.log, htask, h]

theorem Rests.apply_step {event : StepEvent} {start : Cpu × μ} (h : Rests event start) :
    Action.step.apply start =
      ({ start.1 with cycles := start.1.cycles + 1, stepCycles := 1 }, start.2) := by
  rw [Action.apply, h.1]

/-! ## One action -/

/-- Whether the action latches a request. -/
def Action.latches : Action μ → Bool
  | .call .raiseNmi => true
  | .call (.setNmiPending pending) => pending
  | _ => false

/-- What the step from the given start reports. -/
def eventAt (start : Cpu × μ) : StepEvent := (start.1.step start.2).1.event

theorem enters_nmi_iff {start : Cpu × μ} :
    (eventAt start).enters .nmi = true ↔ start.1.runState ≠ .stopped ∧ start.1.nmiPending = true := by
  rw [StepEvent.enters_iff, eventAt, Cpu.task_event, Cpu.task_eq_nmi]

theorem enters_irq_iff {start : Cpu × μ} :
    (eventAt start).enters .irq = true ↔ start.1.runState ≠ .stopped ∧ start.1.nmiPending = false ∧
      start.1.irqLine = true ∧ start.1.regs.flag Status.interruptDisable = false := by
  rw [StepEvent.enters_iff, eventAt, Cpu.task_event, Cpu.task_eq_irq]

/-- No host call reaches the run state. -/
theorem HostCall.apply_runState (call : HostCall) (cpu : Cpu) : (call.apply cpu).runState = cpu.runState := by
  cases call <;> rfl

/-- Without a reset, only a step changes the run state. -/
theorem Action.apply_runState (action : Action μ) (state : Cpu × μ) (hreset : action ≠ .reset)
    (hstep : action ≠ .step) : (action.apply state).1.runState = state.1.runState := by
  cases action with
  | call c => exact c.apply_runState state.1
  | memory change => rfl
  | reset => exact absurd rfl hreset
  | step => exact absurd rfl hstep

/-- A step without an entry keeps the latch, an entry clears it. -/
theorem step_latch (start : Cpu × μ) :
    (Action.step.apply start).1.nmiPending = (start.1.nmiPending && !(eventAt start).enters .nmi) := by
  have henters : (eventAt start).enters .nmi = (start.1.task == .interrupt .nmi) := by
    rw [Bool.eq_iff_iff, StepEvent.enters_iff, eventAt, Cpu.task_event, beq_iff_eq]
  rw [henters]
  rfl

/-- Any other action has a latched request afterwards only if it latches one or there was one. -/
theorem Action.apply_latch (action : Action μ) (state : Cpu × μ) (hstep : action ≠ .step)
    (h : (action.apply state).1.nmiPending = true) : action.latches = true ∨ state.1.nmiPending = true := by
  cases action with
  | call c =>
    cases c with
    | raiseNmi => exact .inl rfl
    | setNmiPending pending => exact .inl h
    | setIrqLine asserted => exact .inr h
    | write w => exact .inr h
    | setFlag mask enabled => exact .inr h
    | updateZero value group => exact .inr h
    | updateNegative value group => exact .inr h
  | memory change => exact .inr h
  | reset => cases h
  | step => exact absurd rfl hstep

/-- A latched request outlives an action that neither serves nor withdraws it. -/
theorem Action.keeps_latch (action : Action μ) (state : Cpu × μ) (hreset : action ≠ .reset)
    (hstep : action ≠ .step) (hwithdraw : action ≠ .call (.setNmiPending false))
    (h : state.1.nmiPending = true) : (action.apply state).1.nmiPending = true := by
  cases action with
  | call c =>
    cases c with
    | raiseNmi => rfl
    | setNmiPending pending =>
      cases pending with
      | false => exact absurd rfl hwithdraw
      | true => rfl
    | setIrqLine asserted => exact h
    | write w => exact h
    | setFlag mask enabled => exact h
    | updateZero value group => exact h
    | updateNegative value group => exact h
  | memory change => exact h
  | reset => exact absurd rfl hreset
  | step => exact absurd rfl hstep

/-- Without a reset, a wait ends only in a step that begins with a request. -/
theorem Action.ends_wait (action : Action μ) (state : Cpu × μ) (hreset : action ≠ .reset)
    (hwait : state.1.runState = .waiting) (hends : (action.apply state).1.runState ≠ .waiting) :
    action = .step ∧ (state.1.nmiPending = true ∨ state.1.irqLine = true) := by
  by_cases hstep : action = .step
  · refine ⟨hstep, ?_⟩
    subst hstep
    by_contra hnone
    rw [not_or, Bool.not_eq_true, Bool.not_eq_true] at hnone
    have hrest := rests_of_waiting hwait hnone.1 hnone.2
    rw [hrest.apply_step] at hends
    exact hends hwait
  · rw [action.apply_runState state hreset hstep] at hends
    exact absurd hwait hends

/-! ## Runs -/

/-- What the steps of a run report, in order. -/
def events (actions : List (Action μ)) (state : Cpu × μ) : List StepEvent := (stepStarts actions state).map eventAt

theorem events_step (actions : List (Action μ)) (state : Cpu × μ) :
    events (.step :: actions) state = eventAt state :: events actions (Action.step.apply state) := rfl

theorem events_of_ne_step {action : Action μ} (h : action ≠ .step) (actions : List (Action μ)) (state : Cpu × μ) :
    events (action :: actions) state = events actions (action.apply state) := by
  rw [events, stepStarts_of_ne_step h, events]

/-- No request is served that was not latched, and none is served twice. -/
theorem nmi_count_le (actions : List (Action μ)) (state : Cpu × μ) :
    (events actions state).countP (·.enters .nmi) ≤ actions.countP Action.latches + state.1.nmiPending.toNat := by
  induction actions generalizing state with
  | nil => exact Nat.zero_le _
  | cons action actions ih =>
    have hrest := ih (action.apply state)
    by_cases hstep : action = .step
    · subst hstep
      have hentry : (eventAt state).enters .nmi = true → state.1.nmiPending = true := fun h => (enters_nmi_iff.1 h).2
      rw [step_latch] at hrest
      rw [events_step, List.countP_cons, List.countP_cons]
      cases hevent : (eventAt state).enters .nmi with
      | false =>
        simp only [hevent, Bool.not_false, Bool.and_true] at hrest
        simpa [Action.latches] using hrest
      | true =>
        simp only [hevent, Bool.not_true, Bool.and_false, Bool.toNat_false] at hrest
        simp only [hentry hevent, if_true, Bool.toNat_true]
        omega
    · have hlatch := action.apply_latch state hstep
      rw [events_of_ne_step hstep, List.countP_cons]
      cases hafter : (action.apply state).1.nmiPending with
      | false =>
        rw [hafter, Bool.toNat_false] at hrest
        omega
      | true =>
        rw [hafter, Bool.toNat_true] at hrest
        rcases hlatch hafter with h | h
        · rw [if_pos h]
          omega
        · rw [h, Bool.toNat_true]
          omega

/-- A latched request that is not withdrawn is served before anything else happens, unless the processor has stopped. -/
theorem nmi_first (actions : List (Action μ)) (state : Cpu × μ) (hreset : .reset ∉ actions)
    (hwithdraw : .call (.setNmiPending false) ∉ actions) (h : state.1.nmiPending = true) :
    ∀ event ∈ (events actions state).takeWhile (fun event => !event.enters .nmi), event = .stopped := by
  induction actions generalizing state with
  | nil => exact nofun
  | cons action actions ih =>
    rw [List.mem_cons, not_or] at hreset hwithdraw
    have hrest := ih (action.apply state) hreset.2 hwithdraw.2
    by_cases hstep : action = .step
    · subst hstep
      rw [events_step, List.takeWhile_cons]
      cases hevent : (eventAt state).enters .nmi with
      | true => exact nofun
      | false =>
        -- a step with a latched request and without an entry: the processor has stopped
        have hstopped : state.1.runState = .stopped := by
          by_contra hne
          exact absurd (enters_nmi_iff.2 ⟨hne, h⟩) (by simp [hevent])
        have hlatch : (Action.step.apply state).1.nmiPending = true := by
          rw [step_latch, hevent, h]
          rfl
        intro event hmem
        rcases List.mem_cons.1 hmem with rfl | hmem
        · rw [eventAt, (rests_of_stopped hstopped).1]
        · exact hrest hlatch event hmem
    · rw [events_of_ne_step hstep]
      exact hrest (action.keeps_latch state (Ne.symm hreset.1) hstep (Ne.symm hwithdraw.1) h)

/-- Without a reset, a stop lasts. -/
theorem stopped_rests (actions : List (Action μ)) (state : Cpu × μ) (hreset : .reset ∉ actions)
    (h : state.1.runState = .stopped) : ∀ start ∈ stepStarts actions state, Rests .stopped start := by
  induction actions generalizing state with
  | nil => exact nofun
  | cons action actions ih =>
    rw [List.mem_cons, not_or] at hreset
    have hrest := ih (action.apply state) hreset.2
    by_cases hstep : action = .step
    · subst hstep
      have hrests := rests_of_stopped h
      intro start hmem
      rcases List.mem_cons.1 hmem with rfl | hmem
      · exact hrests
      · refine hrest ?_ start hmem
        rw [hrests.apply_step]
        exact h
    · rw [stepStarts_of_ne_step hstep]
      refine hrest ?_
      rw [action.apply_runState state (Ne.symm hreset.1) hstep]
      exact h

/-- Whether a wait goes on. -/
def noRequest (start : Cpu × μ) : Bool := !start.1.nmiPending && !start.1.irqLine

/-- Without a reset, a wait lasts until a step begins with a request. -/
theorem waiting_rests (actions : List (Action μ)) (state : Cpu × μ) (hreset : .reset ∉ actions)
    (h : state.1.runState = .waiting) :
    ∀ start ∈ (stepStarts actions state).takeWhile noRequest, Rests .waiting start := by
  induction actions generalizing state with
  | nil => exact nofun
  | cons action actions ih =>
    rw [List.mem_cons, not_or] at hreset
    have hrest := ih (action.apply state) hreset.2
    by_cases hstep : action = .step
    · subst hstep
      rw [stepStarts_step, List.takeWhile_cons]
      cases hnone : noRequest state with
      | false => exact nofun
      | true =>
        rw [noRequest, Bool.and_eq_true, Bool.not_eq_true', Bool.not_eq_true'] at hnone
        have hrests := rests_of_waiting h hnone.1 hnone.2
        intro start hmem
        rcases List.mem_cons.1 hmem with rfl | hmem
        · exact hrests
        · refine hrest ?_ start hmem
          rw [hrests.apply_step]
          exact h
    · rw [stepStarts_of_ne_step hstep]
      refine hrest ?_
      rw [action.apply_runState state (Ne.symm hreset.1) hstep]
      exact h

/-- **Interrupts and rests in a run without reset.** The steps of the run enter handlers exactly on a latched request or
on an asserted line that is enabled, and keep the line; there are at most as many entries as requests were latched.
From any point of the run on, a latched request that is not withdrawn goes before everything else, a stop lasts, and a
wait lasts until a step begins with a request. -/
theorem interrupt_protocol (actions : List (Action μ)) (state : Cpu × μ) (hreset : .reset ∉ actions) :
    (∀ start ∈ stepStarts actions state,
      ((eventAt start).enters .nmi = true ↔ start.1.runState ≠ .stopped ∧ start.1.nmiPending = true) ∧
      ((eventAt start).enters .nmi = true → (Action.step.apply start).1.nmiPending = false) ∧
      ((eventAt start).enters .irq = true ↔ start.1.runState ≠ .stopped ∧ start.1.nmiPending = false ∧
        start.1.irqLine = true ∧ start.1.regs.flag Status.interruptDisable = false) ∧
      (Action.step.apply start).1.irqLine = start.1.irqLine) ∧
    (events actions state).countP (·.enters .nmi) ≤ actions.countP Action.latches + state.1.nmiPending.toNat ∧
    ∀ before after, actions = before ++ after →
      let now := play before state
      (now.1.nmiPending = true → .call (.setNmiPending false) ∉ after →
        ∀ event ∈ (events after now).takeWhile (fun event => !event.enters .nmi), event = .stopped) ∧
      (now.1.runState = .stopped → ∀ start ∈ stepStarts after now, Rests .stopped start) ∧
      (now.1.runState = .waiting →
        (∀ start ∈ (stepStarts after now).takeWhile noRequest, Rests .waiting start) ∧
        ∀ action rest, after = action :: rest → (action.apply now).1.runState ≠ .waiting →
          action = .step ∧ (now.1.nmiPending = true ∨ now.1.irqLine = true)) := by
  refine ⟨?_, nmi_count_le actions state, ?_⟩
  · intro start _
    refine ⟨enters_nmi_iff, ?_, enters_irq_iff, rfl⟩
    intro henters
    rw [step_latch, henters, Bool.not_true, Bool.and_false]
  · rintro before after rfl now
    rw [List.mem_append, not_or] at hreset
    refine ⟨fun hnmi hwithdraw => nmi_first after now hreset.2 hwithdraw hnmi, stopped_rests after now hreset.2, ?_⟩
    intro hwait
    refine ⟨waiting_rests after now hreset.2 hwait, ?_⟩
    rintro action rest rfl hends
    have haction : action ≠ .reset := fun h => hreset.2 (h ▸ List.mem_cons_self)
    exact action.ends_wait now haction hwait hends

/-- A processor that waits is woken by a request, which is served once. -/
theorem interrupt_protocol_wake :
    let memory : FlatMemory := ⟨fun _ => 0xCB⟩
    let run : List (Action FlatMemory) := [.step, .call .raiseNmi, .step, .step]
    Action.reset ∉ run ∧ (events run ({ runState := .waiting }, memory)).countP (·.enters .nmi) ≤ 1 :=
  ⟨by simp, (interrupt_protocol _ _ (by simp)).2.1⟩

end Emu816
