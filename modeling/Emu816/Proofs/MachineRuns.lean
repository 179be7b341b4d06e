import Emu816.Machine.Run
import Emu816.Proofs.InterruptProtocol

/-!
# Runs of a machine

A run until a budget is spent is a number of steps, and everything about it can be said of the machines at the starts of
these steps.

- `Machine.afterSteps`, `Machine.starts`: the machine after some steps, and at the start of each of them.
- `Machine.stepsFor`: how many steps a budget lasts for.
- `Machine.runRemaining_eq`: a run is so many steps; `Machine.runFrame_eq`: a frame.
- `Machine.sink_afterSteps`: what steps send to the trace sink.
-/

namespace Emu816.Machine

variable {σ τ : Type} [Observer σ] [TraceSink τ]

/-! ## Steps -/

/-- The machine after some steps. -/
def afterSteps : Nat → Machine σ τ → Machine σ τ
  | 0, machine => machine
  | count + 1, machine => afterSteps count machine.step.2

/-- The machine at the start of each of the next steps. -/
def starts : Nat → Machine σ τ → List (Machine σ τ)
  | 0, _ => []
  | count + 1, machine => machine :: starts count machine.step.2

@[simp] theorem length_starts (count : Nat) (machine : Machine σ τ) : (starts count machine).length = count := by
  induction count generalizing machine with
  | zero => rfl
  | succ count ih => rw [starts, List.length_cons, ih]

/-- A step starts where the steps before it have led. -/
theorem getElem?_starts {k count : Nat} (hk : k < count) (machine : Machine σ τ) :
    (starts count machine)[k]? = some (afterSteps k machine) := by
  induction k generalizing count machine with
  | zero =>
    cases count with
    | zero => cases hk
    | succ count => rfl
  | succ k ih =>
    cases count with
    | zero => cases hk
    | succ count =>
      rw [starts, List.getElem?_cons_succ]
      exact ih (Nat.lt_of_succ_lt_succ hk) machine.step.2

/-! ## Runs -/

/-- How many steps it takes until a number of cycles has passed. -/
def stepsFor (machine : Machine σ τ) (budget : Nat) : Nat :=
  if budget = 0 then 0 else machine.step.2.stepsFor (budget - machine.step.1.cycles) + 1
termination_by budget
decreasing_by
  have := step_cycles_pos machine
  omega

/-- What passes in the steps from some starts. -/
def passing (passed : RunOutcome) (starts : List (Machine σ τ)) : RunOutcome :=
  starts.foldl (fun passed start => passed.addStep start.step.1) passed

/-- The machines at the starts of the steps of a run. -/
def runStarts (machine : Machine σ τ) (budget : Nat) : List (Machine σ τ) := starts (machine.stepsFor budget) machine

theorem runStarts_zero (machine : Machine σ τ) : machine.runStarts 0 = [] := by
  rw [runStarts, stepsFor]
  rfl

theorem runStarts_of_ne_zero (machine : Machine σ τ) {budget : Nat} (h : budget ≠ 0) :
    machine.runStarts budget = machine :: machine.step.2.runStarts (budget - machine.step.1.cycles) := by
  rw [runStarts, stepsFor, if_neg h]
  rfl

theorem runRemaining_zero (machine : Machine σ τ) (passed : RunOutcome) :
    machine.runRemaining 0 passed = (passed, machine) := by
  rw [runRemaining, if_pos rfl]

theorem runRemaining_of_ne_zero (machine : Machine σ τ) {remaining : Nat} (h : remaining ≠ 0) (passed : RunOutcome) :
    machine.runRemaining remaining passed =
      machine.step.2.runRemaining (remaining - machine.step.1.cycles) (passed.addStep machine.step.1) := by
  rw [runRemaining, if_neg h]

/-- **A run is so many steps** as the budget lasts for. -/
theorem runRemaining_eq (machine : Machine σ τ) (remaining : Nat) (passed : RunOutcome) :
    machine.runRemaining remaining passed =
      (passing passed (machine.runStarts remaining), afterSteps (machine.stepsFor remaining) machine) := by
  induction machine, remaining using stepsFor.induct generalizing passed with
  | case1 machine =>
    rw [runRemaining_zero, runStarts_zero, stepsFor]
    rfl
  | case2 machine budget hbudget ih =>
    rw [runRemaining_of_ne_zero machine hbudget, runStarts_of_ne_zero machine hbudget, stepsFor, if_neg hbudget]
    exact ih _

theorem runFrame_eq (machine : Machine σ τ) (deliverNmi : Bool) :
    machine.runFrame deliverNmi =
      let budget := machine.config.cyclesPerFrame
      let final := afterSteps (machine.stepsFor budget) machine
      (passing {} (machine.runStarts budget), if deliverNmi then final.mapCpu Cpu.raiseNmi else final) := by
  rw [runFrame, runCycles, runRemaining_eq]

/-! ## The trace sink -/

@[simp] theorem step_config (machine : Machine σ τ) : machine.step.2.config = machine.config := rfl

theorem step_sink (machine : Machine σ τ) :
    machine.step.2.sink =
      if machine.config.tracing then machine.sink.map (machine.step.1.events.foldl TraceSink.record)
      else machine.sink := rfl

theorem config_afterSteps (count : Nat) (machine : Machine σ τ) :
    (afterSteps count machine).config = machine.config := by
  induction count generalizing machine with
  | zero => rfl
  | succ count ih => rw [afterSteps, ih, step_config]

/-- While tracing is on, the sink takes the events of all steps in order. -/
theorem sink_afterSteps (count : Nat) {machine : Machine σ τ} (htracing : machine.config.tracing = true) :
    (afterSteps count machine).sink =
      machine.sink.map (((starts count machine).flatMap fun start => start.step.1.events).foldl TraceSink.record) := by
  induction count generalizing machine with
  | zero => cases hsink : machine.sink <;> simp [afterSteps, starts, hsink]
  | succ count ih =>
    have hnext : machine.step.2.config.tracing = true := htracing
    rw [afterSteps, ih hnext, step_sink, if_pos htracing, Option.map_map, starts, List.flatMap_cons]
    refine congrArg (Option.map · machine.sink) (funext fun sink => ?_)
    exact (List.foldl_append ..).symm

end Emu816.Machine
