import Emu816.Machine.Basic

/-!
# Runs

Steps until a number of cycles has passed. Instructions are never cut, so the last step may go beyond the budget.
Every step takes at least one cycle (`Cpu.step_cycles_pos`), so each run ends.
-/

namespace Emu816

/-- What a run took. -/
structure RunOutcome where
  steps : Nat := 0
  cycles : Nat := 0
  deriving DecidableEq, Inhabited

namespace RunOutcome

/-- The largest count of steps; further steps are not counted. -/
def maxSteps : Nat := 0xFFFFFFFF

/-- The outcome of two runs in a row. -/
def add (first second : RunOutcome) : RunOutcome :=
  { steps := min (first.steps + second.steps) maxSteps, cycles := first.cycles + second.cycles }

/-- The outcome of a run with a step after it. -/
def addStep (run : RunOutcome) (outcome : Outcome) : RunOutcome := run.add ⟨1, outcome.cycles⟩

end RunOutcome

/-- A step takes time. -/
theorem Cpu.step_cycles_pos {μ : Type} [Memory μ] (cpu : Cpu) (memory : μ) : 0 < (cpu.step memory).1.cycles := by
  suffices 0 < (cpu.activity.run memory).cycles from this
  unfold Cpu.activity
  split
  · simp [Activity.run]
  · simp [Activity.run]
  · exact Nat.succ_pos _
  · exact Nat.succ_pos _

namespace Machine

variable {σ τ : Type} [Observer σ] [TraceSink τ]

/-- A step takes time. -/
theorem step_cycles_pos (machine : Machine σ τ) : 0 < machine.step.1.cycles :=
  machine.cpu.step_cycles_pos machine.bus

/-- Steps until no cycles remain, adding to what has passed. -/
def runRemaining (machine : Machine σ τ) (remaining : Nat) (passed : RunOutcome) : RunOutcome × Machine σ τ :=
  if remaining = 0 then (passed, machine)
  else
    match _ : machine.step with
    | (outcome, next) => next.runRemaining (remaining - outcome.cycles) (passed.addStep outcome)
termination_by remaining
decreasing_by
  have := step_cycles_pos machine
  simp_all only
  omega

/-- Steps until at least `budget` cycles have passed. -/
def runCycles (machine : Machine σ τ) (budget : Nat) : RunOutcome × Machine σ τ := machine.runRemaining budget {}

/-- Runs a frame; at its end, the blanking of the screen may request an interrupt that cannot be disabled. -/
def runFrame (machine : Machine σ τ) (deliverNmi : Bool) : RunOutcome × Machine σ τ :=
  match machine.runCycles machine.config.cyclesPerFrame with
  | (outcome, machine) => (outcome, if deliverNmi then machine.mapCpu Cpu.raiseNmi else machine)

end Machine

end Emu816
