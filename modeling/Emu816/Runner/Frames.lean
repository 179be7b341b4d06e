import Emu816.Machine.Run
import Emu816.Report

/-!
# Frames of a run

Frames are run with or without a line for each step. A traced frame has the same budget as any other: the row of the
instruction at the program counter is taken before the step, if the step may go to an instruction at all.
-/

namespace Emu816.Runner

variable {σ τ : Type} [Observer σ] [TraceSink τ]

/-- The row of the instruction that the next step may execute. -/
def nextRow (machine : Machine σ τ) : Option Row :=
  let cpu := machine.cpu
  if cpu.runState = .running ∨ cpu.nmiPending ∨ cpu.irqLine then (machine.listing 1).head? else none

/-- The text with a line added, if there is one. -/
def addLine (out : String) : Option String → String
  | some line => out ++ line ++ "\n"
  | none => out

/-- Steps until no cycles remain, adding a line for each step and adding to what has passed. -/
def traceRemaining (machine : Machine σ τ) (remaining : Nat) (passed : RunOutcome) (out : String) :
    RunOutcome × String × Machine σ τ :=
  if remaining = 0 then (passed, out, machine)
  else
    let row := nextRow machine
    match _ : machine.step with
    | (outcome, next) =>
      traceRemaining next (remaining - outcome.cycles) (passed.addStep outcome) (addLine out (Report.step row outcome))
termination_by remaining
decreasing_by
  have := machine.step_cycles_pos
  simp_all only
  omega

/-- Runs a frame and adds a line for each step. -/
def traceFrame (machine : Machine σ τ) (deliverNmi : Bool) (out : String) : RunOutcome × String × Machine σ τ :=
  match traceRemaining machine machine.config.cyclesPerFrame {} out with
  | (outcome, out, machine) => (outcome, out, if deliverNmi then machine.mapCpu Cpu.raiseNmi else machine)

/-- Runs frames, adding to what has passed and to the text. -/
def runFrames (trace deliverNmi : Bool) :
    (frames : Nat) → Machine σ τ → (passed : RunOutcome) → (out : String) → RunOutcome × String × Machine σ τ
  | 0, machine, passed, out => (passed, out, machine)
  | frames + 1, machine, passed, out =>
    if trace then
      match traceFrame machine deliverNmi out with
      | (outcome, out, machine) => runFrames trace deliverNmi frames machine (passed.add outcome) out
    else
      match machine.runFrame deliverNmi with
      | (outcome, machine) => runFrames trace deliverNmi frames machine (passed.add outcome) out

end Emu816.Runner
