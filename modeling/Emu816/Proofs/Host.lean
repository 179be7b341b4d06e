import Emu816.Cpu.Step

/-!
# Runs under a host

Between the steps of a processor its host writes registers, drives the interrupt lines, changes memory or resets it, in
any order. A run is a list of such actions.

- `play`: the processor and its memory after a run; runs compose (`play_append`).
- `stepStarts`: the processor and its memory at the start of each step of a run.
-/

namespace Emu816

/-- A write to the register file. -/
inductive RegisterWrite where
  | a (value : UInt16)
  | x (value : UInt16)
  | y (value : UInt16)
  | s (value : UInt16)
  | d (value : UInt16)
  | pc (value : UInt16)
  | pbr (value : UInt8)
  | dbr (value : UInt8)
  | p (value : UInt8)
  /-- A status byte as if from the stack. -/
  | pulledStatus (value : UInt8)
  | flag (mask : UInt8) (enabled : Bool)
  | emulation (enabled : Bool)
  /-- The accumulator at its current width. -/
  | accumulator (value : UInt16)

/-- The registers after a write. -/
def RegisterWrite.apply (write : RegisterWrite) (r : Registers) : Registers :=
  match write with
  | .a value => r.setA value
  | .x value => r.setX value
  | .y value => r.setY value
  | .s value => r.setS value
  | .d value => r.setD value
  | .pc value => r.setPc value
  | .pbr value => r.setPbr value
  | .dbr value => r.setDbr value
  | .p value => r.setP value
  | .pulledStatus value => r.restoreP value
  | .flag mask enabled => r.setFlag mask enabled
  | .emulation enabled => r.setEmulation enabled
  | .accumulator value => r.setAccumulator value

/-- What a host does to a processor between two steps. -/
inductive HostCall where
  | raiseNmi
  | setNmiPending (pending : Bool)
  | setIrqLine (asserted : Bool)
  | write (write : RegisterWrite)
  | setFlag (mask : UInt8) (enabled : Bool)
  | updateZero (value : UInt16) (group : RegisterClass)
  | updateNegative (value : UInt16) (group : RegisterClass)

/-- The processor after a host call. -/
def HostCall.apply (call : HostCall) (cpu : Cpu) : Cpu :=
  match call with
  | .raiseNmi => cpu.raiseNmi
  | .setNmiPending pending => cpu.setNmiPending pending
  | .setIrqLine asserted => cpu.setIrqLine asserted
  | .write w => cpu.mapRegisters w.apply
  | .setFlag mask enabled => cpu.setFlag mask enabled
  | .updateZero value group => cpu.updateZero value group
  | .updateNegative value group => cpu.updateNegative value group

/-- What may happen next to a processor and its memory. -/
inductive Action (μ : Type) where
  | call (call : HostCall)
  /-- The host changes memory. -/
  | memory (change : μ → μ)
  | reset
  | step

variable {μ : Type} [Memory μ]

/-- The processor and its memory after an action. -/
def Action.apply (action : Action μ) (state : Cpu × μ) : Cpu × μ :=
  match action with
  | .call c => (c.apply state.1, state.2)
  | .memory change => (state.1, change state.2)
  | .reset => (state.1.reset state.2).2
  | .step => (state.1.step state.2).2

/-- The processor and its memory after a run. -/
def play (actions : List (Action μ)) (state : Cpu × μ) : Cpu × μ :=
  actions.foldl (fun state action => action.apply state) state

@[simp] theorem play_nil (state : Cpu × μ) : play [] state = state := rfl

@[simp] theorem play_cons (action : Action μ) (actions : List (Action μ)) (state : Cpu × μ) :
    play (action :: actions) state = play actions (action.apply state) := rfl

theorem play_append (first second : List (Action μ)) (state : Cpu × μ) :
    play (first ++ second) state = play second (play first state) := List.foldl_append

/-- What every action keeps, every run keeps. -/
theorem play_induction {P : Cpu × μ → Prop} (hstep : ∀ (action : Action μ) state, P state → P (action.apply state))
    (actions : List (Action μ)) {state : Cpu × μ} (h : P state) : P (play actions state) := by
  induction actions generalizing state with
  | nil => exact h
  | cons action actions ih => exact ih (hstep action state h)

/-- The processor and its memory at the start of each step of a run. -/
def stepStarts : List (Action μ) → Cpu × μ → List (Cpu × μ)
  | [], _ => []
  | .step :: actions, state => state :: stepStarts actions (Action.step.apply state)
  | action :: actions, state => stepStarts actions (action.apply state)

@[simp] theorem stepStarts_nil (state : Cpu × μ) : stepStarts [] state = [] := rfl

@[simp] theorem stepStarts_step (actions : List (Action μ)) (state : Cpu × μ) :
    stepStarts (.step :: actions) state = state :: stepStarts actions (Action.step.apply state) := rfl

theorem stepStarts_of_ne_step {action : Action μ} (h : action ≠ .step) (actions : List (Action μ)) (state : Cpu × μ) :
    stepStarts (action :: actions) state = stepStarts actions (action.apply state) := by
  cases action with
  | call c => rfl
  | memory change => rfl
  | reset => rfl
  | step => exact absurd rfl h

end Emu816
