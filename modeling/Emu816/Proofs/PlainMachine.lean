import Emu816.Proofs.CheckedDecimals
import Emu816.Proofs.FrameCounts
import Emu816.Proofs.PlainBus

/-!
# A machine on plain arrays

A machine on a plain bus, where all that may go wrong has no result: an access out of range, a number out of range, a
step that takes other than the asserted time, a run that takes more steps than it has cycles, a listing of more rows than
there is room for. Nothing of it goes wrong but the last, whatever a host does with the machine: each call has a result,
the one of the machine, unless it asks for too many rows.

- `Outcome.AsAsserted`: the times that are fixed for two kinds of steps; `Cpu.step_asAsserted`: all steps keep to them.
- `MachineCall.hasRoom`: the calls that do not ask for too many rows.
- `PlainMachine.call`: a call of a host on a plain machine; `Machine.call_plain`: it has the reply of the machine.
- `nothing_fails`: the calls on a machine, and the parts that can be used without one, for all that is given to them.
-/

namespace Emu816

/-! ## Asserted times -/

/-- An entry into the handler of a hardware interrupt and the move of a byte take fixed times. -/
def Outcome.AsAsserted (outcome : Outcome) : Prop :=
  (outcome.event.isInterrupt = true → outcome.cycles = Instruction.interruptEntryCycles) ∧
  ((outcome.event.executes .mvn || outcome.event.executes .mvp) = true →
    outcome.cycles = Instruction.blockMoveCycles)

instance (outcome : Outcome) : Decidable outcome.AsAsserted := inferInstanceAs (Decidable (_ ∧ _))

/-- The move of a byte has no surcharge. -/
theorem Instruction.publishedCost_of_moves {opcode : UInt8}
    (h : (Instruction.decode opcode).mnemonic = .mvn ∨ (Instruction.decode opcode).mnemonic = .mvp) :
    publishedCost opcode = { reference := blockMoveCycles } :=
  forall_byte (P := fun opcode => (Instruction.decode opcode).mnemonic = .mvn ∨
    (Instruction.decode opcode).mnemonic = .mvp → publishedCost opcode = { reference := blockMoveCycles })
    (by decide +kernel) opcode h

theorem Cost.Charges.eq_of_reference {reference cycles : Nat} {c : Conditions}
    (h : ({ reference } : Cost).Charges c cycles) : cycles = reference := by
  simpa [Charges, total] using h

/-- **Every step takes the asserted time**, in both modes. -/
theorem Cpu.step_asAsserted {μ : Type} [Memory μ] (cpu : Cpu) (memory : μ) : (cpu.step memory).1.AsAsserted := by
  have hpost : cpu.activity.Ensures fun log result => Outcome.AsAsserted ⟨result.1, log.length⟩ := by
    rw [ensures_activity]
    cases cpu.task with
    | stop => exact ⟨nofun, nofun⟩
    | wait => exact ⟨nofun, nofun⟩
    | interrupt kind =>
      exact (Microcode.ensures_enterHardware_length kind cpu.regs).mono fun _ _ _ hlength => ⟨fun _ => hlength, nofun⟩
    | execute =>
      refine (ensures_instruction_cost cpu.regs).mono fun log opcode _ hcost => ⟨nofun, fun hmoves => ?_⟩
      have hmoves : (Instruction.decode opcode).mnemonic = .mvn ∨ (Instruction.decode opcode).mnemonic = .mvp := by
        simpa [StepEvent.executes] using hmoves
      rw [Instruction.publishedCost_of_moves hmoves] at hcost
      exact hcost.eq_of_reference
  have hstep := Cpu.step_of_ensures hpost memory
  rwa [← cpu.step_cycles] at hstep

/-! ## Courses on a plain bus -/

namespace Activity

variable {α σ : Type} [Observer σ]

/-- Plays an activity on a plain bus. -/
def playOn : Activity α → PlainBus σ → Option (Result α (PlainBus σ))
  | done value, bus => some ⟨value, 0, bus⟩
  | idle next, bus => do
    let result ← next.playOn bus
    return { result with cycles := result.cycles + 1 }
  | read _ addr next, bus => do
    let (byte, bus) ← bus.read addr
    let result ← (next byte).playOn bus
    return { result with cycles := result.cycles + 1 }
  | write _ addr value next, bus => do
    let bus ← bus.write addr value
    let result ← next.playOn bus
    return { result with cycles := result.cycles + 1 }

/-- **An activity goes through on the plain side of a bus**, as on the bus. -/
theorem playOn_plain (activity : Activity α) (bus : Bus σ) :
    activity.playOn bus.plain =
      some ⟨(activity.run bus).value, (activity.run bus).cycles, (activity.run bus).memory.plain⟩ := by
  induction activity generalizing bus with
  | done value => rfl
  | idle next ih =>
    rw [playOn, ih]
    rfl
  | read purpose addr next ih =>
    simp only [playOn, bus.read_plain, ih, Option.bind_eq_bind, Option.bind_some]
    rfl
  | write purpose addr value next ih =>
    rw [playOn, bus.write_plain, Option.bind_eq_bind, Option.bind_some, ih]
    rfl

end Activity

/-! ## The plain machine -/

/-- The outcome of a step and the processor after it. -/
def Cpu.stepped {μ : Type} (cpu : Cpu) : Activity.Result (StepEvent × Registers × RunState) μ → Outcome × Cpu × μ
  | ⟨(event, regs, runState), cycles, memory⟩ =>
    ({ event, cycles },
      { cpu with regs, runState, nmiPending := cpu.keepsNmi, cycles := cpu.cycles + cycles, stepCycles := cycles },
      memory)

/-- A machine on a plain bus. -/
structure PlainMachine (σ τ : Type) where
  cpu : Cpu
  bus : PlainBus σ
  config : MachineConfig
  sink : Option τ

/-- The machine without the sizes of its memories. -/
def Machine.plain {σ τ : Type} (machine : Machine σ τ) : PlainMachine σ τ :=
  { cpu := machine.cpu, bus := machine.bus.plain, config := machine.config, sink := machine.sink }

namespace PlainMachine

variable {σ τ : Type}

/-- A machine with an empty cartridge slot. -/
def new (config : MachineConfig) (host : σ) : PlainMachine σ τ :=
  { cpu := { resetFallback := config.resetFallback }
    bus :=
      { workRam := .replicate workRamSize 0, saveRam := .replicate saveRamSize 0, rom := #[], scheme := .loRom,
        handlers := {}, host }
    config
    sink := none }

variable [Observer σ]

/-- Puts an image into the cartridge slot. -/
def load (machine : PlainMachine σ τ) (image : Image) : Option (PlainMachine σ τ) := do
  let bus ← machine.bus.load image
  return { machine with bus := { bus with scheme := machine.config.scheme?.getD bus.scheme } }

/-- Clears work memory and resets the processor. -/
def reset (machine : PlainMachine σ τ) : Option (PlainMachine σ τ) := do
  let (low, bus) ← machine.bus.reset.read resetVector.toUInt32
  let second ← Checked.add resetVector.toUInt32 1
  let (high, bus) ← bus.read second
  let vector := Word.ofBytes low high
  let bus := if Cpu.isBlank vector then bus.note (.blankResetVector vector machine.cpu.resetFallback) else bus
  return { machine with cpu := machine.cpu.restarted vector, bus }

/-- The given number of instructions from the program counter on. -/
def listing (machine : PlainMachine σ τ) (count : Nat) : Option (List Row) :=
  let r := machine.cpu.regs
  Checked.window machine.bus.peek r.programAddress ⟨r.accumulatorWidth == .byte, r.indexWidth == .byte⟩ count

variable [TraceSink τ]

/-- Does a step of the processor, which must take the asserted time. -/
def step (machine : PlainMachine σ τ) : Option (Outcome × PlainMachine σ τ) := do
  let result ← machine.cpu.activity.playOn machine.bus
  let (outcome, cpu, bus) := machine.cpu.stepped result
  if outcome.AsAsserted then
    let sink :=
      if machine.config.tracing then machine.sink.map (outcome.events.foldl TraceSink.record) else machine.sink
    return (outcome, { machine with cpu, bus, sink })
  else none

/-- Steps until no cycles remain, at most `limit` times. -/
def runRemaining (limit : Nat) (machine : PlainMachine σ τ) (remaining : Nat) (passed : RunOutcome) :
    Option (RunOutcome × PlainMachine σ τ) :=
  if remaining = 0 then some (passed, machine)
  else
    match limit with
    | 0 => none
    | limit + 1 => do
      let (outcome, next) ← machine.step
      next.runRemaining limit (remaining - outcome.cycles) (passed.addStep outcome)

/-- Steps until at least `budget` cycles have passed, with no more steps than that. -/
def runCycles (machine : PlainMachine σ τ) (budget : Nat) : Option (RunOutcome × PlainMachine σ τ) :=
  runRemaining budget machine budget {}

/-- Runs a frame. -/
def runFrame (machine : PlainMachine σ τ) (deliverNmi : Bool) : Option (RunOutcome × PlainMachine σ τ) := do
  let (outcome, machine) ← machine.runCycles machine.config.cyclesPerFrame
  return (outcome, if deliverNmi then { machine with cpu := machine.cpu.raiseNmi } else machine)

/-- Does what a host does with a machine. -/
def call (machine : PlainMachine σ τ) : MachineCall σ τ → Option (MachineReply × PlainMachine σ τ)
  | .cpu call => some (.done, { machine with cpu := call.apply machine.cpu })
  | .putCpu other => some (.done, { machine with cpu := other })
  | .bus call => do
    let (reply, bus) ← machine.bus.call call
    return (reply, { machine with bus })
  | .changeBus change => do
    let bus ← machine.bus.change change
    return (.done, { machine with bus })
  | .peek addr => do
    let byte ← machine.bus.peek addr
    return (.byte byte, machine)
  | .importSaveRam image => do
    let imported ← machine.bus.importSaveRam image
    match imported with
    | .ok bus => return (.imported none, { machine with bus })
    | .error error => return (.imported (some error), machine)
  | .load image => do
    let machine ← machine.load image
    return (.done, machine)
  | .reset => do
    let machine ← machine.reset
    return (.done, machine)
  | .step => do
    let (outcome, machine) ← machine.step
    return (.outcome outcome, machine)
  | .runCycles budget => do
    let (outcome, machine) ← machine.runCycles budget
    return (.run outcome, machine)
  | .runFrame deliverNmi => do
    let (outcome, machine) ← machine.runFrame deliverNmi
    return (.run outcome, machine)
  | .listing count => do
    let rows ← machine.listing count
    return (.rows rows, machine)
  | .installSink sink => some (.done, { machine with sink := some sink })
  | .removeSink => some (.done, { machine with sink := none })
  | .setTracing enabled => some (.done, { machine with config := { machine.config with tracing := enabled } })

/-- Does some calls. -/
def callAll (machine : PlainMachine σ τ) : List (MachineCall σ τ) → Option (List MachineReply × PlainMachine σ τ)
  | [] => some ([], machine)
  | call :: calls => do
    let (reply, machine) ← machine.call call
    let (replies, machine) ← machine.callAll calls
    return (reply :: replies, machine)

end PlainMachine

/-! ## Calls on the plain side of a machine -/

/-- Whether there is room for the rows that the call asks for. -/
def MachineCall.hasRoom {σ τ : Type} : MachineCall σ τ → Bool
  | .listing count => Checked.hasRoom count
  | _ => true

namespace Machine

variable {σ τ : Type} (machine : Machine σ τ)

theorem listing_plain (count : Nat) :
    machine.plain.listing count = if Checked.hasRoom count then some (machine.listing count) else none := by
  have hpeek : machine.plain.bus.peek = fun addr => some (machine.bus.peek addr) := funext machine.bus.peek_plain
  rw [PlainMachine.listing, hpeek]
  exact Checked.window_eq _ _ _ count

variable [Observer σ]

theorem load_plain (image : Image) : machine.plain.load image = some (machine.load image).plain := by
  have hload := machine.bus.load_plain image
  rw [PlainMachine.load, show machine.plain.bus = machine.bus.plain from rfl, hload, Machine.load]
  cases hscheme : machine.config.scheme? with
  | none =>
    simp only [Machine.plain, hscheme]
    rfl
  | some scheme =>
    simp only [Machine.plain, hscheme]
    rfl

theorem reset_plain : machine.plain.reset = some machine.reset.plain := by
  have hsecond : Checked.add resetVector.toUInt32 1 = some (resetVector.toUInt32 + 1) := rfl
  have hbus : machine.plain.bus.reset = machine.bus.reset.plain := machine.bus.reset_plain
  have hnote (blank : Bool) (bus : Bus σ) (notice : Notice) :
      (if blank then bus.plain.note notice else bus.plain) = (if blank then bus.note notice else bus).plain := by
    cases blank <;> rfl
  simp only [PlainMachine.reset, hbus, Bus.read_plain, hsecond, hnote, Option.bind_eq_bind, Option.bind_some,
    Option.pure_def]
  rfl

variable [TraceSink τ]

/-- A step goes through, in the asserted time. -/
theorem step_plain : machine.plain.step = some (machine.step.1, machine.step.2.plain) := by
  have hplay : machine.plain.cpu.activity.playOn machine.plain.bus = _ :=
    machine.cpu.activity.playOn_plain machine.bus
  have hasserted : machine.step.1.AsAsserted := machine.cpu.step_asAsserted machine.bus
  rw [PlainMachine.step, hplay, Option.bind_eq_bind, Option.bind_some]
  exact if_pos hasserted

/-- A run goes through if the limit is the number of its cycles. -/
theorem runRemaining_plain {limit remaining : Nat} (h : remaining ≤ limit) (passed : RunOutcome) :
    PlainMachine.runRemaining limit machine.plain remaining passed =
      some ((machine.runRemaining remaining passed).1, (machine.runRemaining remaining passed).2.plain) := by
  induction limit generalizing machine remaining passed with
  | zero =>
    obtain rfl : remaining = 0 := Nat.le_zero.1 h
    rw [runRemaining_zero]
    rfl
  | succ limit ih =>
    by_cases hremaining : remaining = 0
    · subst hremaining
      rw [runRemaining_zero]
      rfl
    · have hpos := machine.step_cycles_pos
      rw [PlainMachine.runRemaining, if_neg hremaining, step_plain, runRemaining_of_ne_zero machine hremaining]
      exact ih _ (by omega) _

theorem runCycles_plain (budget : Nat) :
    machine.plain.runCycles budget = some ((machine.runCycles budget).1, (machine.runCycles budget).2.plain) :=
  machine.runRemaining_plain (Nat.le_refl budget) {}

theorem runFrame_plain (deliverNmi : Bool) :
    machine.plain.runFrame deliverNmi =
      some ((machine.runFrame deliverNmi).1, (machine.runFrame deliverNmi).2.plain) := by
  have hrun := machine.runCycles_plain machine.config.cyclesPerFrame
  rw [PlainMachine.runFrame, show machine.plain.config = machine.config from rfl, hrun, Machine.runFrame]
  cases deliverNmi <;> rfl

/-- **Every call on a machine has its reply**, if there is room for the rows that it asks for. -/
theorem call_plain (call : MachineCall σ τ) :
    machine.plain.call call =
      if call.hasRoom then some ((call.apply machine).1, (call.apply machine).2.plain) else none := by
  have hbus : machine.plain.bus = machine.bus.plain := rfl
  cases call with
  | cpu _ | putCpu _ | installSink _ | removeSink | setTracing _ => rfl
  | bus call =>
    rw [PlainMachine.call, hbus, Bus.call_plain]
    rfl
  | changeBus change =>
    rw [PlainMachine.call, hbus, Bus.change_plain]
    rfl
  | peek addr =>
    rw [PlainMachine.call, hbus, Bus.peek_plain]
    rfl
  | importSaveRam image =>
    rw [PlainMachine.call, hbus, Bus.importSaveRam_plain, MachineCall.apply]
    cases machine.bus.importSaveRam image <;> rfl
  | load image =>
    rw [PlainMachine.call, load_plain]
    rfl
  | reset =>
    rw [PlainMachine.call, reset_plain]
    rfl
  | step =>
    rw [PlainMachine.call, step_plain]
    rfl
  | runCycles budget =>
    rw [PlainMachine.call, runCycles_plain]
    rfl
  | runFrame deliverNmi =>
    rw [PlainMachine.call, runFrame_plain]
    rfl
  | listing count =>
    rw [PlainMachine.call, listing_plain, MachineCall.hasRoom]
    cases Checked.hasRoom count <;> rfl

/-- All replies to any calls, if there is room for all rows. -/
theorem callAll_plain (calls : List (MachineCall σ τ)) :
    machine.plain.callAll calls =
      if calls.all MachineCall.hasRoom then
        some ((MachineCall.applyAll calls machine).1, (MachineCall.applyAll calls machine).2.plain)
      else none := by
  induction calls generalizing machine with
  | nil => rfl
  | cons call calls ih =>
    rw [PlainMachine.callAll, call_plain, List.all_cons]
    cases call.hasRoom with
    | false => rfl
    | true =>
      simp only [if_true, Option.bind_eq_bind, Option.bind_some, ih, Bool.true_and]
      cases calls.all MachineCall.hasRoom <;> rfl

end Machine

/-! ## Nothing fails -/

/-- **Nothing goes wrong, whatever a host does.** On a machine with plain memories, all calls have their replies: every
access is in range, every step takes the asserted time and every run ends. Only a listing has none if it asks for more
rows than a block of memory has room for. The memories keep their sizes. The decoder, the readings of images and rows and
the decimal sums have results for all that is given to them. -/
theorem nothing_fails {σ τ : Type} [Observer σ] [TraceSink τ] :
    (∀ (config : MachineConfig) (host : σ) (calls : List (MachineCall σ τ)),
      let replies := (MachineCall.applyAll calls (Machine.new config host)).1
      let machine := (MachineCall.applyAll calls (Machine.new config host)).2
      (PlainMachine.new config host).callAll calls =
        (if calls.all MachineCall.hasRoom then some (replies, machine.plain) else none) ∧
      machine.plain.bus.workRam.size = 0x20000 ∧ machine.plain.bus.saveRam.size = 0x20000 ∧
      machine.step.1.AsAsserted) ∧
    (∀ (scheme : Scheme) (addr : UInt32), Checked.locate scheme addr = some (scheme.locate addr).place) ∧
    (∀ (image : Image) (scheme : Scheme),
      Checked.score image scheme = some (scheme.score image) ∧
      Checked.parse image scheme = some (Header.parse image scheme) ∧
      Checked.withoutCopierHeader image = some image.withoutCopierHeader) ∧
    (∀ (peek : UInt32 → UInt8) (addr : UInt32) (widths : ListingWidths),
      Checked.row (fun addr => some (peek addr)) addr widths = some (Row.decode peek addr widths) ∧
      ∀ count, Checked.window (fun addr => some (peek addr)) addr widths count =
        if count * 80 ≤ 0x7FFFFFFFFFFFFFFF then some (Row.window peek addr widths count) else none) ∧
    (∀ (a b : UInt16) (carry : Bool) (width : Width),
      Checked.addDecimal a b carry width = some (Arithmetic.add a b carry width true) ∧
      Checked.subtractDecimal a b carry width = some (Arithmetic.subtract a b carry width true)) := by
  refine ⟨fun config host calls => ?_, Checked.locate_eq, fun image scheme => ?_, fun peek addr widths => ?_,
    fun a b carry width => ?_⟩
  · have hnew : (PlainMachine.new config host : PlainMachine σ τ) = (Machine.new config host).plain := rfl
    have hcalls := (Machine.new config host).callAll_plain calls
    refine ⟨hnew ▸ hcalls, ?_, ?_, ?_⟩
    · exact Vector.size_toArray _
    · exact Vector.size_toArray _
    · exact Cpu.step_asAsserted _ _
  · exact ⟨Checked.score_eq image scheme, Checked.parse_eq image scheme, Checked.withoutCopierHeader_eq image⟩
  · refine ⟨Checked.row_eq peek addr widths, fun count => ?_⟩
    rw [Checked.window_eq, Checked.hasRoom]
    simp only [decide_eq_true_eq]
    rfl
  · exact ⟨Checked.addDecimal_eq a b carry width, Checked.subtractDecimal_eq a b carry width⟩

end Emu816
