import Emu816.Proofs.Cells
import Emu816.Proofs.Host
import Emu816.Proofs.MachineRuns

/-!
# Machines under a host

A host drives the processor of a machine, uses its bus, puts callbacks behind device registers and cartridges into the
slot, and lets the machine step and run. Each call gives a reply.

- `MachineCall`, `MachineReply`: what a host does, and what it gets to see; `BusChange`: what it changes about the bus.
- `Machine.Agrees`: machines that differ in their trace sinks alone.
- `Agrees.applyAll`: they give the same replies to the same calls, and go on agreeing.
-/

namespace Emu816

/-! ## Calls -/

/-- What a host changes about a bus. -/
inductive BusChange (σ : Type) where
  /-- Puts another bus in place. -/
  | put (bus : Bus σ)
  | setScheme (scheme : Scheme)
  | setSaveRam (contents : Vector UInt8 saveRamSize)
  | setHandler (offset : UInt16) (handler : IoHandler σ)
  | setDevice (first last : UInt16) (device : IoDevice σ)
  | clearHandler (offset : UInt16)
  /-- Changes what the callbacks work on. -/
  | host (change : σ → σ)

/-- The bus after a change. -/
def BusChange.apply {σ : Type} (change : BusChange σ) (bus : Bus σ) : Bus σ :=
  match change with
  | .put other => other
  | .setScheme scheme => bus.setScheme scheme
  | .setSaveRam contents => { bus with saveRam := contents }
  | .setHandler offset handler => bus.setHandler offset handler
  | .setDevice first last device => bus.setDevice first last device
  | .clearHandler offset => bus.clearHandler offset
  | .host f => bus.mapHost f

/-- What a host does with a machine. -/
inductive MachineCall (σ τ : Type) where
  | cpu (call : HostCall)
  /-- Puts another processor in place. -/
  | putCpu (cpu : Cpu)
  | bus (call : BusCall)
  | changeBus (change : BusChange σ)
  | peek (addr : UInt32)
  | importSaveRam (image : Image)
  | load (image : Image)
  | reset
  | step
  | runCycles (budget : Nat)
  | runFrame (deliverNmi : Bool)
  | listing (count : Nat)
  | installSink (sink : τ)
  | removeSink
  | setTracing (enabled : Bool)

/-- What a call gives back. -/
inductive MachineReply where
  | done
  | byte (value : UInt8)
  | word (value : UInt16)
  | imported (error : Option SaveRamError)
  | outcome (outcome : Outcome)
  | run (outcome : RunOutcome)
  | rows (rows : List Row)

/-- What a call on the bus gives back. -/
def BusCall.reply {σ : Type} (call : BusCall) (bus : Bus σ) : MachineReply :=
  match call with
  | .read addr => .byte (bus.read addr).1
  | .readWord addr => .word (bus.readWord addr).1
  | .write _ _ | .writeWord _ _ | .copy _ _ _ => .done

section Calls

variable {σ τ : Type} [Observer σ] [TraceSink τ]

namespace MachineCall

/-- The reply to a call, and the machine after it. -/
def apply (call : MachineCall σ τ) (machine : Machine σ τ) : MachineReply × Machine σ τ :=
  match call with
  | .cpu call => (.done, machine.mapCpu call.apply)
  | .putCpu other => (.done, machine.mapCpu fun _ => other)
  | .bus call => (call.reply machine.bus, machine.mapBus call.apply)
  | .changeBus change => (.done, machine.mapBus change.apply)
  | .peek addr => (.byte (machine.bus.peek addr), machine)
  | .importSaveRam image =>
    match machine.bus.importSaveRam image with
    | .ok filled => (.imported none, machine.mapBus fun _ => filled)
    | .error error => (.imported (some error), machine)
  | .load image => (.done, machine.load image)
  | .reset => (.done, machine.reset)
  | .step => (.outcome machine.step.1, machine.step.2)
  | .runCycles budget => (.run (machine.runCycles budget).1, (machine.runCycles budget).2)
  | .runFrame deliverNmi => (.run (machine.runFrame deliverNmi).1, (machine.runFrame deliverNmi).2)
  | .listing count => (.rows (machine.listing count), machine)
  | .installSink sink => (.done, machine.installSink sink)
  | .removeSink => (.done, machine.removeSink.2)
  | .setTracing enabled => (.done, machine.setTracing enabled)

/-- The replies to some calls, and the machine after them. -/
def applyAll : List (MachineCall σ τ) → Machine σ τ → List MachineReply × Machine σ τ
  | [], machine => ([], machine)
  | call :: calls, machine =>
    match call.apply machine with
    | (reply, machine) =>
      match applyAll calls machine with
      | (replies, machine) => (reply :: replies, machine)

end MachineCall

end Calls

/-! ## Machines that agree -/

namespace Machine

section Agrees

variable {σ τ : Type} {machine machine' : Machine σ τ}

/-- The machines differ in their trace sinks alone. -/
structure Agrees (machine machine' : Machine σ τ) : Prop where
  cpu : machine.cpu = machine'.cpu
  bus : machine.bus = machine'.bus
  config : machine.config = machine'.config

theorem Agrees.eq_with_sink (h : Agrees machine machine') : machine' = { machine with sink := machine'.sink } := by
  rw [h.cpu, h.bus, h.config]

theorem Agrees.mapCpu (h : Agrees machine machine') (f : Cpu → Cpu) : Agrees (machine.mapCpu f) (machine'.mapCpu f) :=
  ⟨congrArg f h.cpu, h.bus, h.config⟩

theorem Agrees.mapBus (h : Agrees machine machine') (f : Bus σ → Bus σ) :
    Agrees (machine.mapBus f) (machine'.mapBus f) :=
  ⟨h.cpu, congrArg f h.bus, h.config⟩

variable [Observer σ]

theorem Agrees.load (h : Agrees machine machine') (image : Image) : Agrees (machine.load image) (machine'.load image) := by
  unfold Machine.load
  rw [h.config]
  exact h.mapBus _

theorem Agrees.reset (h : Agrees machine machine') : Agrees machine.reset machine'.reset := by
  rw [h.eq_with_sink]
  exact ⟨rfl, rfl, rfl⟩

variable [TraceSink τ]

/-- The sink has no say in a step. -/
theorem Agrees.step (h : Agrees machine machine') :
    machine.step.1 = machine'.step.1 ∧ Agrees machine.step.2 machine'.step.2 := by
  rw [h.eq_with_sink]
  exact ⟨rfl, rfl, rfl, rfl⟩

/-- Nor in a run. -/
theorem Agrees.runRemaining (h : Agrees machine machine') (remaining : Nat) (passed : RunOutcome) :
    (machine.runRemaining remaining passed).1 = (machine'.runRemaining remaining passed).1 ∧
      Agrees (machine.runRemaining remaining passed).2 (machine'.runRemaining remaining passed).2 := by
  induction machine, remaining using stepsFor.induct generalizing machine' passed with
  | case1 machine =>
    rw [runRemaining_zero, runRemaining_zero]
    exact ⟨rfl, h⟩
  | case2 machine budget hbudget ih =>
    obtain ⟨houtcome, hnext⟩ := h.step
    rw [runRemaining_of_ne_zero machine hbudget, runRemaining_of_ne_zero machine' hbudget, ← houtcome]
    exact ih hnext _

theorem Agrees.runFrame (h : Agrees machine machine') (deliverNmi : Bool) :
    (machine.runFrame deliverNmi).1 = (machine'.runFrame deliverNmi).1 ∧
      Agrees (machine.runFrame deliverNmi).2 (machine'.runFrame deliverNmi).2 := by
  obtain ⟨houtcome, hrun⟩ := h.runRemaining machine.config.cyclesPerFrame {}
  rw [Machine.runFrame, Machine.runFrame, ← h.config]
  refine ⟨houtcome, ?_⟩
  cases deliverNmi with
  | false => exact hrun
  | true => exact hrun.mapCpu Cpu.raiseNmi

/-- **Machines that agree reply alike** to a call, and agree after it. -/
theorem Agrees.apply (h : Agrees machine machine') (call : MachineCall σ τ) :
    (call.apply machine).1 = (call.apply machine').1 ∧ Agrees (call.apply machine).2 (call.apply machine').2 := by
  cases call with
  | cpu call => exact ⟨rfl, h.mapCpu call.apply⟩
  | putCpu cpu => exact ⟨rfl, h.mapCpu fun _ => cpu⟩
  | bus call => exact ⟨congrArg call.reply h.bus, h.mapBus call.apply⟩
  | changeBus change => exact ⟨rfl, h.mapBus change.apply⟩
  | peek addr => exact ⟨congrArg (fun bus => MachineReply.byte (Bus.peek bus addr)) h.bus, h⟩
  | importSaveRam image =>
    simp only [MachineCall.apply, h.bus]
    cases machine'.bus.importSaveRam image with
    | ok bus => exact ⟨rfl, h.mapBus fun _ => bus⟩
    | error error => exact ⟨rfl, h⟩
  | load image => exact ⟨rfl, h.load image⟩
  | reset => exact ⟨rfl, h.reset⟩
  | step => exact ⟨congrArg MachineReply.outcome h.step.1, h.step.2⟩
  | runCycles budget =>
    have hrun := h.runRemaining budget {}
    exact ⟨congrArg MachineReply.run hrun.1, hrun.2⟩
  | runFrame deliverNmi =>
    have hrun := h.runFrame deliverNmi
    exact ⟨congrArg MachineReply.run hrun.1, hrun.2⟩
  | listing count =>
    refine ⟨congrArg MachineReply.rows ?_, h⟩
    rw [Machine.listing, Machine.listing, h.cpu, h.bus]
  | installSink sink => exact ⟨rfl, h.cpu, h.bus, h.config⟩
  | removeSink => exact ⟨rfl, h.cpu, h.bus, h.config⟩
  | setTracing enabled => exact ⟨rfl, h.cpu, h.bus, congrArg (fun config => { config with tracing := enabled }) h.config⟩

/-- The replies to any calls are alike. -/
theorem Agrees.applyAll (h : Agrees machine machine') (calls : List (MachineCall σ τ)) :
    (MachineCall.applyAll calls machine).1 = (MachineCall.applyAll calls machine').1 ∧
      Agrees (MachineCall.applyAll calls machine).2 (MachineCall.applyAll calls machine').2 := by
  induction calls generalizing machine machine' with
  | nil => exact ⟨rfl, h⟩
  | cons call calls ih =>
    obtain ⟨hreply, hafter⟩ := h.apply call
    obtain ⟨hreplies, hlast⟩ := ih hafter
    exact ⟨List.cons_eq_cons.2 ⟨hreply, hreplies⟩, hlast⟩

end Agrees

end Machine

end Emu816
