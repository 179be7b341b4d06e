import Emu816.Bus.Basic
import Emu816.Cpu.Step
import Emu816.Disassembly
import Emu816.Machine.Trace

/-!
# The machine

A processor on the system bus, with a place for a trace sink. `σ` is the state of the host behind the device registers
and `τ` the type of the sink.
-/

namespace Emu816

/-- Settings of a machine. -/
structure MachineConfig where
  /-- Cycles of a frame. -/
  cyclesPerFrame : Nat := 59659
  /-- Where execution starts when the reset vector is blank. -/
  resetFallback : UInt16 := 0x8000
  /-- Whether trace events go to the sink. -/
  tracing : Bool := false
  /-- A mapping scheme that is used whatever an image looks like. -/
  scheme? : Option Scheme := none
  deriving DecidableEq

/-- A machine. -/
structure Machine (σ τ : Type) where
  cpu : Cpu
  bus : Bus σ
  config : MachineConfig
  /-- The trace sink, if one is installed. -/
  sink : Option τ

namespace Machine

variable {σ τ : Type}

/-- A machine with an empty cartridge slot. -/
def new (config : MachineConfig) (host : σ) : Machine σ τ :=
  { cpu := { resetFallback := config.resetFallback }, bus := { host }, config, sink := none }

/-- Changes the processor. -/
def mapCpu (machine : Machine σ τ) (f : Cpu → Cpu) : Machine σ τ := { machine with cpu := f machine.cpu }

/-- Changes the bus. -/
def mapBus (machine : Machine σ τ) (f : Bus σ → Bus σ) : Machine σ τ := { machine with bus := f machine.bus }

/-- Puts an image into the cartridge slot. The processor goes on as it is until it is reset. -/
def load [Observer σ] (machine : Machine σ τ) (image : Image) : Machine σ τ :=
  machine.mapBus fun bus =>
    let loaded := bus.load image
    match machine.config.scheme? with
    | some scheme => loaded.setScheme scheme
    | none => loaded

/-- Clears work memory and resets the processor. The host is told of a blank reset vector. -/
def reset [Observer σ] (machine : Machine σ τ) : Machine σ τ :=
  match machine with
  | ⟨cpu, bus, config, sink⟩ =>
    match cpu.reset bus.reset with
    | (vector, cpu, bus) =>
      let bus := if Cpu.isBlank vector then bus.note (.blankResetVector vector cpu.resetFallback) else bus
      ⟨cpu, bus, config, sink⟩

/-- Does a step of the processor. -/
def step [Observer σ] [TraceSink τ] (machine : Machine σ τ) : Outcome × Machine σ τ :=
  match machine with
  | ⟨cpu, bus, config, sink⟩ =>
    match cpu.step bus with
    | (outcome, cpu, bus) =>
      let sink := if config.tracing then sink.map (outcome.events.foldl TraceSink.record) else sink
      (outcome, ⟨cpu, bus, config, sink⟩)

/-- The given number of instructions from the program counter on, at the present register widths. -/
def listing (machine : Machine σ τ) (count : Nat) : List Row :=
  let r := machine.cpu.regs
  Row.window machine.bus.peek r.programAddress
    ⟨r.accumulatorWidth == .byte, r.indexWidth == .byte⟩ count

/-- Installs a trace sink. -/
def installSink (machine : Machine σ τ) (sink : τ) : Machine σ τ := { machine with sink := some sink }

/-- Takes the trace sink out. -/
def removeSink (machine : Machine σ τ) : Option τ × Machine σ τ := (machine.sink, { machine with sink := none })

/-- Turns tracing on or off. -/
def setTracing (machine : Machine σ τ) (enabled : Bool) : Machine σ τ :=
  { machine with config := { machine.config with tracing := enabled } }

end Machine

end Emu816
