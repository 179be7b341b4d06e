import Emu816.Machine.Basic
import Emu816.Report

/-!
# Inspection

One-line texts of the state of a machine, for logs. Large parts are given by their size only.
-/

namespace Emu816

/-- A record as text: its name, its fields in braces, and two dots if some fields are left out. -/
def inspectRecord (name : String) (fields : List (String × String)) (complete : Bool) : String :=
  let shown := fields.map fun (field, value) => field ++ ": " ++ value
  name ++ " \x7b " ++ ", ".intercalate (if complete then shown else shown ++ [".."]) ++ " \x7d"

/-- The text of a register file. -/
def Registers.inspect (r : Registers) : String :=
  inspectRecord "Registers"
    [("a", toString r.a), ("x", toString r.x), ("y", toString r.y), ("s", toString r.s), ("d", toString r.d),
      ("pc", toString r.pc), ("pbr", toString r.pbr), ("dbr", toString r.dbr), ("p", toString r.p),
      ("emulation", toString r.emulation)] true

/-- The text of a processor. -/
def Cpu.inspect (cpu : Cpu) : String :=
  inspectRecord "Cpu"
    [("regs", cpu.regs.inspect), ("run_state", Report.runState cpu.runState),
      ("nmi_pending", toString cpu.nmiPending), ("irq_pending", toString cpu.irqLine),
      ("cycles", toString cpu.cycles), ("step_cycles", toString cpu.stepCycles),
      ("reset_fallback_pc", toString cpu.resetFallback)] true

/-- The text of the callbacks of a device register. -/
def IoHandler.inspect {σ : Type} (handler : IoHandler σ) : String :=
  inspectRecord "IoHandler" [("read", toString handler.hasRead), ("write", toString handler.hasWrite)] true

/-- The text of a bus. -/
def Bus.inspect {σ : Type} (bus : Bus σ) : String :=
  inspectRecord "Bus"
    [("scheme", bus.scheme.name), ("rom_len", toString bus.rom.size),
      ("io_handlers", toString bus.handlers.size)] false

/-- The text of the settings of a machine. -/
def MachineConfig.inspect (config : MachineConfig) : String :=
  let scheme :=
    match config.scheme? with
    | some scheme => "Some(" ++ scheme.name ++ ")"
    | none => "None"
  inspectRecord "MachineConfig"
    [("cycles_per_frame", toString config.cyclesPerFrame), ("reset_fallback_pc", toString config.resetFallback),
      ("tracing_enabled", toString config.tracing), ("scheme_override", scheme)] true

/-- The text of a machine. -/
def Machine.inspect {σ τ : Type} (machine : Machine σ τ) : String :=
  inspectRecord "Machine"
    [("cpu", machine.cpu.inspect), ("bus", machine.bus.inspect), ("config", machine.config.inspect),
      ("trace", toString machine.sink.isSome)] true

end Emu816
