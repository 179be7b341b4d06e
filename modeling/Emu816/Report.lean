import Emu816.Cartridge.Header
import Emu816.Cpu.Basic
import Emu816.Cpu.Outcome
import Emu816.Disassembly

/-!
# Report lines

The lines that a run prints: the cartridge, the registers and the steps of a trace.
-/

namespace Emu816.Report

/-- The letters of the status bits from bit 7 down to bit 0. -/
def flagLetters : List Char := ['n', 'v', 'm', 'x', 'd', 'i', 'z', 'c']

/-- The status bits as letters, upper case for the set ones. -/
def flags (p : UInt8) : String :=
  String.ofList (flagLetters.mapIdx fun i letter => if p.toNat.testBit (7 - i) then letter.toUpper else letter)

/-- Name of a run state. -/
def runState : RunState → String
  | .running => "Running"
  | .waiting => "Waiting"
  | .stopped => "Stopped"

/-- The line on a cartridge. -/
def header (header : Option Header) (scheme : Scheme) : String :=
  match header with
  | some header =>
    s!"cartridge: \"{header.title}\" {scheme.title} map=${Text.hex 2 header.mapMode.toNat} rom="
      ++ s!"{header.romBytes / 1024}KiB sram={header.sramBytes / 1024}KiB checksum="
      ++ (if header.checksumPairValid then "ok" else "bad")
  | none => s!"cartridge: no header {scheme.title}"

/-- The line on a processor. -/
def registers (cpu : Cpu) : String :=
  let r := cpu.regs
  let word (value : UInt16) := Text.hex 4 value.toNat
  let byte (value : UInt8) := Text.hex 2 value.toNat
  s!"A={word r.a} X={word r.x} Y={word r.y} S={word r.s} D={word r.d} DBR={byte r.dbr} PBR={byte r.pbr} "
    ++ s!"PC={word r.pc} P={flags r.p} E={r.emulation.toNat} state={runState cpu.runState} cycles={cpu.cycles}"

/-- Name of a hardware interrupt. -/
def interrupt : Interrupt → String
  | .nmi => "NMI"
  | .irq => "IRQ"

/-- The line on a step, given the row of the instruction at the program counter before it. A step that rests has no
line, and neither has an instruction without a row. -/
def step (row : Option Row) (outcome : Outcome) : Option String :=
  match outcome.event with
  | .executed .. => row.map fun row => s!"{Text.padRight 32 row.text} ; {outcome.cycles}"
  | .interrupt kind vector => some s!"-- {interrupt kind} via ${Text.hex 4 vector.toNat}"
  | .waiting | .stopped => none

end Emu816.Report
