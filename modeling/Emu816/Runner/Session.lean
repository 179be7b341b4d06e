import Emu816.Runner.Arguments
import Emu816.Runner.Console
import Emu816.Runner.Frames

/-!
# Sessions of the runner

From the arguments and the files to the report, the messages and the exit code.
-/

namespace Emu816.Runner

/-- Text on how to call the runner. -/
def usage : String := "Usage: snes-run <rom> [options]

Options:
  --frames <n>  Frames to run before reporting (default: 1)
  --trace       Print each executed instruction
  --lorom       Force LoROM mapping
  --hirom       Force HiROM mapping
  --no-nmi      Do not raise NMI at the end of each frame
  -v, --verbose Log load and mapping details to stderr
  -h, --help    Show this help message

Examples:
  snes-run game.sfc
  snes-run game.smc --frames 60 --hirom
  snes-run test.sfc --trace --no-nmi
"

/-- Why a file could not be read. -/
inductive ReadFault where
  /-- There is no such file. -/
  | missing
  | denied
  /-- The path goes through a file as if it were a directory. -/
  | notDirectory
  /-- The path leads to a directory. -/
  | directory
  | nameTooLong
  | other (description : String)
  deriving DecidableEq

/-- Wording of the fault. -/
def ReadFault.message : ReadFault → String
  | missing => "No such file or directory (os error 2)"
  | denied => "Permission denied (os error 13)"
  | notDirectory => "Not a directory (os error 20)"
  | directory => "Is a directory (os error 21)"
  | nameTooLong => "File name too long (os error 36)"
  | other description => description

/-- Why a session ended without a report. -/
inductive Failure where
  | usage (error : UsageError)
  | unreadable (path : String) (fault : ReadFault)
  | emptyImage (path : String)
  deriving DecidableEq

namespace Failure

/-- Wording of the failure. -/
def message : Failure → String
  | usage error => error.message
  | unreadable path fault => s!"failed to read {path}: {fault.message}"
  | emptyImage path => s!"{path} holds no cartridge data"

/-- Exit code of the session. -/
def exitCode : Failure → Nat
  | usage _ => 2
  | unreadable .. | emptyImage _ => 1

end Failure

/-- What a session leaves behind. -/
structure Response where
  exitCode : Nat
  stdout : String := ""
  stderr : String := ""
  deriving DecidableEq

/-- The response to a failure, after what has been written so far. A usage error shows how to call the runner. -/
def Failure.response (failure : Failure) (stderr : String) : Response :=
  let hint :=
    match failure with
    | usage _ => Runner.usage ++ "\n"
    | _ => ""
  { exitCode := failure.exitCode, stderr := stderr ++ "error: " ++ failure.message ++ "\n" ++ hint }

/-- Number of rows of the listing at the end of a report. -/
def listingRows : Nat := 8

/-- A machine that is ready to run a cartridge. -/
def prepare (options : Options) (cartridge : Image) (console : Console) : Machine Console Tally :=
  let machine := ((Machine.new { tracing := true, scheme? := options.scheme? } console).load cartridge).reset
  let ready := Notice.cartridgeReady options.path machine.bus.scheme machine.cpu.regs.programAddress
  (machine.mapBus fun bus => bus.note ready).installSink {}

/-- The line on the totals of a run. -/
def totalsLine (frames : Nat) (total : RunOutcome) (tally : Tally) : String :=
  s!"frames={frames} steps={total.steps} cycles={total.cycles} instructions={tally.instructions} "
    ++ s!"interrupts={tally.interrupts}"

/-- Runs a machine and reports on it. -/
def reportRun (options : Options) (machine : Machine Console Tally) : Response :=
  let header := Header.parse machine.bus.rom machine.bus.scheme
  let first := Report.header header machine.bus.scheme ++ "\n"
  match runFrames options.trace options.deliverNmi options.frames machine {} first with
  | (total, out, machine) =>
    let totals := totalsLine options.frames total (machine.sink.getD {})
    let rows := (machine.listing listingRows).map fun row => row.text ++ "\n"
    { exitCode := 0
      stdout := out ++ totals ++ "\n" ++ Report.registers machine.cpu ++ "\n" ++ String.join rows
      stderr := machine.bus.host.messages }

/-- Runs the contents of a cartridge file. -/
def play (options : Options) (file : Image) : Response :=
  let cartridge := file.withoutCopierHeader
  let console : Console := { verbose := options.verbose }
  let console :=
    if cartridge.size = file.size then console
    else console.note (.copierHeaderDropped (file.size - cartridge.size))
  if cartridge.isEmpty then (Failure.emptyImage options.path).response console.messages
  else reportRun options (prepare options cartridge console)

/-- The response to a command line, given the contents of the files. -/
def respond (arguments : List String) (readFile : String → Except ReadFault Image) : Response :=
  match Command.ofArguments arguments with
  | .error error => (Failure.usage error).response ""
  | .ok .help => { exitCode := 0, stdout := usage ++ "\n" }
  | .ok (.run options) =>
    match readFile options.path with
    | .error fault => (Failure.unreadable options.path fault).response ""
    | .ok file => play options file

end Emu816.Runner
