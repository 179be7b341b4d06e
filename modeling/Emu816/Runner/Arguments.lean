import Emu816.Cartridge.Scheme

/-!
# Arguments of the runner

The command line is read from left to right. A request for help counts as soon as it is reached; an error counts if it
comes first.
-/

namespace Emu816.Runner

/-- What to run and how. -/
structure Options where
  path : String
  frames : Nat := 1
  /-- Print each step. -/
  trace : Bool := false
  /-- The mapping scheme to use whatever the image looks like. -/
  scheme? : Option Scheme := none
  /-- Request an interrupt at the end of each frame. -/
  deliverNmi : Bool := true
  verbose : Bool := false
  deriving DecidableEq

/-- What a command line asks for. -/
inductive Command where
  | help
  | run (options : Options)
  deriving DecidableEq

/-- Fault in a command line. -/
inductive UsageError where
  | conflictingSchemes
  | missingFrames
  | invalidFrames (value : String)
  | unknownOption (option : String)
  | multiplePaths
  | missingPath
  deriving DecidableEq

/-- Wording of a fault. -/
def UsageError.message : UsageError → String
  | conflictingSchemes => "--lorom and --hirom are mutually exclusive"
  | missingFrames => "missing value for --frames"
  | invalidFrames value => s!"invalid frame count: {value}"
  | unknownOption option => s!"unknown option: {option}"
  | multiplePaths => "multiple cartridge paths provided"
  | missingPath => "missing cartridge path"

/-- The value of decimal digits, most significant first; at least one is needed. -/
def digitsValue? : List Char → Option Nat
  | [] => none
  | digits => if digits.all Char.isDigit then some (digits.foldl (fun n d => 10 * n + (d.toNat - 48)) 0) else none

/-- A frame count: decimal ASCII digits, perhaps after a plus sign, of at most 32 bits. -/
def frameCount? (text : String) : Option Nat :=
  let digits :=
    match text.toList with
    | '+' :: digits => digits
    | digits => digits
  (digitsValue? digits).filter (· ≤ 0xFFFFFFFF)

/-- What has been read of a command line. -/
structure Reading where
  path? : Option String := none
  frames : Nat := 1
  trace : Bool := false
  scheme? : Option Scheme := none
  deliverNmi : Bool := true
  verbose : Bool := false

namespace Reading

/-- Reads a scheme option; only the same one may come before it. -/
def force (reading : Reading) (scheme : Scheme) : Except UsageError Reading :=
  match reading.scheme? with
  | some earlier =>
    if earlier = scheme then .ok reading else .error .conflictingSchemes
  | none => .ok { reading with scheme? := some scheme }

/-- Reads an argument that is no option of its own; what starts with a dash is meant as an option. -/
def take (reading : Reading) (argument : String) : Except UsageError Reading :=
  if argument.startsWith "-" then .error (.unknownOption argument)
  else if reading.path?.isSome then .error .multiplePaths
  else .ok { reading with path? := some argument }

/-- The end of the command line. -/
def finish (reading : Reading) : Except UsageError Command :=
  match reading.path? with
  | some path =>
    .ok (.run {
      path
      frames := reading.frames
      trace := reading.trace
      scheme? := reading.scheme?
      deliverNmi := reading.deliverNmi
      verbose := reading.verbose })
  | none => .error .missingPath

/-- Reads the rest of a command line. -/
def read (reading : Reading) : List String → Except UsageError Command
  | [] => reading.finish
  | "-h" :: _ | "--help" :: _ => .ok .help
  | "--trace" :: rest => { reading with trace := true }.read rest
  | "--no-nmi" :: rest => { reading with deliverNmi := false }.read rest
  | "-v" :: rest | "--verbose" :: rest => { reading with verbose := true }.read rest
  | "--lorom" :: rest => do (← reading.force .loRom).read rest
  | "--hirom" :: rest => do (← reading.force .hiRom).read rest
  | ["--frames"] => .error .missingFrames
  | "--frames" :: value :: rest =>
    match frameCount? value with
    | some frames => { reading with frames }.read rest
    | none => .error (.invalidFrames value)
  | argument :: rest => do (← reading.take argument).read rest

end Reading

/-- Reads a command line. -/
def Command.ofArguments (arguments : List String) : Except UsageError Command := Reading.read {} arguments

end Emu816.Runner
