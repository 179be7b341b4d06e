import Emu816.Runner.Session

/-!
# Command line

Reads the cartridge file that the arguments name, writes the response and exits with its code.
-/

namespace Emu816.Runner

/-- The error number that a system call gives or, in 32 bits, its negative. -/
def errorNumber (code : UInt32) : UInt32 := if code < 0x80000000 then code else -code

/-- The fault behind a failed system call. -/
def ReadFault.ofError : IO.Error → ReadFault
  | .noFileOrDirectory .. => .missing
  | .permissionDenied .. => .denied
  | .inappropriateType _ code _ => if errorNumber code = 20 then .notDirectory else .directory
  | .invalidArgument _ code details =>
    if errorNumber code = 36 then .nameTooLong else .other s!"{details} (os error {errorNumber code})"
  | error => .other (toString error)

/-- Reads a file. -/
def readImage (path : String) : IO (Except ReadFault Image) := do
  try
    return .ok (← IO.FS.readBinFile path).data
  catch error => return .error (.ofError error)

end Emu816.Runner

open Emu816.Runner in
/-- Runs the cartridge runner. -/
def main (arguments : List String) : IO UInt32 := do
  let file ←
    match Command.ofArguments arguments with
    | .ok (.run options) => readImage options.path
    | _ => pure (.error .missing)
  let response := respond arguments fun _ => file
  (← IO.getStdout).putStr response.stdout
  (← IO.getStderr).putStr response.stderr
  return response.exitCode.toUInt32
