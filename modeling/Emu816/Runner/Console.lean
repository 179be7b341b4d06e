import Emu816.Notice

/-!
# The runner's console

The messages of a run. Warnings are always shown, smaller matters only if asked for.
-/

namespace Emu816.Runner

/-- What a run writes beside its report. -/
structure Console where
  verbose : Bool
  messages : String := ""

namespace Console

/-- Whether notices of a level are shown. -/
def shows (console : Console) : Level → Bool
  | .warn => true
  | .info | .debug => console.verbose
  | .trace => false

/-- Shows a notice if its level is shown. -/
def note (notice : Notice) (console : Console) : Console :=
  if console.shows notice.level then
    { console with messages := console.messages ++ notice.level.label ++ ": " ++ notice.text ++ "\n" }
  else console

instance : Observer Console where
  note := note

end Console

end Emu816.Runner
