/-!
# Run states

Whether a processor goes on with its program.
-/

namespace Emu816

/-- State of the processor between two steps. -/
inductive RunState where
  /-- It executes instructions. -/
  | running
  /-- It rests until an interrupt is requested. -/
  | waiting
  /-- It rests until reset. -/
  | stopped
  deriving DecidableEq, Inhabited

end Emu816
