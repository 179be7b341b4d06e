import Emu816.Activity

/-!
# Courses of activities

What memory answers decides which course an activity takes. The log of a course lists its cycles; a statement about
every course (`Activity.Ensures`) is proved once along the activity and then holds on every memory.

- `Activity.log`: the cycles on a memory; there are as many as `Activity.run` counts (`length_log`).
- `Activity.Ensures`: what every course ends with, from the parts of a sequence (`ensures_bind`).
- `Activity.Ensures.log`: what every course ensures, the course on a given memory ensures.
- `Exchange`: transfers as a memory answers them; those of a run are one (`exchange_log`).
-/

namespace Emu816

/-- Which way a byte goes. -/
inductive Direction where
  | read
  | write
  deriving DecidableEq

/-- A byte that went over the bus. -/
structure Transfer where
  direction : Direction
  purpose : Purpose
  addr : UInt32
  byte : UInt8
  deriving DecidableEq

/-- What happened in a cycle. -/
inductive Cycle where
  | idle
  | transfer (transfer : Transfer)
  deriving DecidableEq

namespace Cycle

/-- A cycle that reads a byte. -/
abbrev read (purpose : Purpose) (addr : UInt32) (byte : UInt8) : Cycle := transfer ⟨.read, purpose, addr, byte⟩

/-- A cycle that writes a byte. -/
abbrev write (purpose : Purpose) (addr : UInt32) (byte : UInt8) : Cycle := transfer ⟨.write, purpose, addr, byte⟩

/-- The transfer of a cycle, if it has one. -/
def transfer? : Cycle → Option Transfer
  | idle => none
  | transfer t => some t

end Cycle

/-- The transfers of a log, in order. -/
def transfers (log : List Cycle) : List Transfer := log.filterMap Cycle.transfer?

@[simp] theorem transfers_nil : transfers [] = [] := rfl

@[simp] theorem transfers_idle (log : List Cycle) : transfers (.idle :: log) = transfers log := rfl

@[simp] theorem transfers_transfer (t : Transfer) (log : List Cycle) :
    transfers (.transfer t :: log) = t :: transfers log := rfl

@[simp] theorem transfers_append (first second : List Cycle) :
    transfers (first ++ second) = transfers first ++ transfers second := List.filterMap_append

@[simp] theorem transfers_replicate_idle (n : Nat) : transfers (List.replicate n .idle) = [] := by
  induction n with
  | zero => rfl
  | succ n ih => exact ih

/-- The bytes that memory answered, in order. -/
def answers (log : List Cycle) : List UInt8 :=
  (transfers log).filterMap fun t => if t.direction = .read then some t.byte else none

@[simp] theorem answers_nil : answers [] = [] := rfl

@[simp] theorem answers_idle (log : List Cycle) : answers (.idle :: log) = answers log := rfl

@[simp] theorem answers_read (purpose : Purpose) (addr : UInt32) (byte : UInt8) (log : List Cycle) :
    answers (.read purpose addr byte :: log) = byte :: answers log := rfl

@[simp] theorem answers_write (purpose : Purpose) (addr : UInt32) (byte : UInt8) (log : List Cycle) :
    answers (.write purpose addr byte :: log) = answers log := rfl

@[simp] theorem answers_replicate_idle (n : Nat) : answers (List.replicate n .idle) = [] := by
  induction n with
  | zero => rfl
  | succ n ih => exact ih

@[simp] theorem answers_append (first second : List Cycle) :
    answers (first ++ second) = answers first ++ answers second := by
  simp [answers, List.filterMap_append]

namespace Activity

variable {α β μ : Type}

/-! ## Every course -/

/-- Every course of the activity has a log and a value with the property. -/
def Ensures : Activity α → (List Cycle → α → Prop) → Prop
  | done value, post => post [] value
  | idle next, post => next.Ensures fun log => post (.idle :: log)
  | read purpose addr next, post =>
    ∀ byte, (next byte).Ensures fun log => post (.read purpose addr byte :: log)
  | write purpose addr value next, post => next.Ensures fun log => post (.write purpose addr value :: log)

theorem Ensures.mono {activity : Activity α} {post post' : List Cycle → α → Prop} (h : activity.Ensures post)
    (himp : ∀ log value, post log value → post' log value) : activity.Ensures post' := by
  induction activity generalizing post post' with
  | done value => exact himp _ _ h
  | idle next ih => exact ih h fun log value => himp _ value
  | read purpose addr next ih => exact fun byte => ih byte (h byte) fun log value => himp _ value
  | write purpose addr value next ih => exact ih h fun log value => himp _ value

/-- What holds of every log and value, every course ends with. -/
theorem ensures_of_forall {activity : Activity α} {post : List Cycle → α → Prop} (h : ∀ log value, post log value) :
    activity.Ensures post := by
  induction activity generalizing post with
  | done value => exact h _ _
  | idle next ih => exact ih fun log => h _
  | read purpose addr next ih => exact fun byte => ih byte fun log => h _
  | write purpose addr value next ih => exact ih fun log => h _

/-- The courses of a sequence are the courses of its parts, one after the other. -/
theorem ensures_bind (activity : Activity α) (f : α → Activity β) (post : List Cycle → β → Prop) :
    (activity.bind f).Ensures post ↔
      activity.Ensures fun first a => (f a).Ensures fun second b => post (first ++ second) b := by
  induction activity generalizing post with
  | done value => rfl
  | idle next ih => exact ih _
  | read purpose addr next ih => exact forall_congr' fun byte => ih byte _
  | write purpose addr value next ih => exact ih _

/-! ## The course on a memory -/

variable [Memory μ]

/-- The cycles of an activity on a memory. -/
def log : Activity α → μ → List Cycle
  | done _, _ => []
  | idle next, memory => .idle :: next.log memory
  | read purpose addr next, memory =>
    .read purpose addr (Memory.read memory addr).1 ::
      (next (Memory.read memory addr).1).log (Memory.read memory addr).2
  | write purpose addr value next, memory =>
    .write purpose addr value :: next.log (Memory.write memory addr value)

/-- Every cycle is counted. -/
theorem length_log (activity : Activity α) (memory : μ) :
    (activity.log memory).length = (activity.run memory).cycles := by
  induction activity generalizing memory with
  | done value => rfl
  | idle next ih => simp [log, run, ih]
  | read purpose addr next ih => simp [log, run, ih]
  | write purpose addr value next ih => simp [log, run, ih]

/-- A sequence does the cycles of its parts. -/
theorem log_bind (activity : Activity α) (f : α → Activity β) (memory : μ) :
    (activity.bind f).log memory =
      activity.log memory ++ (f (activity.run memory).value).log (activity.run memory).memory := by
  induction activity generalizing memory with
  | done value => rfl
  | idle next ih => simp only [bind, log, run, ih, List.cons_append]
  | read purpose addr next ih => simp only [bind, log, run, ih, List.cons_append]
  | write purpose addr value next ih => simp only [bind, log, run, ih, List.cons_append]

/-- What every course ensures, the course on a given memory ensures. -/
theorem Ensures.log {activity : Activity α} {post : List Cycle → α → Prop} (h : activity.Ensures post)
    (memory : μ) : post (activity.log memory) (activity.run memory).value := by
  induction activity generalizing memory post with
  | done value => exact h
  | idle next ih => exact ih h memory
  | read purpose addr next ih => exact ih _ (h _) _
  | write purpose addr value next ih => exact ih h _

end Activity

/-! ## Exchanges with a memory -/

/-- The memory answers the transfers as they say, and is left as `after`. -/
def Exchange {μ : Type} [Memory μ] : μ → List Transfer → μ → Prop
  | memory, [], after => after = memory
  | memory, ⟨.read, _, addr, byte⟩ :: rest, after =>
    (Memory.read memory addr).1 = byte ∧ Exchange (Memory.read memory addr).2 rest after
  | memory, ⟨.write, _, addr, byte⟩ :: rest, after => Exchange (Memory.write memory addr byte) rest after

section Exchange

variable {α μ : Type} [Memory μ]

/-- An exchange goes on where the one before it ended. -/
theorem Exchange.append {memory between after : μ} {first second : List Transfer}
    (hfirst : Exchange memory first between) (hsecond : Exchange between second after) :
    Exchange memory (first ++ second) after := by
  induction first generalizing memory with
  | nil => cases hfirst; exact hsecond
  | cons t first ih =>
    obtain ⟨direction, purpose, addr, byte⟩ := t
    cases direction with
    | read => exact ⟨hfirst.1, ih hfirst.2⟩
    | write => exact ih hfirst

/-- An exchange can be cut anywhere. -/
theorem Exchange.split {memory after : μ} {first second : List Transfer}
    (h : Exchange memory (first ++ second) after) :
    ∃ between, Exchange memory first between ∧ Exchange between second after := by
  induction first generalizing memory with
  | nil => exact ⟨memory, rfl, h⟩
  | cons t first ih =>
    obtain ⟨direction, purpose, addr, byte⟩ := t
    cases direction with
    | read =>
      obtain ⟨between, hfirst, hsecond⟩ := ih h.2
      exact ⟨between, ⟨h.1, hfirst⟩, hsecond⟩
    | write => exact ih h

/-- The log of a run is an exchange with its memory. -/
theorem exchange_log (activity : Activity α) (memory : μ) :
    Exchange memory (transfers (activity.log memory)) (activity.run memory).memory := by
  induction activity generalizing memory with
  | done value => rfl
  | idle next ih => exact ih memory
  | read purpose addr next ih => exact ⟨rfl, ih _ _⟩
  | write purpose addr value next ih => exact ih _

end Exchange

end Emu816
