import Emu816.Memory

/-!
# Bus activities

What a processor does is a tree of bus cycles: each node is one cycle, a read branches on the byte that comes back, and
a leaf holds the result. `Activity.run` plays an activity on a memory and counts the nodes that it passes, so cycle
counts are nowhere written down, they are the lengths of the paths taken. An access says what it is for, as the status
pins of a processor do; memory does not see it.

- `Activity.bind`: one activity after another.
- `Activity.run_bind`: playing a sequence plays its parts in order, and their cycles add up.
-/

namespace Emu816

/-- What an access is for. -/
inductive Purpose where
  /-- An instruction byte. -/
  | code
  /-- A byte of an address that memory holds. -/
  | pointer
  /-- A byte of an operand. -/
  | data
  /-- A byte that is pushed or pulled. -/
  | stack
  /-- A byte of a handler's address. -/
  | vector
  deriving DecidableEq

/-- A course of bus cycles that ends in a value. -/
inductive Activity (α : Type) where
  /-- The end. -/
  | done (value : α)
  /-- One cycle inside the processor. -/
  | idle (next : Activity α)
  /-- One cycle that reads a byte. -/
  | read (purpose : Purpose) (addr : UInt32) (next : UInt8 → Activity α)
  /-- One cycle that writes a byte. -/
  | write (purpose : Purpose) (addr : UInt32) (value : UInt8) (next : Activity α)

namespace Activity

variable {α β γ μ : Type}

/-- Goes on with `f` where `activity` ends. -/
def bind (activity : Activity α) (f : α → Activity β) : Activity β :=
  match activity with
  | done value => f value
  | idle next => idle (next.bind f)
  | read purpose addr next => read purpose addr fun byte => (next byte).bind f
  | write purpose addr value next => write purpose addr value (next.bind f)

instance : Monad Activity where
  pure := done
  bind := bind

theorem bind_done (activity : Activity α) : activity.bind done = activity := by
  induction activity with
  | done value => rfl
  | idle next ih => rw [bind, ih]
  | read purpose addr next ih => simp only [bind, ih]
  | write purpose addr value next ih => rw [bind, ih]

theorem bind_assoc (activity : Activity α) (f : α → Activity β) (g : β → Activity γ) :
    (activity.bind f).bind g = activity.bind fun a => (f a).bind g := by
  induction activity with
  | done value => rfl
  | idle next ih => simp only [bind, ih]
  | read purpose addr next ih => simp only [bind, ih]
  | write purpose addr value next ih => simp only [bind, ih]

instance : LawfulMonad Activity :=
  LawfulMonad.mk' Activity
    (fun activity => bind_done activity)
    (fun _ _ => rfl)
    (fun activity f g => bind_assoc activity f g)

/-! ## One cycle at a time -/

@[simp] theorem pure_eq_done (value : α) : (pure value : Activity α) = done value := rfl

@[simp] theorem done_bind (value : α) (f : α → Activity β) : (done value >>= f) = f value := rfl

@[simp] theorem idle_bind (next : Activity α) (f : α → Activity β) : (idle next >>= f) = idle (next >>= f) := rfl

@[simp] theorem read_bind (purpose : Purpose) (addr : UInt32) (next : UInt8 → Activity α) (f : α → Activity β) :
    (read purpose addr next >>= f) = read purpose addr fun byte => next byte >>= f := rfl

@[simp] theorem write_bind (purpose : Purpose) (addr : UInt32) (value : UInt8) (next : Activity α)
    (f : α → Activity β) : (write purpose addr value next >>= f) = write purpose addr value (next >>= f) := rfl

/-! ## Playing an activity -/

/-- What an activity leaves behind: its value, the cycles that it took and the memory. -/
structure Result (α μ : Type) where
  value : α
  cycles : Nat
  memory : μ

/-- Plays an activity on a memory. -/
def run [Memory μ] : Activity α → μ → Result α μ
  | done value, memory => ⟨value, 0, memory⟩
  | idle next, memory =>
    match next.run memory with
    | ⟨value, cycles, memory⟩ => ⟨value, cycles + 1, memory⟩
  | read _ addr next, memory =>
    match Memory.read memory addr with
    | (byte, memory) =>
      match (next byte).run memory with
      | ⟨value, cycles, memory⟩ => ⟨value, cycles + 1, memory⟩
  | write _ addr value next, memory =>
    match next.run (Memory.write memory addr value) with
    | ⟨value, cycles, memory⟩ => ⟨value, cycles + 1, memory⟩

/-- Playing a sequence plays the second part where the first one ended, and the cycles add up. -/
theorem run_bind [Memory μ] (activity : Activity α) (f : α → Activity β) (memory : μ) :
    (activity.bind f).run memory =
      let first := activity.run memory
      let second := (f first.value).run first.memory
      ⟨second.value, first.cycles + second.cycles, second.memory⟩ := by
  induction activity generalizing memory with
  | done value => simp [bind, run]
  | idle next ih => simp [bind, run, ih, Nat.add_right_comm]
  | read purpose addr next ih => simp [bind, run, ih, Nat.add_right_comm]
  | write purpose addr value next ih => simp [bind, run, ih, Nat.add_right_comm]

end Activity

end Emu816
