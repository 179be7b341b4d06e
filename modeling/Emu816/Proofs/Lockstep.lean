import Emu816.Proofs.Courses
import Mathlib.Data.List.Forall2

/-!
# Activities in lockstep

Two activities are in lockstep when they go through the same cycles whatever memory answers: they move the same bytes
for the same purposes, at addresses that are near to each other, and end in values that belong together. A memory that
treats near addresses alike then cannot tell them apart.

- `Activity.Lockstep`: the relation, put together by `Lockstep.bind`.
- `Indifferent`: memories that treat near addresses alike.
- `Activity.SameRun`: what runs of two activities have in common; `Lockstep.run`: activities in lockstep have it.
-/

namespace Emu816

/-- The transfers differ in their addresses alone, which are near to each other. -/
structure Transfer.Near (near : UInt32 → UInt32 → Prop) (t t' : Transfer) : Prop where
  direction : t.direction = t'.direction
  purpose : t.purpose = t'.purpose
  addr : near t.addr t'.addr
  byte : t.byte = t'.byte

namespace Activity

variable {α β γ δ μ : Type} {near : UInt32 → UInt32 → Prop}

/-- The activities go through the same cycles, at near addresses, and end in values in `post`. -/
inductive Lockstep (near : UInt32 → UInt32 → Prop) (post : α → β → Prop) : Activity α → Activity β → Prop
  | done {value : α} {value' : β} (hpost : post value value') : Lockstep near post (.done value) (.done value')
  | idle {next : Activity α} {next' : Activity β} (hnext : Lockstep near post next next') :
    Lockstep near post (.idle next) (.idle next')
  | read (purpose : Purpose) {addr addr' : UInt32} {next : UInt8 → Activity α} {next' : UInt8 → Activity β}
      (haddr : near addr addr') (hnext : ∀ byte, Lockstep near post (next byte) (next' byte)) :
    Lockstep near post (.read purpose addr next) (.read purpose addr' next')
  | write (purpose : Purpose) (byte : UInt8) {addr addr' : UInt32} {next : Activity α} {next' : Activity β}
      (haddr : near addr addr') (hnext : Lockstep near post next next') :
    Lockstep near post (.write purpose addr byte next) (.write purpose addr' byte next')

namespace Lockstep

variable {post : α → β → Prop} {activity : Activity α} {activity' : Activity β}

/-- Sequences are in lockstep if their parts are. -/
theorem bind {post' : γ → δ → Prop} {f : α → Activity γ} {f' : β → Activity δ}
    (h : Lockstep near post activity activity')
    (hf : ∀ value value', post value value' → Lockstep near post' (f value) (f' value')) :
    Lockstep near post' (activity.bind f) (activity'.bind f') := by
  induction h with
  | done hpost => exact hf _ _ hpost
  | idle _ ih => exact .idle ih
  | read purpose haddr _ ih => exact .read purpose haddr ih
  | write purpose byte haddr _ ih => exact .write purpose byte haddr ih

end Lockstep

/-! ## On a memory -/

/-- The memory treats near addresses alike. -/
def Indifferent (near : UInt32 → UInt32 → Prop) (μ : Type) [Memory μ] : Prop :=
  ∀ (memory : μ) (addr addr' : UInt32), near addr addr' →
    Memory.read memory addr = Memory.read memory addr' ∧
      ∀ byte, Memory.write memory addr byte = Memory.write memory addr' byte

theorem indifferent_eq (μ : Type) [Memory μ] : Indifferent Eq μ := by
  rintro memory addr _ rfl
  exact ⟨rfl, fun _ => rfl⟩

variable [Memory μ] {post : α → β → Prop} {activity : Activity α} {activity' : Activity β}

/-- On the memory, the activities end in values in `post`, take as many cycles, exchange the same bytes at near
addresses, and leave the memory the same. -/
structure SameRun (near : UInt32 → UInt32 → Prop) (post : α → β → Prop) (activity : Activity α)
    (activity' : Activity β) (memory : μ) : Prop where
  value : post (activity.run memory).value (activity'.run memory).value
  cycles : (activity.run memory).cycles = (activity'.run memory).cycles
  after : (activity.run memory).memory = (activity'.run memory).memory
  transfers : List.Forall₂ (Transfer.Near near) (transfers (activity.log memory)) (transfers (activity'.log memory))

namespace SameRun

variable {addr addr' : UInt32} {memory : μ}

theorem done {value : α} {value' : β} (hpost : post value value') (memory : μ) :
    SameRun near post (.done value) (.done value') memory := ⟨hpost, rfl, rfl, .nil⟩

theorem idle (h : SameRun near post activity activity' memory) :
    SameRun near post (.idle activity) (.idle activity') memory :=
  ⟨h.value, congrArg (· + 1) h.cycles, h.after, h.transfers⟩

/-- Both read the same byte from near addresses and go on with it. -/
theorem read (hμ : Indifferent near μ) (haddr : near addr addr') (purpose : Purpose) {next : UInt8 → Activity α}
    {next' : UInt8 → Activity β}
    (h : SameRun near post (next (Memory.read memory addr).1) (next' (Memory.read memory addr).1)
      (Memory.read memory addr).2) :
    SameRun near post (.read purpose addr next) (.read purpose addr' next') memory := by
  have hread := (hμ memory addr addr' haddr).1
  refine ⟨?_, ?_, ?_, ?_⟩
  · simpa only [Activity.run, hread] using h.value
  · simpa only [Activity.run, hread] using congrArg (· + 1) h.cycles
  · simpa only [Activity.run, hread] using h.after
  · simp only [Activity.log, transfers_transfer]
    exact .cons ⟨rfl, rfl, haddr, by rw [hread]⟩ (hread ▸ h.transfers)

theorem write (hμ : Indifferent near μ) (haddr : near addr addr') (purpose : Purpose) {byte : UInt8}
    (h : SameRun near post activity activity' (Memory.write memory addr byte)) :
    SameRun near post (.write purpose addr byte activity) (.write purpose addr' byte activity') memory := by
  have hwrite := (hμ memory addr addr' haddr).2 byte
  refine ⟨?_, ?_, ?_, ?_⟩
  · simpa only [Activity.run, hwrite] using h.value
  · simpa only [Activity.run, hwrite] using congrArg (· + 1) h.cycles
  · simpa only [Activity.run, hwrite] using h.after
  · simp only [Activity.log, transfers_transfer]
    exact .cons ⟨rfl, rfl, haddr, rfl⟩ (hwrite ▸ h.transfers)

end SameRun

/-- **Activities in lockstep cannot be told apart** by a memory that treats near addresses alike. -/
theorem Lockstep.run (h : Lockstep near post activity activity') (hμ : Indifferent near μ) (memory : μ) :
    SameRun near post activity activity' memory := by
  induction h generalizing memory with
  | done hpost => exact .done hpost memory
  | idle _ ih => exact (ih memory).idle
  | read purpose haddr _ ih => exact .read hμ haddr purpose (ih _ _)
  | write purpose byte haddr _ ih => exact .write hμ haddr purpose (ih _)

end Activity

end Emu816
