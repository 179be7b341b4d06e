import Emu816.Proofs.FrameCounts
import Mathlib.Order.Bounds.Basic

/-!
# Budgets

A run until a budget is spent takes the fewest steps that spend it, so a budget may be spent in parts.

- `Machine.afterSteps_add`, `Machine.starts_add`: steps after steps.
- `Machine.isLeast_stepsFor`: no fewer steps spend the budget.
- `Machine.stepsFor_add`: what remains of a budget after a part of it was spent lasts for the other steps.
- `Machine.runCycles_shortest`: the run of a budget, its counts and its parts.
-/

namespace Emu816.Machine

variable {σ τ : Type} [Observer σ] [TraceSink τ]

/-! ## Steps after steps -/

theorem afterSteps_add (first second : Nat) (machine : Machine σ τ) :
    afterSteps (first + second) machine = afterSteps second (afterSteps first machine) := by
  induction first generalizing machine with
  | zero => rw [Nat.zero_add, afterSteps]
  | succ first ih => rw [Nat.add_right_comm, afterSteps, ih, afterSteps]

theorem starts_add (first second : Nat) (machine : Machine σ τ) :
    starts (first + second) machine = starts first machine ++ starts second (afterSteps first machine) := by
  induction first generalizing machine with
  | zero => rw [Nat.zero_add, starts, List.nil_append, afterSteps]
  | succ first ih => rw [Nat.add_right_comm, starts, ih, starts, List.cons_append, afterSteps]

/-- More steps take more cycles. -/
theorem cyclesOf_starts_mono {fewer steps : Nat} (h : fewer ≤ steps) (machine : Machine σ τ) :
    cyclesOf (starts fewer machine) ≤ cyclesOf (starts steps machine) := by
  obtain ⟨more, rfl⟩ := Nat.exists_eq_add_of_le h
  rw [starts_add, cyclesOf_append]
  exact Nat.le_add_right _ _

/-! ## The steps of a budget -/

theorem stepsFor_zero (machine : Machine σ τ) : machine.stepsFor 0 = 0 := by rw [stepsFor, if_pos rfl]

theorem stepsFor_of_ne_zero (machine : Machine σ τ) {budget : Nat} (h : budget ≠ 0) :
    machine.stepsFor budget = machine.step.2.stepsFor (budget - machine.step.1.cycles) + 1 := by
  rw [stepsFor, if_neg h]

/-- Before its last step a run has not spent its budget. -/
theorem cyclesOf_starts_lt {machine : Machine σ τ} {fewer budget : Nat} (h : fewer < machine.stepsFor budget) :
    cyclesOf (starts fewer machine) < budget := by
  induction fewer generalizing machine budget with
  | zero =>
    refine Nat.pos_of_ne_zero fun hbudget => ?_
    rw [hbudget, stepsFor_zero] at h
    cases h
  | succ fewer ih =>
    have hbudget : budget ≠ 0 := by
      rintro rfl
      rw [stepsFor_zero] at h
      cases h
    rw [stepsFor_of_ne_zero machine hbudget] at h
    have hrest := ih (Nat.lt_of_succ_lt_succ h)
    rw [starts, cyclesOf_cons]
    omega

/-- **No fewer steps spend the budget** than a run of it takes. -/
theorem isLeast_stepsFor (machine : Machine σ τ) (budget : Nat) :
    IsLeast {steps | budget ≤ cyclesOf (starts steps machine)} (machine.stepsFor budget) := by
  refine ⟨(cyclesOf_runStarts machine budget).1, fun steps hspent => ?_⟩
  by_contra hfewer
  exact absurd (cyclesOf_starts_lt (Nat.lt_of_not_le hfewer)) (Nat.not_lt_of_le hspent)

/-- A step takes a cycle at least, so a budget has no more steps than cycles. -/
theorem stepsFor_le (machine : Machine σ τ) (budget : Nat) : machine.stepsFor budget ≤ budget := by
  refine (isLeast_stepsFor machine budget).2 ?_
  calc budget = (starts budget machine).length := (length_starts budget machine).symm
    _ ≤ cyclesOf (starts budget machine) := length_le_cyclesOf _

/-- What remains of a budget after a part of it was spent lasts for the steps that remain. -/
theorem stepsFor_add (machine : Machine σ τ) {part budget : Nat} (h : part ≤ budget) :
    machine.stepsFor budget =
      machine.stepsFor part +
        (afterSteps (machine.stepsFor part) machine).stepsFor (budget - cyclesOf (machine.runStarts part)) := by
  induction machine, part using stepsFor.induct generalizing budget with
  | case1 machine => rw [runStarts_zero, stepsFor_zero, Nat.zero_add, afterSteps, cyclesOf_nil, Nat.sub_zero]
  | case2 machine part hpart ih =>
    have hbudget : budget ≠ 0 := by omega
    have hrest : part - machine.step.1.cycles ≤ budget - machine.step.1.cycles := Nat.sub_le_sub_right h _
    rw [stepsFor_of_ne_zero machine hbudget, stepsFor_of_ne_zero machine hpart, runStarts_of_ne_zero machine hpart,
      cyclesOf_cons, Nat.sub_add_eq, afterSteps, ih hrest]
    omega

/-! ## Runs -/

/-- A run is counted by its steps and its cycles. -/
theorem runCycles_eq (machine : Machine σ τ) (budget : Nat) :
    machine.runCycles budget =
      (⟨min (machine.stepsFor budget) RunOutcome.maxSteps, cyclesOf (machine.runStarts budget)⟩,
        afterSteps (machine.stepsFor budget) machine) := by
  have hlength : (machine.runStarts budget).length = machine.stepsFor budget := length_starts _ machine
  rw [runCycles, runRemaining_eq, passing_eq _ (Nat.zero_le _), hlength, Nat.zero_add, Nat.zero_add]

/-- A budget that is spent in two parts is spent by the same steps. -/
theorem runCycles_add (machine : Machine σ τ) {part budget : Nat} (h : part ≤ budget) :
    let first := machine.runCycles part
    let second := first.2.runCycles (budget - first.1.cycles)
    second.2 = (machine.runCycles budget).2 ∧ first.1.add second.1 = (machine.runCycles budget).1 := by
  intro first second
  have hsteps := stepsFor_add machine h
  have hcycles : cyclesOf (machine.runStarts budget) = cyclesOf (machine.runStarts part) +
      cyclesOf ((afterSteps (machine.stepsFor part) machine).runStarts
        (budget - cyclesOf (machine.runStarts part))) := by
    rw [runStarts, hsteps, starts_add, cyclesOf_append]
    rfl
  simp only [first, second, runCycles_eq]
  refine ⟨?_, ?_⟩
  · rw [hsteps, afterSteps_add]
  · rw [hcycles, hsteps]
    simp only [RunOutcome.add, RunOutcome.mk.injEq, and_true]
    omega

/-- **A run takes the shortest way through its budget.** It ends where the fewest steps lead whose cycles make up the
budget, and reports their number, as far as steps are counted, and their cycles. There are no more steps than cycles in
the budget, and the cycles go beyond it by eight at most. A budget may be spent in two parts: the second run takes what
the first one left. While the budget and the total of the processor have room in 64 bits, so has every count on the
way. -/
theorem runCycles_shortest (machine : Machine σ τ) (budget : Nat) :
    let run := machine.runCycles budget
    (∃ steps, IsLeast {steps | budget ≤ cyclesOf (starts steps machine)} steps ∧
      run = (⟨min steps 0xFFFFFFFF, cyclesOf (starts steps machine)⟩, afterSteps steps machine) ∧
      steps ≤ budget ∧
      (budget + 8 < 0x10000000000000000 → machine.cpu.cycles + budget + 8 < 0x10000000000000000 → ∀ done ≤ steps,
        cyclesOf (starts done machine) < 0x10000000000000000 ∧
        (afterSteps done machine).cpu.cycles < 0x10000000000000000)) ∧
    (budget = 0 → run.1.cycles = 0) ∧
    budget ≤ run.1.cycles ∧ run.1.cycles ≤ budget + 8 ∧
    run.2.cpu.cycles = machine.cpu.cycles + run.1.cycles ∧
    ∀ part ≤ budget,
      let first := machine.runCycles part
      let second := first.2.runCycles (budget - first.1.cycles)
      second.2 = run.2 ∧ first.1.add second.1 = run.1 := by
  intro run
  have hrun : run = _ := runCycles_eq machine budget
  obtain ⟨hleast, hmost⟩ := cyclesOf_runStarts machine budget
  have htotal : run.2.cpu.cycles = machine.cpu.cycles + run.1.cycles := by
    rw [hrun]
    exact cycles_afterSteps _ machine
  refine ⟨⟨machine.stepsFor budget, isLeast_stepsFor machine budget, hrun, stepsFor_le machine budget, ?_⟩, ?_, ?_, ?_,
    htotal, fun part hpart => runCycles_add machine hpart⟩
  · intro hbudget hcpu done hdone
    have hdoneCycles : cyclesOf (starts done machine) ≤ cyclesOf (machine.runStarts budget) :=
      cyclesOf_starts_mono hdone machine
    rw [cycles_afterSteps]
    omega
  · rintro rfl
    rw [hrun, runStarts_zero, cyclesOf_nil]
  · rw [hrun]
    exact hleast
  · rw [hrun]
    exact hmost

/-- A break and an instruction beyond the image, spent in one run and in two. -/
theorem runCycles_shortest_parts :
    let machine : Machine Runner.Console Tally :=
      { cpu := {}, bus := { host := ⟨false, ""⟩ }, config := {}, sink := none }
    let first := machine.runCycles 3
    let second := first.2.runCycles (10 - first.1.cycles)
    3 ≤ 10 ∧ machine.cpu.cycles + 10 + 8 < 0x10000000000000000 ∧ (machine.runCycles 10).1 = ⟨2, 12⟩ ∧
      second.2 = (machine.runCycles 10).2 ∧ (machine.runCycles 10).2.cpu.cycles < 0x10000000000000000 := by
  intro machine first second
  obtain ⟨⟨steps, hleast, hrun, -, hroom⟩, -, -, -, -, hparts⟩ := runCycles_shortest machine 10
  have hone : cyclesOf (starts 1 machine) = 7 := by decide +kernel
  have htwo : cyclesOf (starts 2 machine) = 12 := by decide +kernel
  have hsteps : steps = 2 := by
    have hspent : 10 ≤ cyclesOf (starts steps machine) := hleast.1
    have hmost : steps ≤ 2 := hleast.2 (show 10 ≤ cyclesOf (starts 2 machine) by omega)
    by_contra hfewer
    have hmono := cyclesOf_starts_mono (show steps ≤ 1 by omega) machine
    omega
  subst hsteps
  have hlimits := hroom (by decide) (by decide) 2 (Nat.le_refl 2)
  refine ⟨by decide, by decide, ?_, (hparts 3 (by decide)).1, ?_⟩
  · rw [hrun, htwo]
    rfl
  · rw [hrun]
    exact hlimits.2

end Emu816.Machine
