import Emu816.Proofs.LikeSteps
import Emu816.Proofs.Ram

/-!
# The hidden byte of the accumulator

While the accumulator is a byte wide, its high byte is kept but not shown. Processors that differ in it alone do the
same, step for step, until an instruction takes all 16 bits of the accumulator on purpose.

- `Likeness.lowByte`: registers that differ at most in the high byte of the accumulator.
- `HidesByte`: the steps that do not show it.
- `hidden_byte_unseen`: one step, and runs under a host.
-/

namespace Emu816

/-- Accumulators are alike if they have the same low byte; nothing else may differ. -/
def Likeness.lowByte : Likeness where
  bank := Eq
  accumulator a a' := a &&& 0x00FF = a' &&& 0x00FF
  near := Eq
  bank_refl _ := rfl
  accumulator_refl _ := rfl
  near_refl _ := rfl
  accumulator_byte _ value := by rw [and_lowByte_merge, and_lowByte_merge]
  near_ofBank h offset := congrArg (Address.ofBank · offset) h
  near_wrap_add h distance := congrArg (fun addr => Address.wrap (addr + distance)) h
  page_indexed h _ _ := by rw [h]

/-- The accumulator is a byte wide, and the step does not depend on what that hides. -/
def HidesByte {μ : Type} [Memory μ] (start : Cpu × μ) : Prop :=
  start.1.regs.flag Status.narrowMemory = true ∧ (eventAt start).usesHiddenByte start.1.regs = false

theorem Registers.accumulatorWidth_of_flag {r : Registers} (h : r.flag Status.narrowMemory = true) :
    r.accumulatorWidth = .byte := by
  rw [Registers.flag, beq_iff_eq] at h
  rw [Registers.accumulatorWidth, h]
  rfl

theorem StepEvent.Alike.eq {event event' : StepEvent} (h : event.Alike .lowByte event') : event = event' := by
  cases h with
  | executed h pc opcode => exact congrArg (StepEvent.executed · pc opcode) h
  | interrupt kind vector => rfl
  | waiting => rfl
  | stopped => rfl

/-- Transfers at equal addresses are equal. -/
theorem transfers_eq_of_near {log log' : List Transfer} (h : List.Forall₂ (Transfer.Near Eq) log log') :
    log = log' := by
  induction h with
  | nil => rfl
  | @cons t t' _ _ hnear _ ih =>
    obtain ⟨direction, purpose, addr, byte⟩ := t
    obtain ⟨rfl, rfl, rfl, rfl⟩ := hnear
    rw [ih]

section Steps

variable {μ : Type} [Memory μ] {cpu cpu' : Cpu} {memory : μ}

/-- A step that hides the byte finds the same in the registers. -/
theorem HidesByte.agree {start : Cpu × μ} (hhides : HidesByte start) {other : Cpu} (h : start.1.Alike .lowByte other) :
    (eventAt start).Agree .lowByte start.1.regs other.regs := by
  obtain ⟨hnarrow, hevent⟩ := hhides
  refine StepEvent.agree_of_alike h.regs ?_ (fun huses => ?_) fun _ => ⟨h.regs.pbr, h.regs.dbr⟩
  · rw [Registers.accumulator, Registers.accumulator, ← h.regs.accumulatorWidth,
      Registers.accumulatorWidth_of_flag hnarrow]
    exact h.regs.accumulator
  · rw [hevent] at huses
    cases huses

/-- The steps have the same outcome and go over the bus with the same bytes. -/
theorem Cpu.SameStep.outcome_eq (h : cpu.SameStep .lowByte cpu' memory) :
    (cpu.step memory).1 = (cpu'.step memory).1 ∧ cpu.transfers memory = cpu'.transfers memory := by
  refine ⟨?_, transfers_eq_of_near h.transfers⟩
  have hevent : (cpu.step memory).1.event = (cpu'.step memory).1.event := h.event.eq
  have hcycles := h.cycles
  generalize (cpu.step memory).1 = outcome at hevent hcycles ⊢
  generalize (cpu'.step memory).1 = outcome' at hevent hcycles ⊢
  cases outcome
  cases outcome'
  exact congrArg₂ Outcome.mk hevent hcycles

/-- What the steps of a run report, with the cycles that they took. -/
def outcomes (actions : List (Action μ)) (state : Cpu × μ) : List Outcome :=
  (stepStarts actions state).map fun start => (start.1.step start.2).1

/-- What goes over the bus in a run, step by step. -/
def traffic (actions : List (Action μ)) (state : Cpu × μ) : List (List Transfer) :=
  (stepStarts actions state).map fun start => start.1.transfers start.2

/-- Runs have the same outcomes and go over the bus with the same bytes if their steps do. -/
theorem outcomes_eq_of_sameStep {starts starts' : List (Cpu × μ)}
    (h : List.Forall₂ (fun start start' => start.2 = start'.2 ∧ start.1.SameStep .lowByte start'.1 start.2)
      starts starts') :
    (starts.map fun start => (start.1.step start.2).1) = (starts'.map fun start => (start.1.step start.2).1) ∧
      (starts.map fun start => start.1.transfers start.2) = (starts'.map fun start => start.1.transfers start.2) := by
  induction h with
  | nil => exact ⟨rfl, rfl⟩
  | cons hfirst _ ih =>
    obtain ⟨hmemory, hsame⟩ := hfirst
    obtain ⟨houtcome, htransfers⟩ := hsame.outcome_eq
    rw [List.map_cons, List.map_cons, List.map_cons, List.map_cons, houtcome, htransfers, ih.1, ih.2, hmemory]
    exact ⟨rfl, rfl⟩

end Steps

/-- **The hidden byte of the accumulator does not leak.** Processors that differ in it alone do a step that hides it
with the same outcome, the same transfers and the same effect on memory, and differ in it alone afterwards. So does any
run under a host in which every step hides it. -/
theorem hidden_byte_unseen {μ : Type} [Memory μ] {cpu cpu' : Cpu} (h : cpu.Alike .lowByte cpu') (memory : μ) :
    (HidesByte (cpu, memory) →
      (cpu.step memory).1 = (cpu'.step memory).1 ∧ cpu.transfers memory = cpu'.transfers memory ∧
        (cpu.step memory).2.2 = (cpu'.step memory).2.2 ∧
        (cpu.step memory).2.1.Alike .lowByte (cpu'.step memory).2.1) ∧
    ∀ actions : List (Action μ), (∀ start ∈ stepStarts actions (cpu, memory), HidesByte start) →
      outcomes actions (cpu, memory) = outcomes actions (cpu', memory) ∧
        traffic actions (cpu, memory) = traffic actions (cpu', memory) ∧
        (play actions (cpu, memory)).2 = (play actions (cpu', memory)).2 ∧
        (play actions (cpu, memory)).1.Alike .lowByte (play actions (cpu', memory)).1 := by
  have hμ : Activity.Indifferent Likeness.lowByte.near μ := Activity.indifferent_eq μ
  refine ⟨fun hhides => ?_, fun actions hhides => ?_⟩
  · have hsame := h.step hμ (hhides.agree h)
    obtain ⟨houtcome, htransfers⟩ := hsame.outcome_eq
    exact ⟨houtcome, htransfers, hsame.memory, hsame.after⟩
  · obtain ⟨hstarts, hafter, hmemory⟩ :=
      h.play hμ actions memory fun start hmem other hother => (hhides start hmem).agree hother
    obtain ⟨houtcomes, htraffic⟩ := outcomes_eq_of_sameStep hstarts
    exact ⟨houtcomes, htraffic, hmemory, hafter⟩

/-- The accumulator is pushed and added to before an interrupt. -/
theorem hidden_byte_unseen_push :
    let memory : FlatMemory := ⟨fun addr => if addr = 0 then 0x48 else if addr = 1 then 0x69 else 0x85⟩
    let cpu : Cpu := { regs := { a := 0x1234 } }
    let cpu' : Cpu := { regs := { a := 0xFF34 } }
    let actions : List (Action FlatMemory) := [.step, .step, .call .raiseNmi, .step]
    cpu.Alike .lowByte cpu' ∧ HidesByte (cpu, memory) ∧ (cpu.step memory).1 = (cpu'.step memory).1 ∧
      (∀ start ∈ stepStarts actions (cpu, memory), HidesByte start) ∧
      traffic actions (cpu, memory) = traffic actions (cpu', memory) := by
  intro memory cpu cpu' actions
  have hregs : Likeness.lowByte.Alike cpu.regs cpu'.regs := { Likeness.Alike.refl .lowByte cpu.regs with
    accumulator := show (0x1234 : UInt16) &&& 0x00FF = 0xFF34 &&& 0x00FF by decide }
  have halike : cpu.Alike .lowByte cpu' := ⟨hregs, rfl, rfl, rfl, rfl, rfl, rfl⟩
  have hstarts : ∀ start ∈ stepStarts actions (cpu, memory), HidesByte start := by
    simp only [actions, stepStarts, List.forall_mem_cons]
    refine ⟨⟨by decide, by decide⟩, ⟨by decide, by decide⟩, ⟨by decide, by decide⟩, nofun⟩
  obtain ⟨hstep, hrun⟩ := hidden_byte_unseen halike memory
  have hfirst : HidesByte (cpu, memory) := hstarts _ List.mem_cons_self
  exact ⟨halike, hfirst, (hstep hfirst).1, hstarts, (hrun actions hstarts).2.1⟩

end Emu816
