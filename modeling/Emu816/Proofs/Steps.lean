import Emu816.Cpu.Step
import Emu816.Proofs.Routines

/-!
# Courses of steps

- `Cpu.log`, `Cpu.transfers`: the cycles of the next step on a memory.
- `ensures_activity`: what a step does, by its task; `ensures_instruction`: an instruction is its opcode and then the
  cycles of its operation.
- `step_of_executed`: a step that executes an instruction.
-/

namespace Emu816.Cpu

/-! ## On a memory -/

section Log

variable {μ : Type} [Memory μ]

/-- The cycles of the next step. -/
def log (cpu : Cpu) (memory : μ) : List Cycle := cpu.activity.log memory

/-- What goes over the bus in the next step. -/
def transfers (cpu : Cpu) (memory : μ) : List Transfer := Emu816.transfers (cpu.log memory)

theorem step_cycles (cpu : Cpu) (memory : μ) : (cpu.step memory).1.cycles = (cpu.log memory).length :=
  (Activity.length_log _ _).symm

/-- What every course of the next step ensures, the step does. -/
theorem step_of_ensures {cpu : Cpu} {post : List Cycle → StepEvent × Registers × RunState → Prop}
    (h : cpu.activity.Ensures post) (memory : μ) :
    post (cpu.log memory)
      ((cpu.step memory).1.event, (cpu.step memory).2.1.regs, (cpu.step memory).2.1.runState) := h.log memory

/-- What goes over the bus in the next step is an exchange with the memory. -/
theorem exchange_step (cpu : Cpu) (memory : μ) : Exchange memory (cpu.transfers memory) (cpu.step memory).2.2 :=
  exchange_log cpu.activity memory

end Log

/-! ## On every memory -/

@[simp] theorem ensures_instruction {r : Registers} (post : List Cycle → UInt8 → Registers → Prop) :
    instruction.Ensures r post ↔ ∀ opcode,
      (Microcode.ofOperation (Instruction.decode opcode).mode (Instruction.decode opcode).operation).Ensures
        (r.setPc (r.pc + 1)) fun log _ r' => post (.read .code r.programAddress opcode :: log) opcode r' := by
  simp [instruction]

/-- What a step does, by its task. -/
theorem ensures_activity (cpu : Cpu) (post : List Cycle → StepEvent × Registers × RunState → Prop) :
    cpu.activity.Ensures post ↔
      match cpu.task with
      | .stop => post [.idle] (.stopped, cpu.regs, .stopped)
      | .wait => post [.idle] (.waiting, cpu.regs, .waiting)
      | .interrupt kind =>
        (Microcode.enterHardware kind).Ensures cpu.regs fun log _ regs =>
          post log (.interrupt kind (kind.vector cpu.regs.emulation), regs, .running)
      | .execute =>
        instruction.Ensures cpu.regs fun log opcode regs =>
          post log
            (.executed cpu.regs.pbr cpu.regs.pc opcode, regs, (Instruction.decode opcode).operation.runState) := by
  unfold activity
  cases cpu.task with
  | stop => exact Iff.rfl
  | wait => exact Iff.rfl
  | interrupt kind =>
    refine (Activity.ensures_bind _ _ _).trans ?_
    simp only [Activity.pure_eq_done, Activity.Ensures, List.append_nil]
    exact Iff.rfl
  | execute =>
    refine (Activity.ensures_bind _ _ _).trans ?_
    simp only [Activity.pure_eq_done, Activity.Ensures, List.append_nil]
    exact Iff.rfl

/-- **A step that executes an instruction** does so at the program counter, and it does what every course of the
instruction does from the opcode on. -/
theorem step_of_executed {cpu : Cpu} {μ : Type} [Memory μ] {memory : μ} {pbr : UInt8} {pc : UInt16} {opcode : UInt8}
    (hevent : (cpu.step memory).1.event = .executed pbr pc opcode) (post : List Cycle → Registers → Prop)
    (h : (Microcode.ofOperation (Instruction.decode opcode).mode (Instruction.decode opcode).operation).Ensures
      (cpu.regs.setPc (cpu.regs.pc + 1)) fun log _ r' => post (.read .code cpu.regs.programAddress opcode :: log) r') :
    pbr = cpu.regs.pbr ∧ pc = cpu.regs.pc ∧ post (cpu.log memory) (cpu.step memory).2.1.regs := by
  have hensures : cpu.activity.Ensures fun log result => ∀ pbr pc, result.1 = .executed pbr pc opcode →
      pbr = cpu.regs.pbr ∧ pc = cpu.regs.pc ∧ post log result.2.1 := by
    rw [ensures_activity]
    split
    · exact nofun
    · exact nofun
    · exact Microcode.ensures_of_forall fun _ _ _ => nofun
    · rw [ensures_instruction]
      intro fetched
      by_cases hfetched : fetched = opcode
      · subst hfetched
        refine h.mono ?_
        rintro log _ r' hpost _ _ ⟨⟩
        exact ⟨rfl, rfl, hpost⟩
      · exact Microcode.ensures_of_forall fun _ _ _ _ _ heq => absurd (StepEvent.executed.inj heq).2.2 hfetched
  exact step_of_ensures hensures memory pbr pc hevent

end Emu816.Cpu
