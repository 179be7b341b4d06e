import Emu816.Proofs.Effects
import Emu816.Proofs.Host
import Emu816.Proofs.Relations
import Emu816.Proofs.Steps

/-!
# The mode rules

In emulation mode the stack pointer lies in page 1, and while the index width bit is set the index registers fit a byte
(`Registers.WellModed`). Every register write, host call, reset and step keeps the rules, so they hold in every run
(`mode_rules_of_play`); on the way into emulation mode both width bits get set, and in emulation mode every byte that a
step pushes or pulls lies in page 1.

Most changes of the registers also leave the emulation mode alone (`SameMode`); only the exchange of carry and mode
does not, and it goes on its own (`exchangeEmulation_widths`).
-/

namespace Emu816

namespace Registers

/-- The mode rules of the register file. -/
structure WellModed (r : Registers) : Prop where
  stack_page : r.emulation = true → 0x0100 ≤ r.s ∧ r.s ≤ 0x01FF
  narrow_index : r.p &&& Status.narrowIndex ≠ 0 → r.x ≤ 0x00FF ∧ r.y ≤ 0x00FF

/-- The registers after power on. -/
theorem wellModed_default : ({} : Registers).WellModed := ⟨by decide, by decide⟩

theorem indexWidth_of_narrow {r : Registers} (h : r.p &&& Status.narrowIndex ≠ 0) : r.indexWidth = .byte := by
  simp [indexWidth, Width.ofNarrow, h]

/-- Under the mode rules the index registers lie within their width. -/
theorem WellModed.and_mask {r : Registers} (h : r.WellModed) :
    r.x &&& r.indexWidth.mask = r.x ∧ r.y &&& r.indexWidth.mask = r.y := by
  by_cases hnarrow : r.p &&& Status.narrowIndex = 0
  · have hwidth : r.indexWidth = .word := by simp [indexWidth, Width.ofNarrow, hnarrow]
    simp only [hwidth, Width.and_word_mask, and_self]
  · obtain ⟨hx, hy⟩ := h.narrow_index hnarrow
    rw [indexWidth_of_narrow hnarrow]
    exact ⟨and_lowByte_of_le hx, and_lowByte_of_le hy⟩

/-! ## Writes to the registers -/

/-- The emulation mode is left alone, and the mode rules are kept. -/
def SameMode (r r' : Registers) : Prop := r'.emulation = r.emulation ∧ (r.WellModed → r'.WellModed)

theorem SameMode.refl (r : Registers) : SameMode r r := ⟨rfl, id⟩

theorem SameMode.trans {r r' r'' : Registers} (h : SameMode r r') (h' : SameMode r' r'') : SameMode r r'' :=
  ⟨h'.1.trans h.1, h'.2 ∘ h.2⟩

variable (r : Registers)

/-- A status write settles the index registers, whatever they were. -/
theorem setP_narrow_index (value : UInt8) (h : (r.setP value).p &&& Status.narrowIndex ≠ 0) :
    (r.setP value).x ≤ 0x00FF ∧ (r.setP value).y ≤ 0x00FF := by
  unfold setP at h ⊢
  split at h
  · rename_i hclear
    simp_all
  · rename_i hset
    rw [if_neg hset]
    exact ⟨and_lowByte_le _, and_lowByte_le _⟩

/-- A write to the stack pointer settles it, whatever it was. -/
theorem setS_stack_page (value : UInt16) (h : (r.setS value).emulation = true) :
    0x0100 ≤ (r.setS value).s ∧ (r.setS value).s ≤ 0x01FF := by
  have hmode : r.emulation = true := h
  simp only [setS, hmode, if_true]
  exact stackPage_bounds value

theorem sameMode_setP (value : UInt8) : SameMode r (r.setP value) :=
  ⟨setP_emulation r value, fun h => ⟨by simpa using h.stack_page, setP_narrow_index r value⟩⟩

theorem sameMode_setFlag (mask : UInt8) (enabled : Bool) : SameMode r (r.setFlag mask enabled) := sameMode_setP r _

theorem sameMode_restoreP (value : UInt8) : SameMode r (r.restoreP value) := sameMode_setP r _

theorem sameMode_setS (value : UInt16) : SameMode r (r.setS value) :=
  ⟨rfl, fun h => ⟨setS_stack_page r value, h.narrow_index⟩⟩

theorem sameMode_setX (value : UInt16) : SameMode r (r.setX value) := by
  refine ⟨rfl, fun h => ⟨h.stack_page, fun hnarrow => ⟨?_, (h.narrow_index hnarrow).2⟩⟩⟩
  rw [setX, indexWidth_of_narrow (r := r) hnarrow]
  exact and_lowByte_le value

theorem sameMode_setY (value : UInt16) : SameMode r (r.setY value) := by
  refine ⟨rfl, fun h => ⟨h.stack_page, fun hnarrow => ⟨(h.narrow_index hnarrow).1, ?_⟩⟩⟩
  rw [setY, indexWidth_of_narrow (r := r) hnarrow]
  exact and_lowByte_le value

theorem sameMode_setA (value : UInt16) : SameMode r (r.setA value) := ⟨rfl, fun h => ⟨h.1, h.2⟩⟩

theorem sameMode_setD (value : UInt16) : SameMode r (r.setD value) := ⟨rfl, fun h => ⟨h.1, h.2⟩⟩

theorem sameMode_setPc (value : UInt16) : SameMode r (r.setPc value) := ⟨rfl, fun h => ⟨h.1, h.2⟩⟩

theorem sameMode_setPbr (value : UInt8) : SameMode r (r.setPbr value) := ⟨rfl, fun h => ⟨h.1, h.2⟩⟩

theorem sameMode_setDbr (value : UInt8) : SameMode r (r.setDbr value) := ⟨rfl, fun h => ⟨h.1, h.2⟩⟩

theorem sameMode_setAccumulator (value : UInt16) : SameMode r (r.setAccumulator value) := by
  unfold setAccumulator
  split
  · exact ⟨rfl, fun h => ⟨h.1, h.2⟩⟩
  · exact ⟨rfl, fun h => ⟨h.1, h.2⟩⟩

/-- Entering or leaving emulation mode keeps the rules. -/
theorem WellModed.setEmulation {r : Registers} (h : r.WellModed) (enabled : Bool) :
    (r.setEmulation enabled).WellModed := by
  cases enabled with
  | false => exact ⟨nofun, h.narrow_index⟩
  | true =>
    refine ⟨setS_stack_page _ _, ?_⟩
    cases hmode : r.emulation with
    | true => simpa [Registers.setEmulation, hmode] using h.narrow_index
    | false =>
      simpa [Registers.setEmulation, hmode] using setP_narrow_index { r with emulation := true } (r.p ||| Status.widths)

/-- Entering emulation mode sets both width bits. -/
theorem setEmulation_widths (h : r.emulation = false) (enabled : Bool)
    (henter : (r.setEmulation enabled).emulation = true) : (r.setEmulation enabled).flag Status.widths = true := by
  cases enabled with
  | false => exact absurd henter (by simp [setEmulation])
  | true =>
    have hp : (r.setEmulation true).p = r.p ||| Status.widths := by simp [setEmulation, h, setS]
    rw [flag, hp, beq_iff_eq]
    exact or_and_right_self _ _

/-! ## Effects of instructions -/

/-- Writes to single registers and result bits leave the mode alone. -/
theorem sameMode_tolerant : Tolerant SameMode where
  refl := SameMode.refl
  trans := SameMode.trans
  setA := sameMode_setA
  setX := sameMode_setX
  setY := sameMode_setY
  setS := sameMode_setS
  setD := sameMode_setD
  setDbr := sameMode_setDbr
  setFlag r mask enabled _ := sameMode_setFlag r mask enabled

/-- The exchange of carry and mode keeps the rules. -/
theorem WellModed.exchangeEmulation {r : Registers} (h : r.WellModed) : r.exchangeEmulation.WellModed :=
  ((sameMode_setFlag r _ _).2 h).setEmulation _

/-- An exchange of carry and mode that enters emulation mode sets both width bits. -/
theorem exchangeEmulation_widths (h : r.emulation = false) (henter : r.exchangeEmulation.emulation = true) :
    r.exchangeEmulation.flag Status.widths = true :=
  setEmulation_widths _ ((sameMode_setFlag r _ _).1.trans h) _ henter

end Registers

/-! ## Operations -/

/-- Whether an address lies in page 1. -/
def InStackPage (addr : UInt32) : Prop := 0x0100 ≤ addr ∧ addr ≤ 0x01FF

theorem inStackPage_toUInt32 {s : UInt16} (h : 0x0100 ≤ s ∧ s ≤ 0x01FF) : InStackPage s.toUInt32 := by
  simp only [UInt16.le_iff_toNat_le, InStackPage, UInt32.le_iff_toNat_le, UInt16.toNat_toUInt32] at h ⊢
  exact h

/-- Bytes pushed and pulled lie in page 1. -/
def StackInPage (log : List Cycle) : Prop := ∀ t ∈ transfers log, t.purpose = .stack → InStackPage t.addr

/-- The relation of registers under the mode rules: the mode stays, the rules are kept, and in emulation mode the stack
stays in page 1. -/
def KeepsMode : Relation := fun r log r' =>
  Registers.SameMode r r' ∧ (r.WellModed → r.emulation = true → StackInPage log)

/-- Without a cycle, the relation is that of the registers. -/
theorem keepsMode_admits {f : Registers → Registers} (h : ∀ r, Registers.SameMode r (f r)) : KeepsMode.Admits f :=
  fun r => ⟨h r, fun _ _ _ ht => absurd ht List.not_mem_nil⟩

theorem keepsMode_basic : KeepsMode.Basic where
  refl r := keepsMode_admits Registers.SameMode.refl r
  trans := by
    intro r r' r'' first second hfirst hsecond
    refine ⟨hfirst.1.trans hsecond.1, fun h hmode t ht => ?_⟩
    rw [transfers_append, List.mem_append] at ht
    rcases ht with ht | ht
    · exact hfirst.2 h hmode t ht
    · exact hsecond.2 (hfirst.1.2 h) (hfirst.1.1.trans hmode) t ht
  idle r := ⟨Registers.SameMode.refl r, fun _ _ _ ht => absurd ht List.not_mem_nil⟩
  transfer r t hpurpose := by
    refine ⟨Registers.SameMode.refl r, fun _ _ t' ht hstack => ?_⟩
    rw [transfers_transfer, transfers_nil, List.mem_singleton] at ht
    exact absurd (ht ▸ hstack) hpurpose
  setPc r pc := keepsMode_admits (fun r => Registers.sameMode_setPc r pc) r

theorem keepsMode_stacks : KeepsMode.Stacks where
  push r byte := by
    refine ⟨Registers.sameMode_setS r _, fun h hmode t ht _ => ?_⟩
    rw [transfers_transfer, transfers_nil, List.mem_singleton] at ht
    subst ht
    exact inStackPage_toUInt32 (h.stack_page hmode)
  pull r byte := by
    refine ⟨Registers.sameMode_setS r _, fun h hmode t ht _ => ?_⟩
    rw [transfers_transfer, transfers_nil, List.mem_singleton] at ht
    subst ht
    exact inStackPage_toUInt32 (Registers.setS_stack_page r _ hmode)

open Registers in
/-- The function of every instruction but the exchange of carry and mode keeps the rules and the mode. -/
theorem effects_sameMode (instruction : Instruction) (h : instruction.mnemonic ≠ .xce) :
    instruction.operation.Effects SameMode := by
  cases hstatus : instruction.mnemonic.writesStatus with
  | false => exact effects_operation sameMode_tolerant instruction hstatus
  | true =>
    obtain ⟨mnemonic, mode⟩ := instruction
    cases mnemonic with
    | rep | sep => exact fun r _ => sameMode_setP r _
    | plp => exact fun r _ => sameMode_restoreP r _
    | xce => exact absurd rfl h
    | _ => cases hstatus

open Registers in
/-- An operation whose function keeps the rules and the mode does so as a whole. -/
theorem respects_keepsMode {operation : Operation} (h : operation.Effects SameMode) :
    operation.Respects KeepsMode := by
  have hflag (mask : UInt8) (enabled : Bool) : KeepsMode.Admits (·.setFlag mask enabled) :=
    keepsMode_admits fun r => sameMode_setFlag r mask enabled
  have hbank (bank : UInt8) : KeepsMode.Admits (·.setPbr bank) := keepsMode_admits fun r => sameMode_setPbr r bank
  cases operation with
  | load group effect => exact fun value => keepsMode_admits fun r => h r value
  | modify effect =>
    exact ⟨fun value => keepsMode_admits fun r => h r value,
      fun _ => keepsMode_admits fun r => sameMode_setAccumulator r _⟩
  | internal cycles effect => exact keepsMode_admits h
  | maskStatus effect => exact fun mask => keepsMode_admits fun r => h r mask
  | pull width effect => exact ⟨keepsMode_stacks, fun value => keepsMode_admits fun r => h r value⟩
  | jumpLong | jumpLongIndirect => exact hbank
  | callLong | retLong => exact ⟨keepsMode_stacks, hbank⟩
  | retInterrupt => exact ⟨keepsMode_stacks, fun _ => keepsMode_admits fun r => sameMode_restoreP r _, hbank⟩
  | interrupt source => exact ⟨keepsMode_stacks, hflag _ _, hflag _ _, hbank 0⟩
  | blockMove stride =>
    exact ⟨fun _ => keepsMode_admits fun r => sameMode_setDbr r _, fun _ => keepsMode_admits fun r => sameMode_setX r _,
      fun _ => keepsMode_admits fun r => sameMode_setY r _, fun _ => keepsMode_admits fun r => sameMode_setA r _⟩
  | push _ _ | pushConstant | pushIndirect | pushRelative | call | callIndexed | ret => exact keepsMode_stacks
  | store _ _ | branch _ | branchLong | jump | jumpIndirect | jumpIndexed | skip | rest _ => exact trivial

/-! ## Steps -/

/-- What the mode rules say of a step: it keeps them, it sets both width bits on the way into emulation mode, and in
emulation mode it goes to page 1 for the stack. -/
def StepRules : Relation := fun r log r' =>
  r.WellModed → r'.WellModed ∧
    (r.emulation = false → r'.emulation = true → r'.flag Status.widths = true) ∧
    (r.emulation = true → StackInPage log)

theorem KeepsMode.stepRules {r r' : Registers} {log : List Cycle} (h : KeepsMode r log r') : StepRules r log r' :=
  fun hr => ⟨h.1.2 hr, fun hout hin => absurd (hin.symm.trans (h.1.1.trans hout)) (by decide), h.2 hr⟩

theorem ensures_instruction_stepRules (r : Registers) :
    Cpu.instruction.Ensures r fun log _ r' => StepRules r log r' := by
  rw [Cpu.ensures_instruction]
  intro opcode
  have hfetch : KeepsMode r [.read .code r.programAddress opcode] (r.setPc (r.pc + 1)) :=
    keepsMode_basic.trans (keepsMode_basic.transfer r ⟨.read, .code, r.programAddress, opcode⟩ nofun)
      (keepsMode_basic.setPc r _)
  by_cases hxce : (Instruction.decode opcode).mnemonic = .xce
  · -- the one instruction that may change the mode: no stack, and the effect decides alone
    have hop : (Instruction.decode opcode).operation = .internal 1 Registers.exchangeEmulation := by
      simp [Instruction.operation, hxce]
    rw [hop]
    simp only [Microcode.ofOperation, Microcode.ensures_bind, Microcode.ensures_idles, Microcode.ensures_modify]
    refine fun hr => ⟨(hfetch.1.2 hr).exchangeEmulation,
      Registers.exchangeEmulation_widths (r.setPc (r.pc + 1)), fun _ t ht hstack => ?_⟩
    simp at ht
    subst ht
    cases hstack
  · exact (Microcode.follows_ofOperation keepsMode_basic (respects_keepsMode (effects_sameMode _ hxce)) _ _).mono
      fun _ _ _ h => by simpa using (keepsMode_basic.trans hfetch h).stepRules

theorem ensures_activity_stepRules (cpu : Cpu) :
    cpu.activity.Ensures fun log result => StepRules cpu.regs log result.2.1 := by
  rw [Cpu.ensures_activity]
  split
  · exact (keepsMode_basic.idle _).stepRules
  · exact (keepsMode_basic.idle _).stepRules
  · rename_i kind _
    have henter := Microcode.follows_enterHardware keepsMode_basic keepsMode_stacks
      (keepsMode_admits fun r => Registers.sameMode_setFlag r _ _)
      (keepsMode_admits fun r => Registers.sameMode_setFlag r _ _)
      (keepsMode_admits fun r => Registers.sameMode_setPbr r _) kind cpu.regs
    exact henter.mono fun _ _ _ h => h.stepRules
  · exact ensures_instruction_stepRules cpu.regs

/-! ## Runs -/

theorem RegisterWrite.apply_stepRules (write : RegisterWrite) (r : Registers) : StepRules r [] (write.apply r) := by
  have hsame {r' : Registers} (h : Registers.SameMode r r') : StepRules r [] r' :=
    KeepsMode.stepRules ⟨h, fun _ _ _ ht => absurd ht List.not_mem_nil⟩
  cases write with
  | a value => exact hsame (Registers.sameMode_setA r value)
  | x value => exact hsame (Registers.sameMode_setX r value)
  | y value => exact hsame (Registers.sameMode_setY r value)
  | s value => exact hsame (Registers.sameMode_setS r value)
  | d value => exact hsame (Registers.sameMode_setD r value)
  | pc value => exact hsame (Registers.sameMode_setPc r value)
  | pbr value => exact hsame (Registers.sameMode_setPbr r value)
  | dbr value => exact hsame (Registers.sameMode_setDbr r value)
  | p value => exact hsame (Registers.sameMode_setP r value)
  | pulledStatus value => exact hsame (Registers.sameMode_restoreP r value)
  | flag mask enabled => exact hsame (Registers.sameMode_setFlag r mask enabled)
  | emulation enabled =>
    exact fun hr => ⟨hr.setEmulation enabled, fun hout => Registers.setEmulation_widths r hout enabled,
      fun _ _ ht => absurd ht List.not_mem_nil⟩
  | accumulator value => exact hsame (Registers.sameMode_setAccumulator r value)

theorem HostCall.apply_stepRules (call : HostCall) (cpu : Cpu) : StepRules cpu.regs [] (call.apply cpu).regs := by
  have hrefl := (keepsMode_basic.refl cpu.regs).stepRules
  cases call with
  | raiseNmi => exact hrefl
  | setNmiPending pending => exact hrefl
  | setIrqLine asserted => exact hrefl
  | write w => exact w.apply_stepRules cpu.regs
  | setFlag mask enabled => exact (RegisterWrite.flag mask enabled).apply_stepRules cpu.regs
  | updateZero value group => exact (RegisterWrite.flag _ _).apply_stepRules cpu.regs
  | updateNegative value group => exact (RegisterWrite.flag _ _).apply_stepRules cpu.regs

variable {μ : Type} [Memory μ]

/-- Every action keeps the mode rules and sets both width bits on the way into emulation mode. -/
theorem Action.apply_rules (action : Action μ) (state : Cpu × μ) (h : state.1.regs.WellModed) :
    (action.apply state).1.regs.WellModed ∧
      (state.1.regs.emulation = false → (action.apply state).1.regs.emulation = true →
        (action.apply state).1.regs.flag Status.widths = true) := by
  cases action with
  | call c => exact ⟨(c.apply_stepRules _ h).1, (c.apply_stepRules _ h).2.1⟩
  | memory change => exact ⟨h, fun hout hin => absurd (hin.symm.trans hout) (by decide)⟩
  | reset =>
    have hwidths : ({} : Registers).flag Status.widths = true := by decide
    exact ⟨(Registers.sameMode_setPc {} _).2 Registers.wellModed_default, fun _ _ => hwidths⟩
  | step =>
    have hstep := (ensures_activity_stepRules state.1).log state.2 h
    exact ⟨hstep.1, hstep.2.1⟩

/-- **The mode rules hold in every run** from power on, and in its next action and step: emulation mode has the stack
pointer in page 1, a set index width bit has both index registers fit a byte, what enters emulation mode sets both
width bits, and a step in emulation mode pushes and pulls its bytes in page 1. -/
theorem mode_rules_of_play (fallback : UInt16) (memory : μ) (actions : List (Action μ)) :
    let state := play actions ({ resetFallback := fallback }, memory)
    let r := state.1.regs
    (r.emulation = true → 0x0100 ≤ r.s ∧ r.s ≤ 0x01FF) ∧
    (r.p &&& Status.narrowIndex ≠ 0 → r.x ≤ 0x00FF ∧ r.y ≤ 0x00FF) ∧
    (∀ action : Action μ, r.emulation = false → (action.apply state).1.regs.emulation = true →
      (action.apply state).1.regs.flag Status.widths = true) ∧
    (r.emulation = true → ∀ t ∈ state.1.transfers state.2, t.purpose = .stack → 0x0100 ≤ t.addr ∧ t.addr ≤ 0x01FF) := by
  intro state r
  have hr : r.WellModed := play_induction (P := fun state => state.1.regs.WellModed)
    (fun action state h => (action.apply_rules state h).1) actions Registers.wellModed_default
  refine ⟨hr.stack_page, hr.narrow_index, fun action => (action.apply_rules state hr).2, ?_⟩
  exact ((ensures_activity_stepRules state.1).log state.2 hr).2.2

end Emu816
