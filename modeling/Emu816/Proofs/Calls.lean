import Emu816.Proofs.RegisterSets
import Emu816.Proofs.WriteSets

/-!
# Calls and returns

A call leaves the address before the next instruction on the stack, whatever part of it has been fetched by then, and a
return goes on behind the address that it pulls. On RAM the two fit together, however much happens in between.

- `Mnemonic.callFrame`: the bytes that a call pushes.
- `resumed`, `ensures_returns`: a return, from the bytes that it pulls.
- `Sees.onStack_of_call`, `Sees.resumed_of_return`: what a call leaves on a memory, and what a return makes of it.
- `resumed_callFrame`: a return from the frame of a call goes on behind the call.
- `return_follows_call`: the same for two steps of processors on memories that agree on the frame.
-/

namespace Emu816

/-! ## Frames of calls -/

/-- The bytes that a call pushes, in order. A call of any bank begins with the program bank and is a byte longer. -/
def Mnemonic.callFrame (mnemonic : Mnemonic) (r : Registers) : List UInt8 :=
  match mnemonic with
  | .jsl => r.pbr :: (Width.word.split (r.pc + 3)).reverse
  | _ => (Width.word.split (r.pc + 2)).reverse

/-- Whether an instruction is a call. -/
def Mnemonic.calls : Mnemonic → Bool
  | .jsr | .jsl => true
  | _ => false

/-- The stack has room for a frame. -/
theorem length_callFrame_le (mnemonic : Mnemonic) (r : Registers) :
    (mnemonic.callFrame r).length ≤ stackSize r := by
  have hlength : (mnemonic.callFrame r).length ≤ 3 := by
    unfold Mnemonic.callFrame
    split
    · exact Nat.le_refl 3
    · exact Nat.le_succ 2
  have hsize : 0x100 ≤ stackSize r := by
    unfold stackSize
    split <;> decide
  omega

/-- Number of bytes that a return pulls. -/
def Mnemonic.pullSize : Mnemonic → Nat
  | .rts => 2
  | .rtl => 3
  | _ => 0

theorem writing_of_calls {instruction : Instruction} (h : instruction.mnemonic.calls = true) (r : Registers)
    (bytes : List UInt8) : instruction.writing r bytes = .push (instruction.mnemonic.callFrame r) := by
  obtain ⟨mnemonic, mode⟩ := instruction
  cases mnemonic with
  | jsr | jsl => rfl
  | _ => cases h

theorem scope_of_calls {instruction : Instruction} (h : instruction.mnemonic.calls = true) (r : Registers)
    (bytes : List UInt8) :
    .emulation ∉ (instruction.scope r bytes).registers ∧
      (instruction.mnemonic = .jsr → .pbr ∉ (instruction.scope r bytes).registers) := by
  obtain ⟨mnemonic, mode⟩ := instruction
  cases mnemonic with
  | jsr => simp [Instruction.scope]
  | jsl => simp [Instruction.scope]
  | _ => cases h

/-! ## Returns -/

/-- The registers after a return that pulled the bytes. -/
def resumed (r : Registers) (pulled : List UInt8) : Registers :=
  let back := (r.setS (r.s + UInt16.ofNat pulled.length)).setPc (wordOf pulled + 1)
  match pulled with
  | [_, _, bank] => back.setPbr bank
  | _ => back

theorem Microcode.ensures_ret (r : Registers) (mode : Mode) (post : List Cycle → Unit → Registers → Prop) :
    (ofOperation mode .ret).Ensures r post ↔ ∀ low high,
      post [.idle, .idle, .read .stack (r.setS (r.s + 1)).s.toUInt32 low,
          .read .stack (r.setS (r.s + 2)).s.toUInt32 high, .idle]
        () ((r.setS (r.s + 2)).setPc (Word.ofBytes low high + 1)) := by
  simp [ofOperation]

theorem Microcode.ensures_retLong (r : Registers) (mode : Mode) (post : List Cycle → Unit → Registers → Prop) :
    (ofOperation mode .retLong).Ensures r post ↔ ∀ low high bank,
      post [.idle, .idle, .read .stack (r.setS (r.s + 1)).s.toUInt32 low,
          .read .stack (r.setS (r.s + 2)).s.toUInt32 high, .read .stack (r.setS (r.s + 3)).s.toUInt32 bank]
        () (((r.setS (r.s + 3)).setPc (Word.ofBytes low high + 1)).setPbr bank) := by
  simp [ofOperation, UInt16.add_assoc]

/-- A return pulls its bytes and goes on behind the address in them. -/
theorem ensures_returns (r : Registers) (opcode : UInt8) (h : (Instruction.decode opcode).mnemonic.pullSize ≠ 0) :
    (Microcode.ofOperation (Instruction.decode opcode).mode (Instruction.decode opcode).operation).Ensures
      (r.setPc (r.pc + 1)) fun log _ r' => ∃ pulled, pulled.length = (Instruction.decode opcode).mnemonic.pullSize ∧
        ⟨.read, .code, r.programAddress, opcode⟩ :: transfers log =
          ⟨.read, .code, r.programAddress, opcode⟩ :: pulls r pulled ∧ r' = resumed r pulled := by
  generalize Instruction.decode opcode = instruction at h ⊢
  obtain ⟨mnemonic, mode⟩ := instruction
  cases mnemonic with
  | rts =>
    simp only [Instruction.operation, Microcode.ensures_ret]
    refine fun low high => ⟨[low, high], rfl, ?_, rfl⟩
    simp [pulls, UInt16.add_assoc]
  | rtl =>
    simp only [Instruction.operation, Microcode.ensures_retLong]
    refine fun low high bank => ⟨[low, high, bank], rfl, ?_, rfl⟩
    simp [pulls, UInt16.add_assoc]
  | _ => exact absurd rfl h

/-- A return from the frame of a call goes on behind the call, in its bank. -/
theorem resumed_callFrame {mnemonic : Mnemonic} (hcall : mnemonic.calls = true) {r later : Registers}
    (hmode : later.emulation = r.emulation) (hr : r.setS r.s = r)
    (hs : later.s = (r.setS (r.s - UInt16.ofNat (mnemonic.callFrame r).length)).s)
    (hbank : mnemonic = .jsr → later.pbr = r.pbr) :
    let back := resumed later (mnemonic.callFrame r).reverse
    back.pbr = r.pbr ∧ back.pc = r.pc + UInt16.ofNat ((mnemonic.callFrame r).length + 1) ∧ back.s = r.s := by
  have hback (n : UInt16) (hn : later.s = (r.setS (r.s - n)).s) : (later.setS (later.s + n)).s = r.s := by
    calc (later.setS (later.s + n)).s
        = (r.setS ((r.setS (r.s - n)).s + n)).s := by simp only [Registers.setS, hmode, hn]
      _ = r.s := by rw [Registers.setS_add, UInt16.sub_add_cancel, hr]
  cases mnemonic with
  | jsr =>
    refine ⟨hbank rfl, ?_, hback _ hs⟩
    have hpc : r.pc + 2 + 1 = r.pc + 3 := by grind
    simp [resumed, Mnemonic.callFrame, Width.split, wordOf, hpc]
  | jsl =>
    refine ⟨rfl, ?_, hback _ hs⟩
    have hpc : r.pc + 3 + 1 = r.pc + 4 := by grind
    simp [resumed, Mnemonic.callFrame, Width.split, wordOf, hpc, Registers.setPbr]
  | _ => cases hcall

/-! ## Two steps -/

section Memory

variable {μ : Type} [Memory μ]

/-- What the execution of a call does on a memory. -/
theorem step_call {cpu : Cpu} (hr : cpu.regs.WellModed) (memory : μ) {pbr : UInt8} {pc : UInt16} {opcode : UInt8}
    (hcall : (cpu.step memory).1.event = .executed pbr pc opcode)
    (hcalls : (Instruction.decode opcode).mnemonic.calls = true) :
    let frame := (Instruction.decode opcode).mnemonic.callFrame cpu.regs
    let called := (cpu.step memory).2.1.regs
    (cpu.transfers memory).filter (·.direction = .write) = pushes cpu.regs frame ∧
      called.s = (cpu.regs.setS (cpu.regs.s - UInt16.ofNat frame.length)).s ∧
      called.emulation = cpu.regs.emulation ∧
      ((Instruction.decode opcode).mnemonic = .jsr → called.pbr = cpu.regs.pbr) := by
  have hmade := (Cpu.step_of_ensures (ensures_activity_writes cpu hr) memory).executed pbr pc opcode hcall
  rw [writing_of_calls hcalls] at hmade
  obtain ⟨hwrites, hs⟩ := hmade
  obtain ⟨-, hcovers, -⟩ := Cpu.step_of_ensures (ensures_activity_changes cpu hr) memory pbr pc opcode hcall
  obtain ⟨hmode, hbank⟩ := scope_of_calls hcalls cpu.regs (answers (cpu.log memory)).tail
  exact ⟨hwrites.trans (pushes_eq hr.setS_s _).symm, hs, hcovers.emulation hmode, fun hjsr => hcovers.pbr (hbank hjsr)⟩

section Sees

variable {view : μ → UInt32 → UInt8} {cells kept : UInt32 → Prop}

/-- A return on a memory pulls the bytes that are known to lie on the stack. -/
theorem Sees.resumed_of_return (hsees : Sees view cells kept) {cpu : Cpu} {memory : μ}
    {contents : UInt32 → Option UInt8} (hknown : Known view cells memory contents) {bytes : List UInt8}
    (hstack : OnStack contents cpu.regs bytes) {pbr : UInt8} {pc : UInt16} {opcode : UInt8}
    (hreturn : (cpu.step memory).1.event = .executed pbr pc opcode)
    (hpulls : (Instruction.decode opcode).mnemonic.pullSize ≠ 0)
    (hsize : bytes.length = (Instruction.decode opcode).mnemonic.pullSize) :
    (cpu.step memory).2.1.regs = resumed cpu.regs bytes := by
  let post (log : List Cycle) (r' : Registers) : Prop := ∃ pulled,
    pulled.length = (Instruction.decode opcode).mnemonic.pullSize ∧
      transfers log = ⟨.read, .code, cpu.regs.programAddress, opcode⟩ :: pulls cpu.regs pulled ∧
      r' = resumed cpu.regs pulled
  obtain ⟨-, -, pulled, hlength, hlog, hregs⟩ :=
    Cpu.step_of_executed hreturn post (ensures_returns cpu.regs opcode hpulls)
  have hexchange := cpu.exchange_step memory
  rw [Cpu.transfers, hlog] at hexchange
  have hwrites : ∀ t ∈ ⟨.read, .code, cpu.regs.programAddress, opcode⟩ :: pulls cpu.regs pulled,
      t.direction = .write → kept t.addr := by
    intro t ht hwrite
    rcases List.mem_cons.1 ht with rfl | ht
    · cases hwrite
    · cases hwrite.symm.trans (mem_pulls ht).1
  have hcoherent : Coherent contents (pulls cpu.regs pulled ++ []) := by
    rw [List.append_nil]
    exact (hsees.exchange hexchange hwrites hknown).1.2
  rw [← hstack.pulls pulled (hlength.trans hsize.symm) hcoherent]
  exact hregs

/-- A call on a memory leaves its frame on the stack. -/
theorem Sees.onStack_of_call (hsees : Sees view cells kept) {cpu : Cpu} (hr : cpu.regs.WellModed) {memory : μ}
    (hframe : ∀ t ∈ cpu.transfers memory, t.direction = .write → kept t.addr) {pbr : UInt8} {pc : UInt16}
    {opcode : UInt8} (hcall : (cpu.step memory).1.event = .executed pbr pc opcode)
    (hcalls : (Instruction.decode opcode).mnemonic.calls = true) :
    ∃ contents, OnStack contents (cpu.step memory).2.1.regs
        ((Instruction.decode opcode).mnemonic.callFrame cpu.regs).reverse ∧
      Known view cells (cpu.step memory).2.2 contents ∧
      ∀ cell byte, contents cell = some byte → ∃ t ∈ cpu.transfers memory, t.direction = .write ∧ t.addr = cell := by
  obtain ⟨hwrites, hs, hmode, -⟩ := step_call hr memory hcall hcalls
  refine ⟨stored (fun _ => none) (cpu.transfers memory), ?_,
    (hsees.exchange (cpu.exchange_step memory) hframe (known_none view cells memory)).2, ?_⟩
  · have hroom := length_callFrame_le (Instruction.decode opcode).mnemonic cpu.regs
    have hstack := (onStack_nil (fun _ => none) cpu.regs).stored hr.setS_s _ (by simpa using hroom)
    rw [← hwrites, stored_writes, List.append_nil] at hstack
    exact hstack.congr hs hmode
  · intro cell byte hcell
    exact (stored_eq_some hcell).resolve_left nofun

/-- **A return goes on behind the call**: in the bank of the call, with the stack pointer that it found, whatever was
done in between to anything but the frame. -/
theorem return_follows_call (hsees : Sees view cells kept) {cpu : Cpu} (hr : cpu.regs.WellModed) {memory : μ}
    {pbr : UInt8} {pc : UInt16} {opcode : UInt8} (hcall : (cpu.step memory).1.event = .executed pbr pc opcode)
    (hframe : ∀ t ∈ cpu.transfers memory, t.direction = .write → kept t.addr)
    {later : Cpu} {laterMemory : μ} (hmode : later.regs.emulation = (cpu.step memory).2.1.regs.emulation)
    (hs : later.regs.s = (cpu.step memory).2.1.regs.s)
    (hunchanged : ∀ t ∈ cpu.transfers memory, t.direction = .write →
      view laterMemory t.addr = view (cpu.step memory).2.2 t.addr)
    {pbr' : UInt8} {pc' : UInt16} {opcode' : UInt8}
    (hreturn : (later.step laterMemory).1.event = .executed pbr' pc' opcode') :
    let call := (Instruction.decode opcode).mnemonic
    let ret := (Instruction.decode opcode').mnemonic
    let back := (later.step laterMemory).2.1.regs
    (call = .jsr → ret = .rts → later.regs.pbr = (cpu.step memory).2.1.regs.pbr →
      back.pbr = cpu.regs.pbr ∧ back.pc = cpu.regs.pc + 3 ∧ back.s = cpu.regs.s) ∧
    (call = .jsl → ret = .rtl →
      back.pbr = cpu.regs.pbr ∧ back.pc = cpu.regs.pc + 4 ∧ back.s = cpu.regs.s) := by
  intro call ret back
  have hresumed (hcalls : call.calls = true) (hpulls : ret.pullSize ≠ 0)
      (hsize : (call.callFrame cpu.regs).length = ret.pullSize)
      (hbank : call = .jsr → later.regs.pbr = (cpu.step memory).2.1.regs.pbr) :
      back.pbr = cpu.regs.pbr ∧ back.pc = cpu.regs.pc + UInt16.ofNat ((call.callFrame cpu.regs).length + 1) ∧
        back.s = cpu.regs.s := by
    obtain ⟨-, hsCalled, hmodeCalled, hbankCalled⟩ := step_call hr memory hcall hcalls
    obtain ⟨contents, hstack, hknown, hwritten⟩ := hsees.onStack_of_call hr hframe hcall hcalls
    have hknownLater : Known view cells laterMemory contents := by
      intro cell byte hbyte
      obtain ⟨hcell, hview⟩ := hknown cell byte hbyte
      obtain ⟨t, ht, hwrite, rfl⟩ := hwritten cell byte hbyte
      exact ⟨hcell, (hunchanged t ht hwrite).trans hview⟩
    have hback : back = resumed later.regs (call.callFrame cpu.regs).reverse :=
      hsees.resumed_of_return hknownLater (hstack.congr hs hmode) hreturn hpulls (List.length_reverse.trans hsize)
    rw [hback]
    exact resumed_callFrame hcalls (hmode.trans hmodeCalled) hr.setS_s (hs.trans hsCalled)
      fun hjsr => (hbank hjsr).trans (hbankCalled hjsr)
  refine ⟨?_, ?_⟩
  · intro hjsr hrts hbank
    rw [hjsr, hrts] at hresumed
    exact hresumed rfl (by decide) rfl fun _ => hbank
  · intro hjsl hrtl
    rw [hjsl, hrtl] at hresumed
    exact hresumed rfl (by decide) rfl nofun

end Sees

/-- A call at the end of its bank whose frame goes round page 1. -/
theorem return_follows_call_wrap :
    let memory : FlatMemory := ⟨fun addr => if addr = 0x01FFFE then 0xFC else 0x60⟩
    let cpu : Cpu := { regs := { pbr := 1, pc := 0xFFFE, s := 0x0100 } }
    let later : Cpu := { regs := { pbr := 1, pc := 0x6060, s := 0x01FE } }
    let back := (later.step (cpu.step memory).2.2).2.1.regs
    (cpu.step memory).1.event = .executed 1 0xFFFE 0xFC ∧
    (cpu.transfers memory).filter (·.direction = .write) =
      [⟨.write, .stack, 0x0100, 0x00⟩, ⟨.write, .stack, 0x01FF, 0x00⟩] ∧
    (later.step (cpu.step memory).2.2).1.event = .executed 1 0x6060 0x60 ∧
    back.pbr = 1 ∧ back.pc = 0x0001 ∧ back.s = 0x0100 := by
  intro memory cpu later back
  have hr : cpu.regs.WellModed := ⟨by decide, by decide⟩
  have hcall : (cpu.step memory).1.event = .executed 1 0xFFFE 0xFC := by decide
  have hmode : later.regs.emulation = (cpu.step memory).2.1.regs.emulation := by decide
  have hs : later.regs.s = (cpu.step memory).2.1.regs.s := by decide
  have hbank : later.regs.pbr = (cpu.step memory).2.1.regs.pbr := by decide
  have hreturn : (later.step (cpu.step memory).2.2).1.event = .executed 1 0x6060 0x60 := by decide
  have hback := (return_follows_call FlatMemory.sees hr hcall (fun _ _ _ => trivial) hmode hs (fun _ _ _ => rfl)
    hreturn).1 (by decide) (by decide) hbank
  have hpc : cpu.regs.pc + 3 = 0x0001 := by decide
  rw [hpc] at hback
  exact ⟨hcall, by decide, hreturn, hback⟩

end Memory

end Emu816
