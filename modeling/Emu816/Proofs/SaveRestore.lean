import Emu816.Proofs.SavedRegisters
import Emu816.Proofs.Window

/-!
# Saving and restoring registers

Code that pushes registers and then pulls them in reverse order restores them, however the stack pointer goes round on
the way, as long as the stack has room. The widths stay in between, and a status byte brings back the ones that it had.

- `Ready`: a processor in front of some code; `Ready.step`, `Ready.behind`: the next instruction of it.
- `Ready.push`, `Ready.pull`: an instruction that saves or restores a register.
- `Ready.pushAll`, `Ready.pullAll`: any number of them.
- `SavesAndRestores`: a processor in front of code that saves and restores registers; `saved_registers_restored`.
-/

namespace Emu816

section Memory

variable {μ : Type} [Memory μ] {view : μ → UInt32 → UInt8} {cells kept : UInt32 → Prop}

/-! ## Steps of a program -/

/-- The processor executes the code at its program counter, whose cells are seen. -/
structure Ready (view : μ → UInt32 → UInt8) (cells : UInt32 → Prop) (start : Cpu × μ) (code : List UInt8) : Prop where
  executes : start.1.task = .execute
  shown : ∀ t ∈ fetches start.1.regs code, cells t.addr ∧ t.byte = view start.2 t.addr

namespace Ready

variable {start : Cpu × μ} {contents : UInt32 → Option UInt8} {opcode : UInt8} {saved : Saved} {code : List UInt8}

/-- The next opcode is what the step executes, so what its instruction ensures holds of the step. -/
theorem step (hsees : Sees view cells kept) (h : Ready view cells start (opcode :: code)) {instruction : Instruction}
    (hdecode : Instruction.decode opcode = instruction) (post : List Transfer → Registers → Prop)
    (hpost : (Microcode.ofOperation instruction.mode instruction.operation).Ensures
      (start.1.regs.setPc (start.1.regs.pc + 1)) fun log _ r' => post (transfers log) r') :
    ∃ rest, eventAt start = .executed start.1.regs.pbr start.1.regs.pc opcode ∧
      Exchange start.2 (⟨.read, .code, start.1.regs.programAddress, opcode⟩ :: rest) (Action.step.apply start).2 ∧
      post rest (Action.step.apply start).1.regs ∧
      (Action.step.apply start).1.runState = instruction.operation.runState := by
  subst hdecode
  let r := start.1.regs
  have hensures : start.1.activity.Ensures fun log result => ∃ fetched rest,
      result.1 = .executed r.pbr r.pc fetched ∧
      transfers log = ⟨.read, .code, r.programAddress, fetched⟩ :: rest ∧
      (fetched = opcode → post rest result.2.1 ∧ result.2.2 = (Instruction.decode opcode).operation.runState) := by
    rw [Cpu.ensures_activity, h.executes]
    simp only [Cpu.ensures_instruction]
    intro fetched
    by_cases hfetched : fetched = opcode
    · subst hfetched
      exact hpost.mono fun log _ r' hdone => ⟨fetched, transfers log, rfl, rfl, fun _ => ⟨hdone, rfl⟩⟩
    · exact Microcode.ensures_of_forall fun log _ r' =>
        ⟨fetched, transfers log, rfl, rfl, fun hsame => absurd hsame hfetched⟩
  obtain ⟨fetched, rest, hevent, hlog, hexecuted⟩ := Cpu.step_of_ensures hensures start.2
  have hexchange := start.1.exchange_step start.2
  rw [Cpu.transfers, hlog] at hexchange
  obtain ⟨hcell, hopcode⟩ := h.shown _ List.mem_cons_self
  obtain rfl : fetched = opcode := by rw [← hexchange.1, hsees.read _ _ hcell, ← hopcode]
  obtain ⟨hdone, hrun⟩ := hexecuted rfl
  exact ⟨rest, hevent, hexchange, hdone, hrun⟩

/-- Behind an instruction that runs on, the processor goes on with the rest of the code, unless that was overwritten. -/
theorem behind (hsees : Sees view cells kept) (instruction : List UInt8)
    (h : Ready view cells start (instruction ++ code)) {log : List Transfer}
    (hexchange : Exchange start.2 log (Action.step.apply start).2)
    (hwrites : ∀ t ∈ log, t.direction = .write →
      kept t.addr ∧ ∀ fetch ∈ fetches start.1.regs (instruction ++ code), t.addr ≠ fetch.addr)
    (hrun : (Action.step.apply start).1.runState = .running)
    (hflag : (Action.step.apply start).1.regs.flag Status.interruptDisable =
      start.1.regs.flag Status.interruptDisable)
    (hpbr : (Action.step.apply start).1.regs.pbr = start.1.regs.pbr)
    (hpc : (Action.step.apply start).1.regs.pc = start.1.regs.pc + UInt16.ofNat instruction.length) :
    Ready view cells (Action.step.apply start) code := by
  constructor
  · exact Cpu.task_step h.executes hrun hflag
  · intro fetch hfetch
    have hmem : fetch ∈ fetches start.1.regs (instruction ++ code) := mem_fetches_append instruction hpbr hpc hfetch
    obtain ⟨hcell, hbyte⟩ := h.shown fetch hmem
    have hsame := hsees.view_of_ne hexchange (fun t ht hwrite => (hwrites t ht hwrite).1) hcell
      fun t ht hwrite => (hwrites t ht hwrite).2 fetch hmem
    exact ⟨hcell, by rw [hsame, hbyte]⟩

/-- **A step that pushes** leaves the bytes of the register on the stack. -/
theorem push (hsees : Sees view cells kept) (h : Ready view cells start (saved.pushOpcode :: code))
    (hstack : ∀ w ∈ pushes start.1.regs (saved.pushed start.1.regs),
      kept w.addr ∧ ∀ fetch ∈ fetches start.1.regs (saved.pushOpcode :: code), w.addr ≠ fetch.addr) :
    let r := start.1.regs
    let after := Action.step.apply start
    eventAt start = .executed r.pbr r.pc saved.pushOpcode ∧
    after.1.regs = r.behindPushes (saved.pushed r).length 1 ∧
    Ready view cells after code ∧
    (Known view cells start.2 contents → Known view cells after.2 (stored contents (pushes r (saved.pushed r)))) := by
  intro r after
  have hpush := saved.ensures_push .implied r
  rw [← saved.operation_push .implied] at hpush
  obtain ⟨_, hevent, hexchange, ⟨rfl, hregs⟩, hrun⟩ := h.step hsees saved.decode_pushOpcode
    (fun log r' => log = pushes r (saved.pushed r) ∧ r' = r.behindPushes (saved.pushed r).length 1) hpush
  have hwrites : ∀ t ∈ ⟨.read, .code, r.programAddress, saved.pushOpcode⟩ :: pushes r (saved.pushed r),
      t.direction = .write → kept t.addr ∧ ∀ fetch ∈ fetches r (saved.pushOpcode :: code), t.addr ≠ fetch.addr := by
    exact List.forall_mem_cons.2 ⟨nofun, fun t ht _ => hstack t ht⟩
  refine ⟨hevent, hregs, ?_, ?_⟩
  · refine Ready.behind hsees [saved.pushOpcode] h hexchange hwrites ?_ ?_ ?_ ?_
    · rw [hrun, saved.operation_push]
      rfl
    · rw [hregs]
      rfl
    · rw [hregs]
      rfl
    · rw [hregs]
      rfl
  · exact fun hknown => (hsees.exchange hexchange (fun t ht hwrite => (hwrites t ht hwrite).1) hknown).2

/-- **A step that pulls** a register from its own bytes leaves it as it was. -/
theorem pull (hsees : Sees view cells kept) (h : Ready view cells start (saved.pullOpcode :: code)) {r₀ : Registers}
    (hr₀ : r₀.WellModed) (hchanges : Changes Saved.scope r₀ start.1.regs) (hknown : Known view cells start.2 contents)
    {below : List UInt8} (hstack : OnStack contents start.1.regs (saved.bytes r₀ ++ below)) :
    let r := start.1.regs
    let after := Action.step.apply start
    eventAt start = .executed r.pbr r.pc saved.pullOpcode ∧
    Changes Saved.scope r₀ after.1.regs ∧
    after.1.regs.s = (r.setS (r.s + UInt16.ofNat (saved.bytes r₀).length)).s ∧ after.1.regs.pc = r.pc + 1 ∧
    Ready view cells after code ∧ Known view cells after.2 contents ∧ OnStack contents after.1.regs below := by
  intro r after
  have hpull := saved.ensures_pull .implied r
  rw [← saved.operation_pull .implied] at hpull
  obtain ⟨_, hevent, hexchange, ⟨pulled, hlength, rfl, hregs⟩, hrun⟩ := h.step hsees saved.decode_pullOpcode
    (fun log r' => ∃ pulled, pulled.length = (saved.width r).bytes ∧ log = pulls r pulled ∧
      r' = saved.restore ((r.setS (r.s + UInt16.ofNat pulled.length)).setPc (r.pc + 1)) ((saved.width r).join pulled))
    hpull
  have hreads : ∀ t ∈ ⟨.read, .code, r.programAddress, saved.pullOpcode⟩ :: pulls r pulled, t.direction = .read :=
    List.forall_mem_cons.2 ⟨rfl, fun t ht => (mem_pulls ht).1⟩
  have hwrites : ∀ t ∈ ⟨.read, .code, r.programAddress, saved.pullOpcode⟩ :: pulls r pulled,
      t.direction ≠ .write := fun t ht hwrite => by cases (hreads t ht).symm.trans hwrite
  obtain ⟨-, hcovers⟩ := hchanges hr₀
  have hwidth : saved.width r = saved.width r₀ := saved.width_eq hcovers
  obtain ⟨hcoherent, hknown'⟩ := hsees.exchange hexchange (fun t ht hwrite => absurd hwrite (hwrites t ht)) hknown
  obtain rfl : pulled = saved.bytes r₀ := by
    have hlog : Coherent contents (pulls r pulled ++ []) := by
      rw [List.append_nil]
      exact hcoherent.2
    refine hstack.left.pulls pulled ?_ hlog
    rw [hlength, hwidth, saved.length_bytes]
  have hrestored := saved.changes_pull hr₀ hchanges (r.s + UInt16.ofNat (saved.bytes r₀).length) (r.pc + 1)
  rw [← hwidth, ← hregs] at hrestored
  obtain ⟨hchanges', hs, hpc⟩ := hrestored
  obtain ⟨-, hcovers'⟩ := hchanges' hr₀
  refine ⟨hevent, hchanges', hs, hpc, ?_, ?_, ?_⟩
  · refine Ready.behind hsees [saved.pullOpcode] h hexchange (fun t ht hwrite => absurd hwrite (hwrites t ht)) ?_ ?_ ?_ hpc
    · rw [hrun, saved.operation_pull]
      rfl
    · rw [Registers.flag, Registers.flag, Saved.status_and hcovers' (by decide), Saved.status_and hcovers (by decide)]
    · rw [hcovers'.pbr (by decide), hcovers.pbr (by decide)]
  · intro cell byte hbyte
    exact hknown' cell byte ((stored_of_ne fun t ht hwrite => absurd hwrite (hwrites t ht)).trans hbyte)
  · refine hstack.right.congr hs ?_
    rw [hcovers'.emulation (by decide), ← hcovers.emulation (by decide)]
    rfl

end Ready

/-! ## Runs of a program -/

/-- The opcodes are executed one after the other, with nothing in between. -/
def Executes : Cpu × μ → List UInt8 → Prop
  | _, [] => True
  | start, opcode :: code =>
    eventAt start = .executed start.1.regs.pbr start.1.regs.pc opcode ∧ Executes (Action.step.apply start) code

theorem executes_append {start : Cpu × μ} {first second : List UInt8} :
    Executes start (first ++ second) ↔ Executes start first ∧ Executes (afterSteps first.length start) second := by
  induction first generalizing start with
  | nil => simp [Executes]
  | cons opcode first ih => rw [List.cons_append, Executes, Executes, ih, and_assoc, List.length_cons, afterSteps_succ]

namespace Ready

variable {start : Cpu × μ} {contents : UInt32 → Option UInt8} {code : List UInt8}

/-- Registers that are saved one after the other, with the values that they have in `r₀`. -/
theorem pushAll (hsees : Sees view cells kept) {regs : List Saved}
    (h : Ready view cells start (regs.map Saved.pushOpcode ++ code))
    (hr : start.1.regs.setS start.1.regs.s = start.1.regs) (r₀ : Registers)
    (hsame : ∀ saved : Saved, saved.pushed start.1.regs = saved.pushed r₀)
    (hstack : ∀ w ∈ pushes start.1.regs (regs.flatMap (Saved.pushed · r₀)),
      kept w.addr ∧ ∀ fetch ∈ fetches start.1.regs (regs.map Saved.pushOpcode ++ code), w.addr ≠ fetch.addr)
    (hknown : Known view cells start.2 contents) :
    let r := start.1.regs
    let pushed := regs.flatMap (Saved.pushed · r₀)
    let after := afterSteps regs.length start
    Executes start (regs.map Saved.pushOpcode) ∧ after.1.regs = r.behindPushes pushed.length regs.length ∧
    Ready view cells after code ∧ Known view cells after.2 (stored contents (pushes r pushed)) := by
  induction regs generalizing start contents with
  | nil => exact ⟨trivial, (Registers.behindPushes_zero hr).symm, h, hknown⟩
  | cons saved regs ih =>
    have hlog := pushes_append hr (saved.pushed r₀) (regs.flatMap (Saved.pushed · r₀)) 1
    rw [List.flatMap_cons, hlog, ← hsame saved] at hstack
    obtain ⟨hfirst, hrest⟩ := List.forall_mem_append.1 hstack
    obtain ⟨hevent, hregs, hready, hknown'⟩ := h.push hsees hfirst
    rw [hsame saved] at hregs hknown' hrest
    rw [← hregs] at hlog hrest
    have hsettled : (Action.step.apply start).1.regs.setS (Action.step.apply start).1.regs.s =
        (Action.step.apply start).1.regs := by rw [hregs, Registers.setS_behindPushes]
    have hsame' (saved : Saved) : saved.pushed (Action.step.apply start).1.regs = saved.pushed r₀ := by
      rw [hregs, saved.pushed_behindPushes, hsame]
    have hpbr : (Action.step.apply start).1.regs.pbr = start.1.regs.pbr := by
      rw [hregs]
      rfl
    have hpc : (Action.step.apply start).1.regs.pc = start.1.regs.pc + 1 := by
      rw [hregs]
      rfl
    obtain ⟨hexecutes, hregs', hready', hknown''⟩ := ih hready hsettled hsame' (fun w hw =>
      ⟨(hrest w hw).1, fun fetch hfetch => (hrest w hw).2 fetch (mem_fetches_cons hpbr hpc hfetch)⟩) (hknown' hknown)
    refine ⟨⟨hevent, hexecutes⟩, ?_, hready', ?_⟩
    · refine hregs'.trans ?_
      rw [hregs, Registers.behindPushes_add, List.flatMap_cons, List.length_append, List.length_cons, Nat.add_comm 1]
    · rw [List.flatMap_cons, hlog, stored_append]
      exact hknown''

/-- Registers that are restored one after the other, from the values that they have in `r₀`. -/
theorem pullAll (hsees : Sees view cells kept) {regs : List Saved}
    (h : Ready view cells start (regs.map Saved.pullOpcode)) {r₀ : Registers} (hr₀ : r₀.WellModed)
    (hchanges : Changes Saved.scope r₀ start.1.regs) (hknown : Known view cells start.2 contents)
    (hstack : OnStack contents start.1.regs (regs.flatMap (Saved.bytes · r₀)))
    (hs : start.1.regs.s = stackCell r₀ (regs.flatMap (Saved.bytes · r₀)).length) :
    let after := (afterSteps regs.length start).1.regs
    Executes start (regs.map Saved.pullOpcode) ∧ Changes Saved.scope r₀ after ∧ after.s = r₀.s ∧
    after.pc = start.1.regs.pc + UInt16.ofNat regs.length := by
  induction regs generalizing start with
  | nil => exact ⟨trivial, hchanges, hs.trans (stackCell_zero hr₀), (UInt16.add_zero _).symm⟩
  | cons saved regs ih =>
    rw [List.flatMap_cons] at hstack hs
    obtain ⟨hevent, hchanges', hs', hpc, hready, hknown', hstack'⟩ := h.pull hsees hr₀ hchanges hknown hstack
    have hmode : start.1.regs.emulation = r₀.emulation := (hchanges hr₀).2.emulation (by decide)
    have hpopped : (Action.step.apply start).1.regs.s = stackCell r₀ (regs.flatMap (Saved.bytes · r₀)).length := by
      have hpointer (value : UInt16) : (start.1.regs.setS value).s = (r₀.setS value).s := by
        simp only [Registers.setS, hmode]
      rw [hs', hpointer, hs, stackCell_eq, stackCell_eq, Registers.setS_add, List.length_append, UInt16.ofNat_add,
        UInt16.add_comm (UInt16.ofNat _), ← sub_sub_word, UInt16.sub_add_cancel]
    obtain ⟨hexecutes, hrestored, hback, hend⟩ := ih hready hchanges' hknown' hstack' hpopped
    refine ⟨⟨hevent, hexecutes⟩, hrestored, hback, ?_⟩
    refine hend.trans ?_
    rw [hpc, List.length_cons, UInt16.ofNat_add, UInt16.add_assoc, UInt16.add_comm 1]
    rfl

end Ready

/-! ## Saving and restoring -/

/-- Code that pushes registers and pulls them again, in reverse order. -/
def saveRestore (regs : List Saved) : List UInt8 := regs.map Saved.pushOpcode ++ regs.reverse.map Saved.pullOpcode

/-- The processor is about to execute code that saves and restores registers. The stack has room for their bytes, and
the cells where they go keep what is written and are none of the code. -/
structure SavesAndRestores (view : μ → UInt32 → UInt8) (cells kept : UInt32 → Prop) (start : Cpu × μ)
    (regs : List Saved) : Prop where
  wellModed : start.1.regs.WellModed
  ready : Ready view cells start (saveRestore regs)
  room : (regs.flatMap (Saved.bytes · start.1.regs)).length ≤ stackSize start.1.regs
  stack : ∀ depth < (regs.flatMap (Saved.bytes · start.1.regs)).length,
    kept (stackCell start.1.regs depth).toUInt32 ∧
      ∀ fetch ∈ fetches start.1.regs (saveRestore regs), (stackCell start.1.regs depth).toUInt32 ≠ fetch.addr

/-- **The stack gives back last what it took first**: registers that are pushed and then pulled in reverse order are
what they were, and so is everything else but the program counter and the result bits. -/
theorem saved_registers_restored (hsees : Sees view cells kept) {start : Cpu × μ} {regs : List Saved}
    (h : SavesAndRestores view cells kept start regs) :
    let r := start.1.regs
    let final := (afterSteps (2 * regs.length) start).1.regs
    Executes start (saveRestore regs) ∧
    final = { r with p := final.p, pc := r.pc + UInt16.ofNat (2 * regs.length) } ∧
    final.p &&& ~~~Status.result = r.p &&& ~~~Status.result := by
  intro r final
  let pushed := regs.flatMap (Saved.pushed · r)
  have hr : r.setS r.s = r := h.wellModed.setS_s
  have hreverse : pushed.reverse = regs.reverse.flatMap (Saved.bytes · r) := by
    simp [pushed, Saved.pushed, List.reverse_flatMap, Function.comp_def]
  have hlength : pushed.length = (regs.flatMap (Saved.bytes · r)).length := by
    simp [pushed, Saved.pushed, List.length_flatMap]
  have hstack : ∀ w ∈ pushes r pushed,
      kept w.addr ∧ ∀ fetch ∈ fetches r (saveRestore regs), w.addr ≠ fetch.addr := by
    rw [pushes_eq hr]
    intro w hw
    obtain ⟨depth, hdepth, rfl⟩ := List.mem_mapIdx.1 hw
    exact h.stack depth (hlength ▸ hdepth)
  obtain ⟨hpushes, hregs, hready, hknown⟩ := h.ready.pushAll hsees hr r (fun _ => rfl) hstack
    (known_none view cells start.2)
  have hchanges : Changes Saved.scope r (afterSteps regs.length start).1.regs := by
    rw [hregs]
    exact (Changes.setS (by decide) _ _).trans (Changes.setPc _ _ _)
  have hbytes : OnStack (stored (fun _ => none) (pushes r pushed)) (afterSteps regs.length start).1.regs
      (regs.reverse.flatMap (Saved.bytes · r)) := by
    have hroom : ([] : List UInt8).length + pushed.length ≤ stackSize r := by
      rw [hlength, List.length_nil, Nat.zero_add]
      exact h.room
    have hpushed := (onStack_nil (fun _ => none) r).stored hr pushed hroom
    rw [List.append_nil, hreverse] at hpushed
    rw [hregs]
    exact hpushed.congr rfl rfl
  have hs : (afterSteps regs.length start).1.regs.s =
      stackCell r (regs.reverse.flatMap (Saved.bytes · r)).length := by
    rw [hregs, ← hreverse, List.length_reverse]
    rfl
  obtain ⟨hpulls, hrestored, hback, hpc⟩ := hready.pullAll hsees h.wellModed hchanges hknown hbytes hs
  have hsteps : afterSteps (2 * regs.length) start =
      afterSteps regs.reverse.length (afterSteps regs.length start) := by
    rw [List.length_reverse, Nat.two_mul, afterSteps_add]
  rw [← hsteps] at hrestored hback hpc
  obtain ⟨-, hcovers⟩ := hrestored h.wellModed
  refine ⟨?_, ?_, hcovers.status⟩
  · rw [saveRestore, executes_append, List.length_map]
    exact ⟨hpushes, hpulls⟩
  · rw [hregs, List.length_reverse] at hpc
    have hend : final.pc = r.pc + UInt16.ofNat (2 * regs.length) := by
      rw [Nat.two_mul, UInt16.ofNat_add, ← UInt16.add_assoc]
      exact hpc
    have hsaved := Saved.eq_of_covers hcovers
    rwa [hback, hend] at hsaved

end Memory

/-- Three registers whose bytes go round the end of bank 0, by code in another bank. -/
theorem saved_registers_restored_wrap :
    let regs : List Saved := [.a, .p, .d]
    let memory : FlatMemory := ⟨fun addr => (saveRestore regs).getD (addr.toNat - 0x010000) 0⟩
    let cpu : Cpu := { regs := { a := 0x1234, d := 0x5678, s := 0x0001, p := 0xC1, pbr := 1, emulation := false } }
    let final := (afterSteps 6 (cpu, memory)).1.regs
    SavesAndRestores FlatMemory.bytes (fun _ => True) (fun _ => True) (cpu, memory) regs ∧
    Executes (cpu, memory) [0x48, 0x08, 0x0B, 0x2B, 0x28, 0x68] ∧
    (final.a = 0x1234 ∧ final.d = 0x5678 ∧ final.s = 0x0001 ∧ final.pc = 0x0006) ∧
    final.p &&& ~~~Status.result = 0x41 := by
  intro regs memory cpu final
  have h : SavesAndRestores FlatMemory.bytes (fun _ => True) (fun _ => True) (cpu, memory) regs := by
    refine ⟨⟨by decide, by decide⟩, ⟨by decide, ?_⟩, by decide, ?_⟩
    · exact fun t ht => ⟨trivial, by revert t; decide⟩
    · exact fun depth hdepth => ⟨trivial, by revert depth; decide⟩
  obtain ⟨hexecutes, hregs, hp⟩ := saved_registers_restored FlatMemory.sees h
  have hcode : saveRestore regs = [0x48, 0x08, 0x0B, 0x2B, 0x28, 0x68] := by decide
  have hcount : 2 * regs.length = 6 := rfl
  have hstatus : cpu.regs.p &&& ~~~Status.result = 0x41 := by decide
  rw [hcode] at hexecutes
  simp only [hcount] at hregs hp
  refine ⟨h, hexecutes, ⟨congrArg Registers.a hregs, congrArg Registers.d hregs, congrArg Registers.s hregs, ?_⟩, ?_⟩
  · exact (congrArg Registers.pc hregs).trans (by decide)
  · exact hp.trans hstatus

end Emu816
