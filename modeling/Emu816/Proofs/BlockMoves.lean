import Emu816.Proofs.Ram
import Emu816.Proofs.Window
import Emu816.Proofs.WriteSets

/-!
# Block moves

A block move copies one byte in a step and goes back to its own opcode until the accumulator has run out, so a move of
up to 65536 bytes is as many steps. The index registers go round at their width, and later bytes may be read from where
earlier ones were written.

- `Registers.indexAfter`, `Registers.block`: where the index registers point after some bytes, and which cells are read
  and written by then.
- `copied`: the contents of a memory after bytes are copied one after the other.
- `Registers.moveByte`, `ensures_blockMove`: what one step does to the registers.
- `BlockMove.step`, `BlockMove.next`, `BlockMove.run`: one step on a memory, what it leaves to do, and the steps up to
  the last byte.
- `block_move_completes`: all of the registers and of the memory behind the last byte.
-/

namespace Emu816

/-! ## Cells of a block -/

/-- By how much a block move changes the index registers. -/
def Mnemonic.stride : Mnemonic → Option UInt16
  | .mvn => some 1
  | .mvp => some (-1)
  | _ => none

namespace Registers

/-- Where an index register that points to `start` points after some bytes, at the index width. -/
def indexAfter (r : Registers) (stride start : UInt16) (count : Nat) : UInt16 :=
  (start + stride * UInt16.ofNat count) &&& r.indexWidth.mask

/-- From where and to where the first bytes of a block go, in order. -/
def block (r : Registers) (stride : UInt16) (source target : UInt8) (count : Nat) : List (UInt32 × UInt32) :=
  (List.range count).map fun i =>
    (Address.ofBank source (r.indexAfter stride r.x i), Address.ofBank target (r.indexAfter stride r.y i))

/-- The registers after one byte. -/
def moveByte (r : Registers) (stride : UInt16) (target : UInt8) : Registers :=
  { r with
    a := r.a - 1
    x := r.indexAfter stride r.x 1
    y := r.indexAfter stride r.y 1
    dbr := target
    pc := if r.a = 0 then r.pc + 3 else r.pc }

end Registers

/-- The contents after bytes are copied one after the other. -/
def copied (contents : UInt32 → UInt8) : List (UInt32 × UInt32) → UInt32 → UInt8
  | [] => contents
  | (source, target) :: rest => copied (fun cell => if cell = target then contents source else contents cell) rest

/-- Only the cells to which bytes are copied change. -/
theorem copied_of_ne (contents : UInt32 → UInt8) {moves : List (UInt32 × UInt32)} {cell : UInt32}
    (h : ∀ move ∈ moves, cell ≠ move.2) : copied contents moves cell = contents cell := by
  induction moves generalizing contents with
  | nil => rfl
  | cons move moves ih =>
    exact (ih _ fun move hmove => h move (List.mem_cons_of_mem _ hmove)).trans (if_neg (h move List.mem_cons_self))

/-- Only what the cells hold that are looked at matters. -/
theorem copied_congr {cells : UInt32 → Prop} {contents contents' : UInt32 → UInt8}
    (h : ∀ cell, cells cell → contents cell = contents' cell) {moves : List (UInt32 × UInt32)}
    (hmoves : ∀ move ∈ moves, cells move.1) {cell : UInt32} (hcell : cells cell) :
    copied contents moves cell = copied contents' moves cell := by
  induction moves generalizing contents contents' with
  | nil => exact h cell hcell
  | cons move moves ih =>
    refine ih ?_ fun move hmove => hmoves move (List.mem_cons_of_mem _ hmove)
    intro other hother
    rw [h other hother, h move.1 (hmoves move List.mem_cons_self)]

/-! ## Index registers -/

/-- A mask may be left out before the last one. -/
theorem Width.and_mask_add (width : Width) (first second : UInt16) :
    ((first &&& width.mask) + second) &&& width.mask = (first + second) &&& width.mask := by
  cases width with
  | byte =>
    apply UInt16.toNat.inj
    simp only [Width.mask, toNat_and_lowByte, UInt16.toNat_add]
    omega
  | word => simp only [and_word_mask]

namespace Registers

variable {r : Registers}

variable (stride : UInt16) (source target : UInt8)

theorem indexAfter_zero {start : UInt16} (h : start &&& r.indexWidth.mask = start) :
    r.indexAfter stride start 0 = start := by
  simpa [indexAfter] using h

/-- The bytes behind the first one are counted from where it leaves the index register. -/
theorem indexAfter_indexAfter (start : UInt16) (count : Nat) :
    r.indexAfter stride (r.indexAfter stride start 1) count = r.indexAfter stride start (count + 1) := by
  rw [indexAfter, indexAfter, indexAfter, Width.and_mask_add, UInt16.ofNat_add]
  congr 1
  grind

theorem WellModed.moveByte (h : r.WellModed) : (r.moveByte stride target).WellModed :=
  (sameMode_setPc _ _).2 ((sameMode_setDbr _ target).2 ((sameMode_setA _ (r.a - 1)).2
    ((sameMode_setY _ (r.y + stride * UInt16.ofNat 1)).2 ((sameMode_setX r (r.x + stride * UInt16.ofNat 1)).2 h))))

/-- The program counter has passed the instruction, and goes back to its opcode unless this was the last byte. -/
theorem moveByte_eq (r : Registers) :
    let fetched := (r.setPc (r.pc + 1 + 1 + 1)).setDbr target
    let moved := ((fetched.setX (fetched.x + stride)).setY (fetched.y + stride)).setA (fetched.a - 1)
    (if moved.a = 0xFFFF then moved else moved.setPc (moved.pc - 3)) = r.moveByte stride target := by
  intro fetched moved
  have hone (start : UInt16) : r.indexAfter stride start 1 = (start + stride) &&& r.indexWidth.mask := by
    simp [indexAfter]
  have hlast : moved.a = 0xFFFF ↔ r.a = 0 := by
    show r.a - 1 = 0xFFFF ↔ r.a = 0
    grind
  have hpc : moved.pc = r.pc + 3 := by
    show r.pc + 1 + 1 + 1 = r.pc + 3
    grind
  have hmoved : moved = { r.moveByte stride target with pc := moved.pc } := by
    simp only [moved, fetched, moveByte, hone, setPc, setDbr, setX, setY, setA, indexWidth]
  by_cases ha : r.a = 0
  · rw [if_pos (hlast.2 ha), hmoved, hpc, moveByte, if_pos ha]
  · rw [if_neg (mt hlast.1 ha), hmoved, hpc, moveByte, if_neg ha]
    simp [setPc]

/-- A move that has not run out stays at its opcode. -/
theorem moveByte_pc (h : r.a ≠ 0) : (r.moveByte stride target).pc = r.pc := if_neg h

theorem toNat_moveByte_a (h : r.a ≠ 0) : (r.moveByte stride target).a.toNat + 1 = r.a.toNat := by
  have hpos : r.a.toNat ≠ 0 := fun hzero => h (UInt16.toNat.inj hzero)
  have hlt := r.a.toNat_lt
  rw [moveByte, UInt16.toNat_sub]
  simp only [UInt16.reduceToNat]
  omega

/-- A block is its first byte and the block from there on. -/
theorem block_succ (h : r.WellModed) (count : Nat) :
    r.block stride source target (count + 1) = (Address.ofBank source r.x, Address.ofBank target r.y) ::
      (r.moveByte stride target).block stride source target count := by
  rw [block, List.range_succ_eq_map, List.map_cons, List.map_map, indexAfter_zero stride h.and_mask.1,
    indexAfter_zero stride h.and_mask.2]
  refine congrArg (List.cons _) (List.map_congr_left fun i _ => ?_)
  rw [Function.comp_apply, ← indexAfter_indexAfter stride r.x i, ← indexAfter_indexAfter stride r.y i]
  rfl

end Registers

/-! ## One byte -/

/-- What a step of a block move does after its opcode. -/
theorem Microcode.ensures_blockMove (r : Registers) (stride : UInt16)
    (post : List Cycle → Unit → Registers → Prop) :
    (blockMove stride).Ensures (r.setPc (r.pc + 1)) post ↔ ∀ target source byte,
      post [.read .code (r.setPc (r.pc + 1)).programAddress target,
          .read .code (r.setPc (r.pc + 1 + 1)).programAddress source,
          .read .data (Address.ofBank source r.x) byte, .write .data (Address.ofBank target r.y) byte, .idle, .idle]
        () (r.moveByte stride target) := by
  simp only [blockMove, ensures_bind, ensures_fetch, ensures_modify, ensures_get, ensures_read, ensures_write,
    ensures_idle, Address.wrap_ofBank, Registers.setPc_setPc, Registers.setPc_pc]
  refine forall₃_congr fun target source byte => ?_
  rw [← r.moveByte_eq stride target]
  exact Iff.rfl

theorem operation_of_stride {mnemonic : Mnemonic} {mode : Mode} {stride : UInt16}
    (h : mnemonic.stride = some stride) : Instruction.operation ⟨mnemonic, mode⟩ = .blockMove stride := by
  cases mnemonic with
  | mvn | mvp =>
    obtain rfl := Option.some.inj h
    rfl
  | _ => cases h

/-- What a step does that executes an instruction, if that is a block move. -/
theorem ensures_activity_blockMove {cpu : Cpu} (htask : cpu.task = .execute) :
    cpu.activity.Ensures fun log result => ∃ opcode,
      result.1 = .executed cpu.regs.pbr cpu.regs.pc opcode ∧
      (∃ rest, transfers log = fetches cpu.regs [opcode] ++ rest) ∧
      ∀ stride, (Instruction.decode opcode).mnemonic.stride = some stride → ∃ target source byte,
        log.length = Instruction.blockMoveCycles ∧
        transfers log = (fetches cpu.regs [opcode, target, source] ++
          [⟨.read, .data, Address.ofBank source cpu.regs.x, byte⟩]) ++
          [⟨.write, .data, Address.ofBank target cpu.regs.y, byte⟩] ∧
        result.2.1 = cpu.regs.moveByte stride target ∧ result.2.2 = .running := by
  rw [Cpu.ensures_activity, htask]
  simp only [Cpu.ensures_instruction]
  intro opcode
  cases hfound : (Instruction.decode opcode).mnemonic.stride with
  | none =>
    refine Microcode.ensures_of_forall fun log _ r' => ⟨opcode, rfl, ⟨_, rfl⟩, fun stride hstride => ?_⟩
    cases hfound.symm.trans hstride
  | some found =>
    rw [operation_of_stride hfound]
    refine (Microcode.ensures_blockMove _ _ _).2 fun target source byte => ⟨opcode, rfl, ⟨_, rfl⟩, ?_⟩
    intro stride hstride
    obtain rfl := Option.some.inj (hfound.symm.trans hstride)
    exact ⟨target, source, byte, rfl, rfl, rfl, rfl⟩

section Memory

variable {μ : Type} [Memory μ]

/-! ## Steps on a memory -/

/-- Bytes that are seen at the program counter are what is fetched there. -/
theorem Sees.fetched_eq {view : μ → UInt32 → UInt8} {cells kept : UInt32 → Prop} (hsees : Sees view cells kept)
    {memory after : μ} {rest : List Transfer} {r : Registers} {fetched bytes : List UInt8}
    (hexchange : Exchange memory (fetches r fetched ++ rest) after) (hlength : fetched.length = bytes.length)
    (hshown : ∀ t ∈ fetches r bytes, cells t.addr ∧ t.byte = view memory t.addr) : fetched = bytes := by
  induction fetched generalizing memory r bytes with
  | nil => exact (List.eq_nil_of_length_eq_zero hlength.symm).symm
  | cons first fetched ih =>
    obtain ⟨byte, bytes, rfl⟩ := List.exists_cons_of_length_eq_add_one hlength.symm
    obtain ⟨hread, hexchange⟩ := hexchange
    obtain ⟨hcell, hbyte⟩ := hshown _ List.mem_cons_self
    have hfirst : first = byte := by rw [← hread, hsees.read _ _ hcell, ← hbyte]
    have hrest : fetched = bytes := ih hexchange (Nat.succ.inj hlength) fun t ht => by
      obtain ⟨hcell, hbyte⟩ := hshown t (List.mem_cons_of_mem _ ht)
      exact ⟨hcell, by rw [hbyte, hsees.keep _ _ _ hcell]⟩
    rw [hfirst, hrest]

/-- A block move stands at the program counter and is what the next step executes. The cells of the instruction and of
the block are seen, those to which bytes go keep them, and none of these belongs to the instruction. -/
structure BlockMove (view : μ → UInt32 → UInt8) (cells kept : UInt32 → Prop) (start : Cpu × μ)
    (opcode target source : UInt8) (stride : UInt16) : Prop where
  wellModed : start.1.regs.WellModed
  executes : start.1.task = .execute
  moves : (Instruction.decode opcode).mnemonic.stride = some stride
  shown : ∀ t ∈ fetches start.1.regs [opcode, target, source], cells t.addr ∧ t.byte = view start.2 t.addr
  block : ∀ move ∈ start.1.regs.block stride source target (start.1.regs.a.toNat + 1),
    cells move.1 ∧ kept move.2 ∧ ∀ t ∈ fetches start.1.regs [opcode, target, source], t.addr ≠ move.2

namespace BlockMove

variable {view : μ → UInt32 → UInt8} {cells kept : UInt32 → Prop} {start : Cpu × μ} {opcode target source : UInt8}
  {stride : UInt16}

omit [Memory μ] in
theorem head_mem (h : BlockMove view cells kept start opcode target source stride) :
    cells (Address.ofBank source start.1.regs.x) ∧ kept (Address.ofBank target start.1.regs.y) ∧
      ∀ t ∈ fetches start.1.regs [opcode, target, source], t.addr ≠ Address.ofBank target start.1.regs.y := by
  have hblock := h.block
  rw [Registers.block_succ stride source target h.wellModed] at hblock
  exact hblock _ List.mem_cons_self

/-- **A step of a block move** copies one byte. -/
theorem step (hsees : Sees view cells kept) (h : BlockMove view cells kept start opcode target source stride) :
    let r := start.1.regs
    let after := Action.step.apply start
    (start.1.step start.2).1 = ⟨.executed r.pbr r.pc opcode, 7⟩ ∧
    after.1.regs = r.moveByte stride target ∧ after.1.runState = .running ∧
    ∀ cell, cells cell → view after.2 cell =
      if cell = Address.ofBank target r.y then view start.2 (Address.ofBank source r.x) else view start.2 cell := by
  intro r after
  obtain ⟨opcode', hevent, ⟨rest, hopcode⟩, hmoves⟩ :=
    Cpu.step_of_ensures (ensures_activity_blockMove h.executes) start.2
  have hexchange (log : List Transfer) (hlog : start.1.transfers start.2 = log) : Exchange start.2 log after.2 :=
    hlog ▸ start.1.exchange_step start.2
  obtain rfl : opcode' = opcode := by
    have hfetched : [opcode'] = [opcode] := hsees.fetched_eq (hexchange _ hopcode) rfl fun t ht =>
      h.shown t (List.mem_cons.2 (.inl (List.mem_singleton.1 ht)))
    exact List.singleton_inj.1 hfetched
  obtain ⟨target', source', byte, hcycles, hlog, hregs, hrun⟩ := hmoves stride h.moves
  obtain ⟨rfl, rfl⟩ : target' = target ∧ source' = source := by
    rw [List.append_assoc] at hlog
    have hfetched : [opcode', target', source'] = [opcode', target, source] :=
      hsees.fetched_eq (hexchange _ hlog) rfl h.shown
    simpa using hfetched
  obtain ⟨hsource, htarget, -⟩ := h.head_mem
  have hreads : ∀ t ∈ fetches r [opcode', target', source'] ++ [⟨.read, .data, Address.ofBank source' r.x, byte⟩],
      t.direction = .read :=
    List.forall_mem_append.2 ⟨reading_fetches r _, fun t ht => by rw [List.mem_singleton.1 ht]⟩
  obtain ⟨hfound, hview⟩ := hsees.of_reads_write (hexchange _ hlog) hreads htarget
  have hbyte : byte = view start.2 (Address.ofBank source' r.x) :=
    hfound _ (List.mem_append_right _ (List.mem_singleton_self _)) hsource
  refine ⟨?_, hregs, hrun, ?_⟩
  · exact congrArg₂ Outcome.mk hevent ((start.1.step_cycles start.2).trans hcycles)
  · rw [← hbyte]
    exact hview

/-- A block move that has not run out goes on with the next byte. -/
theorem next (hsees : Sees view cells kept) (h : BlockMove view cells kept start opcode target source stride)
    (hmore : start.1.regs.a ≠ 0) :
    BlockMove view cells kept (Action.step.apply start) opcode target source stride := by
  obtain ⟨-, hregs, hrun, hview⟩ := h.step hsees
  have hflag : (Action.step.apply start).1.regs.flag Status.interruptDisable =
      start.1.regs.flag Status.interruptDisable := by
    rw [hregs]
    rfl
  have hpbr : (start.1.regs.moveByte stride target).pbr = start.1.regs.pbr := rfl
  have hfetches : fetches (start.1.regs.moveByte stride target) [opcode, target, source] =
      fetches start.1.regs [opcode, target, source] :=
    fetches_congr hpbr (Registers.moveByte_pc stride target hmore) _
  have hblock := h.block
  rw [← Registers.toNat_moveByte_a stride target hmore, Registers.block_succ stride source target h.wellModed] at hblock
  constructor
  · rw [hregs]
    exact h.wellModed.moveByte stride target
  · exact Cpu.task_step h.executes hrun hflag
  · exact h.moves
  · rw [hregs, hfetches]
    intro t ht
    obtain ⟨hcell, hbyte⟩ := h.shown t ht
    exact ⟨hcell, by rw [hview _ hcell, if_neg (h.head_mem.2.2 t ht), hbyte]⟩
  · rw [hregs, hfetches]
    exact fun move hmove => hblock move (List.mem_cons_of_mem _ hmove)

/-- The steps from the first byte to the last one. -/
theorem run (hsees : Sees view cells kept) {n : Nat}
    (h : BlockMove view cells kept start opcode target source stride) (hn : start.1.regs.a.toNat = n) :
    (∀ i < n + 1, ((afterSteps i start).1.step (afterSteps i start).2).1 =
      ⟨.executed start.1.regs.pbr start.1.regs.pc opcode, 7⟩) ∧
    (afterSteps (n + 1) start).1.regs =
      { start.1.regs with
        pc := start.1.regs.pc + 3
        a := 0xFFFF
        x := start.1.regs.indexAfter stride start.1.regs.x (n + 1)
        y := start.1.regs.indexAfter stride start.1.regs.y (n + 1)
        dbr := target } ∧
    ∀ cell, cells cell → view (afterSteps (n + 1) start).2 cell =
      copied (view start.2) (start.1.regs.block stride source target (n + 1)) cell := by
  induction n generalizing start with
  | zero =>
    obtain ⟨houtcome, hregs, -, hview⟩ := h.step hsees
    have ha : start.1.regs.a = 0 := UInt16.toNat.inj hn
    refine ⟨?_, ?_, ?_⟩
    · intro i hi
      obtain rfl : i = 0 := by omega
      exact houtcome
    · refine hregs.trans ?_
      rw [Registers.moveByte, if_pos ha, ha]
      rfl
    · intro cell hcell
      rw [Registers.block_succ stride source target h.wellModed]
      exact hview cell hcell
  | succ n ih =>
    obtain ⟨houtcome, hregs, -, hview⟩ := h.step hsees
    have hmore : start.1.regs.a ≠ 0 := by
      intro ha
      rw [ha] at hn
      cases hn
    have hnext := h.next hsees hmore
    have hleft : (Action.step.apply start).1.regs.a.toNat = n := by
      rw [hregs]
      exact Nat.succ.inj ((Registers.toNat_moveByte_a stride target hmore).trans hn)
    obtain ⟨houtcomes, hfinal, hcopied⟩ := ih hnext hleft
    have hpc := Registers.moveByte_pc stride target hmore
    have hx := Registers.indexAfter_indexAfter (r := start.1.regs) stride start.1.regs.x (n + 1)
    have hy := Registers.indexAfter_indexAfter (r := start.1.regs) stride start.1.regs.y (n + 1)
    rw [hregs] at houtcomes hfinal hcopied
    refine ⟨?_, ?_, ?_⟩
    · intro i hi
      cases i with
      | zero => exact houtcome
      | succ i =>
        rw [hpc] at houtcomes
        exact houtcomes i (by omega)
    · rw [afterSteps_succ, hfinal, hpc, ← hx, ← hy]
      rfl
    · intro cell hcell
      have hblock := h.block
      rw [hn, Registers.block_succ stride source target h.wellModed] at hblock
      rw [afterSteps_succ, hcopied cell hcell, Registers.block_succ stride source target h.wellModed]
      exact copied_congr hview (fun move hmove => (hblock move (List.mem_cons_of_mem _ hmove)).1) hcell

end BlockMove

/-! ## The whole block -/

/-- **A block move runs to completion.** -/
theorem block_move_completes {view : μ → UInt32 → UInt8} {cells kept : UInt32 → Prop} (hsees : Sees view cells kept)
    {start : Cpu × μ} {opcode target source : UInt8} {stride : UInt16}
    (h : BlockMove view cells kept start opcode target source stride) :
    let r := start.1.regs
    let count := r.a.toNat + 1
    let final := afterSteps count start
    (∀ i < count, ((afterSteps i start).1.step (afterSteps i start).2).1 = ⟨.executed r.pbr r.pc opcode, 7⟩) ∧
    final.1.regs =
      { r with
        pc := r.pc + 3
        a := 0xFFFF
        x := r.indexAfter stride r.x count
        y := r.indexAfter stride r.y count
        dbr := target } ∧
    (∀ cell, cells cell →
      view final.2 cell = copied (view start.2) (r.block stride source target count) cell) ∧
    ∀ cell, cells cell → (∀ move ∈ r.block stride source target count, cell ≠ move.2) →
      view final.2 cell = view start.2 cell := by
  intro r count final
  obtain ⟨houtcomes, hregs, hcopied⟩ := h.run hsees rfl
  refine ⟨houtcomes, hregs, hcopied, fun cell hcell hother => ?_⟩
  exact (hcopied cell hcell).trans (copied_of_ne _ hother)

end Memory

/-- A move that reads what it has written and whose index registers go round at a byte. -/
theorem block_move_completes_overlap :
    let memory : FlatMemory := ⟨fun addr => if addr = 0x010000 then 0x54 else if addr = 0x0000FF then 0xAA else 0x00⟩
    let cpu : Cpu := { regs := { a := 0x0002, x := 0x00FF, y := 0x0000, pbr := 1, p := 0x10, emulation := false } }
    BlockMove FlatMemory.bytes (fun _ => True) (fun _ => True) (cpu, memory) 0x54 0x00 0x00 1 ∧
    (∀ i < 3, ((afterSteps i (cpu, memory)).1.step (afterSteps i (cpu, memory)).2).1 = ⟨.executed 1 0 0x54, 7⟩) ∧
    (afterSteps 3 (cpu, memory)).1.regs =
      { cpu.regs with pc := 0x0003, a := 0xFFFF, x := 0x0002, y := 0x0003, dbr := 0x00 } ∧
    (afterSteps 3 (cpu, memory)).2.bytes 0x000002 = 0xAA ∧ (afterSteps 3 (cpu, memory)).2.bytes 0x000003 = 0x00 := by
  intro memory cpu
  have h : BlockMove FlatMemory.bytes (fun _ => True) (fun _ => True) (cpu, memory) 0x54 0x00 0x00 1 := by
    refine ⟨⟨by decide, by decide⟩, by decide, by decide, ?_, ?_⟩
    · exact fun t ht => ⟨trivial, by revert t; decide⟩
    · exact List.forall_mem_map.2 fun i hi => ⟨trivial, trivial, by revert i; decide⟩
  have hcount : (cpu, memory).1.regs.a.toNat + 1 = 3 := by decide
  have hmoved := block_move_completes FlatMemory.sees h
  simp only [hcount] at hmoved
  obtain ⟨houtcomes, hregs, hcopied, hothers⟩ := hmoved
  refine ⟨h, houtcomes, ?_, ?_, ?_⟩
  · rw [hregs]
    decide
  · rw [hcopied _ trivial]
    decide
  · rw [hothers _ trivial (List.forall_mem_map.2 (by decide))]
    decide

end Emu816
