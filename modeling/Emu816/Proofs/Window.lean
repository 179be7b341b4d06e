import Emu816.Machine.Basic
import Emu816.Proofs.InterruptProtocol
import Emu816.Proofs.StraightLine

/-!
# Listings and execution

A listing reads the same code as the processor, but on its own: it measures each instruction by its addressing mode and
follows the widths through the masks of the status byte. Straight-line code is executed as it is listed.

- `Row.Goes`: the instruction of a row can be executed in line.
- `step_row`: such a step executes its row, and a listing goes on where the processor is then.
- `window_followed`: so a window of any length is executed row by row.
-/

namespace Emu816

/-! ## Rows -/

namespace Row

/-- The addresses of the bytes of a row. -/
def addresses (row : Row) : List UInt32 :=
  (List.range row.length).map fun i => Address.advance row.addr (UInt16.ofNat i)

/-- The instruction of a row. -/
def instruction (row : Row) : Instruction := .decode (row.bytes.headD 0)

/-- The widths behind some rows. -/
def widthsAfter (rows : List Row) (widths : ListingWidths) : ListingWidths :=
  rows.foldl (fun widths row => widths.after row.bytes) widths

variable (peek : UInt32 → UInt8)

@[simp] theorem length_window (addr : UInt32) (widths : ListingWidths) (count : Nat) :
    (window peek addr widths count).length = count := by
  induction count generalizing addr widths with
  | zero => rfl
  | succ count ih => simp [window, ih]

end Row

namespace Registers

/-- The row at the program counter. -/
def row (r : Registers) (peek : UInt32 → UInt8) : Row := Row.decode peek r.programAddress r.listingWidths

/-- Moving on in the program bank. -/
theorem advance_programAddress (r : Registers) (count : UInt16) :
    Address.advance r.programAddress count = (r.setPc (r.pc + count)).programAddress := by
  rw [Address.advance, programAddress, Address.bank_ofBank, Address.offset_ofBank]
  rfl

variable (r : Registers) (peek : UInt32 → UInt8)

theorem row_addr : (r.row peek).addr = r.programAddress := wrap_programAddress r

theorem row_instruction : (r.row peek).instruction = .decode (peek r.programAddress) := by
  simp [row, Row.decode, Row.instruction]

theorem row_length : (r.row peek).length =
    (Instruction.decode (peek r.programAddress)).mode.operandLength r.listingWidths.narrowMemory
      r.listingWidths.narrowIndex + 1 := by
  simp [row, Row.decode, Row.length]

/-- The bytes of the row are those at its addresses. -/
theorem row_bytes : (r.row peek).bytes = (r.row peek).addresses.map peek := by
  rw [Row.addresses, row_length, row_addr, List.range_succ_eq_map]
  simp [row, Row.decode, advance_programAddress]

end Registers

/-! ## Bytes that were fetched -/

section Fetched

variable {μ : Type} [Memory μ] {memory after : μ} {peek : UInt32 → UInt8} {rest : List Transfer}

/-- Bytes that memory shows at their addresses are what is fetched there, and memory is left as it was. -/
theorem fetched_eq {bytes : List UInt8} {r : Registers} (h : Exchange memory (fetches r bytes ++ rest) after)
    (hshown : ∀ i < bytes.length, Memory.read memory (Address.advance r.programAddress (UInt16.ofNat i)) =
      (peek (Address.advance r.programAddress (UInt16.ofNat i)), memory)) :
    bytes = (List.range bytes.length).map fun i => peek (Address.advance r.programAddress (UInt16.ofNat i)) := by
  induction bytes generalizing r with
  | nil => rfl
  | cons byte bytes ih =>
    have hnext (i : Nat) : Address.advance (r.setPc (r.pc + 1)).programAddress (UInt16.ofNat i) =
        Address.advance r.programAddress (UInt16.ofNat (i + 1)) := by
      rw [Registers.advance_programAddress, Registers.advance_programAddress, UInt16.ofNat_add]
      simp only [Registers.setPc_setPc, Registers.setPc_pc]
      congr 2
      grind
    have hzero : Address.advance r.programAddress (UInt16.ofNat 0) = r.programAddress := by
      simp [Registers.advance_programAddress]
    have hfirst := hshown 0 (Nat.zero_lt_succ _)
    rw [hzero] at hfirst
    obtain ⟨hbyte, hrest⟩ := h
    rw [hfirst] at hbyte hrest
    have htail := ih hrest fun i hi => by
      rw [hnext]
      exact hshown (i + 1) (Nat.succ_lt_succ hi)
    rw [List.length_cons, List.range_succ_eq_map, List.map_cons, List.map_map, hzero]
    refine List.cons_eq_cons.2 ⟨hbyte.symm, htail.trans ?_⟩
    exact List.map_congr_left fun i _ => congrArg peek (hnext i)

end Fetched

/-! ## Steps in line -/

section Steps

variable {μ : Type} [Memory μ] {peek : UInt32 → UInt8}

/-- The processor and its memory after some steps in a row. -/
def afterSteps (count : Nat) (start : Cpu × μ) : Cpu × μ := play (List.replicate count .step) start

@[simp] theorem afterSteps_zero (start : Cpu × μ) : afterSteps 0 start = start := rfl

theorem afterSteps_succ (count : Nat) (start : Cpu × μ) :
    afterSteps (count + 1) start = afterSteps count (Action.step.apply start) := rfl

theorem afterSteps_add (first second : Nat) (start : Cpu × μ) :
    afterSteps (first + second) start = afterSteps second (afterSteps first start) := by
  rw [afterSteps, ← List.replicate_append_replicate, play_append]
  rfl

/-- A processor that executed an instruction goes on with the next one if it runs and takes interrupts as before. -/
theorem Cpu.task_step {cpu : Cpu} {memory : μ} (htask : cpu.task = .execute)
    (hrun : (cpu.step memory).2.1.runState = .running)
    (hflag : (cpu.step memory).2.1.regs.flag Status.interruptDisable = cpu.regs.flag Status.interruptDisable) :
    (cpu.step memory).2.1.task = .execute := by
  have hnmi : (cpu.step memory).2.1.nmiPending = cpu.nmiPending := by
    show cpu.keepsNmi = cpu.nmiPending
    simp [Cpu.keepsNmi, htask]
  have hirq : (cpu.step memory).2.1.irqLine = cpu.irqLine := rfl
  simp only [Cpu.task, hrun, hnmi, hirq, hflag] at htask ⊢
  grind

/-- The row can be executed in line: the processor runs and enters no handler, memory shows the bytes of the row without
being changed by that, and the instruction neither leaves the line nor is a branch that is taken. -/
structure Row.Goes (peek : UInt32 → UInt8) (row : Row) (start : Cpu × μ) : Prop where
  running : start.1.runState = .running
  undisturbed : ∀ kind, (eventAt start).enters kind = false
  shown : ∀ addr ∈ row.addresses, Memory.read start.2 addr = (peek addr, start.2)
  stays : row.instruction.mnemonic.leavesLine = false
  untaken : row.instruction.mnemonic.branches start.1.regs = false

theorem Row.Goes.task {row : Row} {start : Cpu × μ} (h : row.Goes peek start) : start.1.task = .execute := by
  cases htask : start.1.task with
  | stop =>
    have hstopped := Cpu.task_eq_stop.1 htask
    rw [h.running] at hstopped
    cases hstopped
  | wait =>
    have hwaiting := (Cpu.task_eq_wait.1 htask).1
    rw [h.running] at hwaiting
    cases hwaiting
  | interrupt kind =>
    have henters : (eventAt start).enters kind = true := by
      rw [StepEvent.enters_iff, eventAt, Cpu.task_event, htask]
    rw [h.undisturbed kind] at henters
    cases henters
  | execute => rfl

/-- **A step in line executes the row at the program counter**, and the next row follows it. -/
theorem step_row {start : Cpu × μ} (h : (start.1.regs.row peek).Goes peek start) :
    let r := start.1.regs
    let row := r.row peek
    let r' := (Action.step.apply start).1.regs
    eventAt start = .executed r.pbr r.pc (row.bytes.headD 0) ∧
      r'.programAddress = Address.advance row.addr (UInt16.ofNat row.length) ∧
      r'.listingWidths = r.listingWidths.after row.bytes := by
  intro r row r'
  have hpost : start.1.activity.Ensures fun log result =>
      ∃ opcode, result.1 = .executed r.pbr r.pc opcode ∧
        (∃ rest, transfers log = fetches r [opcode] ++ rest) ∧
          ((Instruction.decode opcode).mnemonic.leavesLine = false →
            (Instruction.decode opcode).mnemonic.branches r = false → Advances r log opcode result.2.1) := by
    rw [Cpu.ensures_activity, h.task]
    exact (ensures_instruction_advances r).mono fun log opcode r' hadvances => ⟨opcode, rfl, hadvances⟩
  obtain ⟨opcode, hevent, ⟨rest, hfetch⟩, hadvances⟩ := Cpu.step_of_ensures hpost start.2
  have hexchange (transferred : List Transfer) (hlog : transfers (start.1.log start.2) = transferred) :
      Exchange start.2 transferred (start.1.step start.2).2.2 := hlog ▸ Cpu.exchange_step start.1 start.2
  have hshown : ∀ i < row.length, Memory.read start.2 (Address.advance r.programAddress (UInt16.ofNat i)) =
      (peek (Address.advance r.programAddress (UInt16.ofNat i)), start.2) := by
    intro i hi
    rw [← r.row_addr peek]
    exact h.shown _ (List.mem_map_of_mem (List.mem_range.2 hi))
  have hlength : row.length = _ := r.row_length peek
  -- the opcode first, since the number of its operand bytes depends on it
  have hopcode : opcode = peek r.programAddress := by
    have hfirst := fetched_eq (hexchange _ hfetch) fun i hi => hshown i (by rw [hlength]; simp at hi; omega)
    simpa [Registers.advance_programAddress] using hfirst
  subst hopcode
  have hstays := h.stays
  have huntaken := h.untaken
  rw [r.row_instruction peek] at hstays huntaken
  obtain ⟨operand, rest, hoperand, hlog, hpc, hpbr, hwidths⟩ := hadvances hstays huntaken
  change r'.pc = _ at hpc
  change r'.pbr = _ at hpbr
  rw [← hoperand] at hlength
  have hbytes : peek r.programAddress :: operand = row.bytes := by
    have hall := fetched_eq (hexchange _ hlog) fun i hi => hshown i (by simpa [row, hlength] using hi)
    rw [hall, r.row_bytes peek, Row.addresses, List.map_map, hlength, r.row_addr peek]
    rfl
  refine ⟨?_, ?_, ?_⟩
  · rw [← hbytes]
    exact hevent
  · rw [r.row_addr peek, hlength, Registers.advance_programAddress]
    show Address.ofBank r'.pbr r'.pc = _
    rw [hpc, hpbr]
    rfl
  · rw [← hbytes]
    exact hwidths

end Steps

/-! ## Windows -/

/-- The rows from the program counter on, at the present widths. -/
def Registers.window (r : Registers) (peek : UInt32 → UInt8) (count : Nat) : List Row :=
  Row.window peek r.programAddress r.listingWidths count

/-- The listing of a machine is such a window. -/
theorem Machine.listing_eq {σ τ : Type} (machine : Machine σ τ) (count : Nat) :
    machine.listing count = machine.cpu.regs.window machine.bus.peek count := rfl

section Windows

variable {μ : Type} [Memory μ] {peek : UInt32 → UInt8} {start : Cpu × μ} {count : Nat}

/-- Each row of the window can be executed in line when it is its turn. -/
def Followable (peek : UInt32 → UInt8) (count : Nat) (start : Cpu × μ) : Prop :=
  ∀ (k : Nat) (row : Row), (start.1.regs.window peek count)[k]? = some row → row.Goes peek (afterSteps k start)

theorem Followable.head (h : Followable peek (count + 1) start) : (start.1.regs.row peek).Goes peek start :=
  h 0 _ rfl

/-- Behind its first row a window is the one from the next step on. -/
theorem window_succ_of_goes (hhead : (start.1.regs.row peek).Goes peek start) (count : Nat) :
    start.1.regs.window peek (count + 1) =
      start.1.regs.row peek :: (Action.step.apply start).1.regs.window peek count := by
  obtain ⟨-, haddr, hwidths⟩ := step_row hhead
  rw [Registers.window, Registers.window, haddr, hwidths]
  rfl

theorem Followable.window_succ (h : Followable peek (count + 1) start) :
    start.1.regs.window peek (count + 1) =
      start.1.regs.row peek :: (Action.step.apply start).1.regs.window peek count :=
  window_succ_of_goes h.head count

theorem Followable.tail (h : Followable peek (count + 1) start) :
    Followable peek count (Action.step.apply start) := by
  intro k row hrow
  refine h (k + 1) row ?_
  rw [h.window_succ, List.getElem?_cons_succ]
  exact hrow

theorem Followable.nil : Followable peek 0 start := fun _ _ hrow => nomatch List.getElem?_nil.symm.trans hrow

/-- A window can be followed if its first row can, and then the window from the next step on. -/
theorem Followable.cons (hhead : (start.1.regs.row peek).Goes peek start)
    (htail : Followable peek count (Action.step.apply start)) : Followable peek (count + 1) start := by
  intro k row hrow
  rw [window_succ_of_goes hhead] at hrow
  cases k with
  | zero =>
    obtain rfl := Option.some.inj hrow
    exact hhead
  | succ k =>
    rw [List.getElem?_cons_succ] at hrow
    exact htail k row hrow

/-- A window can be followed if every step finds a row that can be executed in line. -/
theorem Followable.of_goes
    (h : ∀ k < count, ((afterSteps k start).1.regs.row peek).Goes peek (afterSteps k start)) :
    Followable peek count start := by
  induction count generalizing start with
  | zero => exact .nil
  | succ count ih =>
    have hhead := h 0 (Nat.zero_lt_succ count)
    have htail := ih fun k hk => h (k + 1) (Nat.succ_lt_succ hk)
    exact .cons hhead htail

/-- Each step executes its row. -/
theorem Followable.executed (h : Followable peek count start) {k : Nat} {row : Row}
    (hrow : (start.1.regs.window peek count)[k]? = some row) :
    ∃ pbr pc opcode, eventAt (afterSteps k start) = .executed pbr pc opcode ∧
      row.addr = Address.ofBank pbr pc ∧ row.bytes.head? = some opcode := by
  induction k generalizing start count with
  | zero =>
    cases count with
    | zero => cases hrow
    | succ count =>
      rw [h.window_succ] at hrow
      obtain rfl := Option.some.inj hrow
      exact ⟨_, _, _, (step_row h.head).1, start.1.regs.row_addr peek, rfl⟩
  | succ k ih =>
    cases count with
    | zero => cases hrow
    | succ count =>
      rw [h.window_succ, List.getElem?_cons_succ] at hrow
      exact ih h.tail hrow

/-- The widths are followed. -/
theorem Followable.listingWidths (h : Followable peek count start) :
    (afterSteps count start).1.regs.listingWidths =
      Row.widthsAfter (start.1.regs.window peek count) start.1.regs.listingWidths := by
  induction count generalizing start with
  | zero => rfl
  | succ count ih =>
    rw [afterSteps_succ, ih h.tail, h.window_succ, (step_row h.head).2.2]
    rfl

/-- A longer window goes on where the steps have led. -/
theorem Followable.window_add (h : Followable peek count start) (more : Nat) :
    start.1.regs.window peek (count + more) =
      start.1.regs.window peek count ++ (afterSteps count start).1.regs.window peek more := by
  induction count generalizing start with
  | zero => rw [Nat.zero_add]; rfl
  | succ count ih =>
    rw [afterSteps_succ, h.window_succ, List.cons_append, ← ih h.tail, Nat.add_right_comm]
    exact window_succ_of_goes h.head _

/-- The steps end behind the last row. -/
theorem Followable.programAddress (h : Followable peek count start) {last : Row}
    (hlast : (start.1.regs.window peek count).getLast? = some last) :
    (afterSteps count start).1.regs.programAddress = Address.advance last.addr (UInt16.ofNat last.length) := by
  induction count generalizing start with
  | zero => cases hlast
  | succ count ih =>
    rw [h.window_succ] at hlast
    cases count with
    | zero =>
      obtain rfl := Option.some.inj hlast
      exact (step_row h.head).2.1
    | succ count =>
      refine ih h.tail ?_
      rwa [h.tail.window_succ, List.getLast?_cons_cons, ← h.tail.window_succ] at hlast

/-- **A window is executed as it is listed**, as long as the code is straight: each step executes its row, the widths
are those that the listing assumes behind its last row, and the program goes on behind that row in the same bank. -/
theorem window_followed (peek : UInt32 → UInt8) (start : Cpu × μ) (count : Nat) (hcount : 0 < count)
    (hfollow : Followable peek count start) :
    let rows := start.1.regs.window peek count
    let final := (afterSteps count start).1.regs
    rows.length = count ∧
    (∀ (k : Nat) (row : Row), rows[k]? = some row → ∃ pbr pc opcode,
      eventAt (afterSteps k start) = .executed pbr pc opcode ∧ row.addr = Address.ofBank pbr pc ∧
        row.bytes.head? = some opcode) ∧
    final.listingWidths = Row.widthsAfter rows start.1.regs.listingWidths ∧
    (∃ last, rows.getLast? = some last ∧
      final.programAddress = Address.advance last.addr (UInt16.ofNat last.length)) ∧
    (∀ more, start.1.regs.window peek (count + more) = rows ++ final.window peek more) := by
  intro rows final
  have hlength : rows.length = count := Row.length_window peek _ _ count
  refine ⟨hlength, fun k row hrow => hfollow.executed hrow, hfollow.listingWidths, ?_, hfollow.window_add⟩
  have hne : rows ≠ [] := List.ne_nil_of_length_pos (hlength ▸ hcount)
  have hlast := List.getLast?_eq_some_getLast hne
  exact ⟨rows.getLast hne, hlast, hfollow.programAddress hlast⟩

end Windows

/-- Code that crosses the end of its bank, with a constant of two bytes after a mask. -/
theorem window_followed_wrap :
    let memory : FlatMemory := ⟨fun addr =>
      if addr = 0xFFFE then 0xC2 else if addr = 0xFFFF then 0x20 else if addr = 0 then 0xA9 else 0xEA⟩
    let cpu : Cpu := { regs := { pc := 0xFFFE, p := 0x30, emulation := false } }
    (cpu.regs.window memory.bytes 3).map Row.addr = [0xFFFE, 0x0000, 0x0003] ∧
      (afterSteps 3 (cpu, memory)).1.regs.programAddress = 4 := by
  intro memory cpu
  have hgoes : ∀ k < 3,
      let start := afterSteps k (cpu, memory)
      let row := start.1.regs.row memory.bytes
      start.1.runState = .running ∧ (eventAt start).task = .execute ∧
        row.addresses.map start.2.bytes = row.addresses.map memory.bytes ∧
        row.instruction.mnemonic.leavesLine = false ∧ row.instruction.mnemonic.branches start.1.regs = false := by
    decide +kernel
  have hfollow : Followable memory.bytes 3 (cpu, memory) := by
    refine .of_goes fun k hk => ?_
    obtain ⟨hrunning, htask, hshown, hstays, huntaken⟩ := hgoes k hk
    rw [List.map_inj_left] at hshown
    refine ⟨hrunning, ?_, fun addr haddr => Prod.ext (hshown addr haddr) rfl, hstays, huntaken⟩
    intro kind
    rw [Bool.eq_false_iff, ne_eq, StepEvent.enters_iff, htask]
    nofun
  obtain ⟨-, -, -, ⟨last, hlast, haddr⟩, -⟩ := window_followed memory.bytes (cpu, memory) 3 (by decide) hfollow
  have hplace : (cpu.regs.window memory.bytes 3).getLast?.map (fun row => (row.addr, row.length)) = some (3, 1) := by
    decide +kernel
  rw [hlast] at hplace
  obtain ⟨hlastAddr, hlastLength⟩ := Prod.mk.inj (Option.some.inj hplace)
  refine ⟨by decide +kernel, ?_⟩
  rw [haddr, hlastAddr, hlastLength]
  decide

end Emu816
