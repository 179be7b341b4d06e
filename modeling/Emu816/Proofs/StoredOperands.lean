import Emu816.Proofs.AddressRuns
import Emu816.Proofs.BlockMoves
import Emu816.Proofs.SaveRestore

/-!
# Storing a register and loading it again

The two instructions go to memory in different ways, one to write and the other to read, and each finds its operand on
its own, through a pointer perhaps. They find the same one, so the register comes back as it was.

- `Mode.pointerAddresses`, `Mode.placeIn`: where an operand lies if memory shows its pointer so; `Reaches.place_eq`:
  that is where an instruction finds it.
- `Microcode.ensures_store`, `Microcode.ensures_load`: what the two instructions do.
- `Stored`, `Stored.modes`: a register that can be stored and loaded, and the modes in which it can be both.
- `Ready.store`, `Ready.load`: a step on a memory.
- `StoresAndLoads`: a processor in front of a store and a load; `stored_register_reloaded`.
-/

namespace Emu816

/-! ## Bytes at a place -/

/-- A value that was written at a place is stored there. -/
theorem stored_split (contents : UInt32 → Option UInt8) (purpose : Purpose) (place : Place) (width : Width)
    (value : UInt16) :
    (place.addresses width.bytes).map (stored contents (cells .write purpose place (width.split value))) =
      (width.split value).map some := by
  cases width with
  | byte => simp [Width.bytes, Width.split, Place.addresses_succ, cells, stored]
  | word =>
    have hne := place.next_address_ne
    simp [Width.bytes, Width.split, Place.addresses_succ, cells, stored, hne.symm]

section Memory

variable {μ : Type} [Memory μ] {view : μ → UInt32 → UInt8} {seen kept : UInt32 → Prop} {memory after : μ}

/-- Bytes that are read at a place are what shows there. -/
theorem Sees.cells_eq (h : Sees view seen kept) {log : List Transfer} (hlog : Exchange memory log after)
    (hreads : ∀ t ∈ log, t.direction = .read) {purpose : Purpose} {place : Place} {bytes : List UInt8}
    (hmem : ∀ t ∈ cells .read purpose place bytes, t ∈ log) (hseen : ∀ addr ∈ place.addresses bytes.length, seen addr) :
    bytes = (place.addresses bytes.length).map (view memory) := by
  obtain ⟨-, hfound⟩ := h.of_reads hlog hreads
  have hplace : ∀ t ∈ cells .read purpose place bytes, t.byte = view memory t.addr := by
    intro t ht
    refine hfound t (hmem t ht) (hseen t.addr ?_)
    rw [← addr_cells .read purpose]
    exact List.mem_map_of_mem ht
  calc bytes = (cells .read purpose place bytes).map Transfer.byte := (byte_cells ..).symm
    _ = (cells .read purpose place bytes).map fun t => view memory t.addr := List.map_congr_left hplace
    _ = ((cells .read purpose place bytes).map Transfer.addr).map (view memory) := List.map_map.symm
    _ = (place.addresses bytes.length).map (view memory) := by rw [addr_cells]

/-! ## Operands that memory shows -/

/-- The addresses of the pointer of an operand. -/
def Mode.pointerAddresses (mode : Mode) (r : Registers) (operand : List UInt8) : List UInt32 :=
  (Place.bank0 (mode.anchor r operand)).addresses mode.pointerSize

/-- The place of an operand if memory shows its pointer so. -/
def Mode.placeIn (mode : Mode) (r : Registers) (operand : List UInt8) (shown : UInt32 → UInt8) : Place :=
  mode.place r operand ((mode.pointerAddresses r operand).map shown)

/-- **Where an instruction finds its operand**: its operand bytes and the pointer that memory shows lead there. -/
theorem Reaches.place_eq (hsees : Sees view seen kept) {opcode : UInt8} {mode : Mode} {r : Registers}
    {lead : List Transfer} {place : Place} (h : Reaches opcode mode r lead place) (hlog : Exchange memory lead after)
    {operand : List UInt8} (hlength : operand.length = mode.placeSize)
    (hshown : ∀ t ∈ fetches r (opcode :: operand), seen t.addr ∧ t.byte = view memory t.addr)
    (hpointer : ∀ addr ∈ mode.pointerAddresses r operand, seen addr) :
    place = mode.placeIn r operand (view memory) := by
  obtain ⟨fetched, pointer, hfetched, hsize, rfl, rfl⟩ := h
  have hcode : opcode :: fetched = opcode :: operand :=
    hsees.fetched_eq hlog (by rw [List.length_cons, List.length_cons, hfetched, hlength]) hshown
  obtain rfl := (List.cons.inj hcode).2
  have hreads := List.forall_mem_append.2 ⟨reading_fetches r (opcode :: fetched),
    direction_cells .read .pointer (.bank0 (mode.anchor r fetched)) pointer⟩
  have hpointed := hsees.cells_eq hlog hreads (fun t ht => List.mem_append_right _ ht) (by rw [hsize]; exact hpointer)
  rw [hsize] at hpointed
  rw [hpointed]
  rfl

end Memory

/-! ## Stores and loads -/

namespace Microcode

variable {mode : Mode} {r : Registers} (opcode : UInt8)

/-- A load takes its value from the operand. -/
theorem ensures_load (hmode : mode.placeSize ≠ 0) (group : RegisterClass) (effect : Registers → UInt16 → Registers) :
    (ofOperation mode (.load group effect)).Ensures (r.setPc (r.pc + 1)) fun log _ r' =>
      ∃ lead place bytes, Reaches opcode mode r lead place ∧ bytes.length = (r.widthOf group).bytes ∧
        ⟨.read, .code, r.programAddress, opcode⟩ :: transfers log = lead ++ cells .read .data place bytes ∧
        r' = effect (r.setPc (r.pc + UInt16.ofNat (mode.placeSize + 1))) ((r.widthOf group).join bytes) := by
  have hplace : ¬(mode = .immediate ∨ mode = .immediateIndex) := by
    rintro (rfl | rfl)
    · exact hmode rfl
    · exact hmode rfl
  simp only [ofOperation, ensures_bind, ensures_get, ensures_modify, List.nil_append, List.append_nil,
    Registers.setPc_widthOf]
  rw [readOperand_of_place hplace, ensures_bind]
  refine (ensures_resolve_reaches opcode hmode .read).mono ?_
  rintro log place r' ⟨hreaches, rfl⟩
  refine (ensures_readAt_cells place _).mono ?_
  rintro log' value _ ⟨bytes, hlength, hreads, rfl, rfl⟩
  refine ⟨_, place, bytes, hreaches, hlength, ?_, rfl⟩
  rw [transfers_append, hreads]
  rfl

end Microcode

/-- The result bits tell of the value. -/
theorem Registers.flag_setResult (r : Registers) (value : UInt16) (width : Width) :
    (r.setResult value width).flag Status.zero = (value &&& width.mask == 0) ∧
      (r.setResult value width).flag Status.negative = (value &&& width.signBit != 0) := by
  simp only [setResult, setNegative, setZero, setFlag, flag, setP_p]
  generalize (value &&& width.mask == 0) = zero
  generalize (value &&& width.signBit != 0) = negative
  exact forall_byte
    (P := fun p => ∀ zero negative : Bool,
      let zeroed := if zero then p ||| Status.zero else p &&& ~~~Status.zero
      let result := if negative then zeroed ||| Status.negative else zeroed &&& ~~~Status.negative
      (result &&& Status.zero == Status.zero) = zero ∧ (result &&& Status.negative == Status.negative) = negative)
    (by decide +kernel) r.p zero negative

/-- A register that can be stored in memory and loaded from there. -/
inductive Stored where
  | a | x | y
  deriving DecidableEq

namespace Stored

/-- The instruction that stores the register. -/
def storeMnemonic : Stored → Mnemonic
  | a => .sta
  | x => .stx
  | y => .sty

/-- The instruction that loads it. -/
def loadMnemonic : Stored → Mnemonic
  | a => .lda
  | x => .ldx
  | y => .ldy

/-- Its register group. -/
def group : Stored → RegisterClass
  | a => .accumulator
  | x | y => .index

/-- The register as one that can be saved on the stack too. -/
def saved : Stored → Saved
  | a => .a
  | x => .x
  | y => .y

/-- The addressing modes that its two instructions share, with the opcodes of the store and of the load. -/
def opcodes : Stored → List (Mode × UInt8 × UInt8)
  | a => [(.direct, 0x85, 0xA5), (.directX, 0x95, 0xB5), (.directIndirect, 0x92, 0xB2),
      (.directIndirectLong, 0x87, 0xA7), (.directXIndirect, 0x81, 0xA1), (.directIndirectY, 0x91, 0xB1),
      (.directIndirectLongY, 0x97, 0xB7), (.absolute, 0x8D, 0xAD), (.absoluteX, 0x9D, 0xBD),
      (.absoluteY, 0x99, 0xB9), (.absoluteLong, 0x8F, 0xAF), (.absoluteLongX, 0x9F, 0xBF),
      (.stackRelative, 0x83, 0xA3), (.stackRelativeIndirectY, 0x93, 0xB3)]
  | x => [(.direct, 0x86, 0xA6), (.directY, 0x96, 0xB6), (.absolute, 0x8E, 0xAE)]
  | y => [(.direct, 0x84, 0xA4), (.directX, 0x94, 0xB4), (.absolute, 0x8C, 0xAC)]

/-- These modes. -/
def modes (register : Stored) : List Mode := register.opcodes.map Prod.fst

theorem operation_store (register : Stored) (mode : Mode) :
    Instruction.operation ⟨register.storeMnemonic, mode⟩ = .store register.group register.saved.value := by
  cases register <;> rfl

theorem operation_load (register : Stored) (mode : Mode) :
    Instruction.operation ⟨register.loadMnemonic, mode⟩ = .load register.group register.saved.restore := by
  cases register <;> rfl

theorem widthOf_group (register : Stored) (r : Registers) : r.widthOf register.group = register.saved.width r := by
  cases register <;> rfl

/-- The modes are those that both instructions have. -/
theorem mem_modes_iff {register : Stored} {mode : Mode} :
    mode ∈ register.modes ↔ ∃ storeOpcode loadOpcode : UInt8,
      Instruction.decode storeOpcode = ⟨register.storeMnemonic, mode⟩ ∧
        Instruction.decode loadOpcode = ⟨register.loadMnemonic, mode⟩ := by
  constructor
  · intro h
    obtain ⟨⟨mode, storeOpcode, loadOpcode⟩, hentry, rfl⟩ := List.mem_map.1 h
    have hall : ∀ entry ∈ register.opcodes,
        Instruction.decode entry.2.1 = ⟨register.storeMnemonic, entry.1⟩ ∧
          Instruction.decode entry.2.2 = ⟨register.loadMnemonic, entry.1⟩ := by
      cases register <;> decide +kernel
    exact ⟨storeOpcode, loadOpcode, hall _ hentry⟩
  · -- all modes of a store are modes of the load
    rintro ⟨storeOpcode, loadOpcode, hstore, -⟩
    have hall : (Instruction.decode storeOpcode).mnemonic = register.storeMnemonic →
        (Instruction.decode storeOpcode).mode ∈ register.modes :=
      forall_byte
        (P := fun opcode => (Instruction.decode opcode).mnemonic = register.storeMnemonic →
          (Instruction.decode opcode).mode ∈ register.modes)
        (by cases register <;> decide +kernel) storeOpcode
    rw [hstore] at hall
    exact hall rfl

/-- The operands of these modes lie in memory. -/
theorem placeSize_of_mem {register : Stored} {mode : Mode} (h : mode ∈ register.modes) : mode.placeSize ≠ 0 := by
  have hall : ∀ mode ∈ register.modes, mode.placeSize ≠ 0 := by cases register <;> decide
  exact hall mode h

/-- Under the mode rules the register lies within its width. -/
theorem value_and_mask (register : Stored) {r : Registers} (hr : r.WellModed) :
    register.saved.value r &&& (register.saved.width r).mask = register.saved.value r := by
  cases register with
  | a =>
    show r.a &&& r.accumulatorWidth.mask &&& r.accumulatorWidth.mask = r.a &&& r.accumulatorWidth.mask
    rw [UInt16.and_assoc, UInt16.and_self]
  | x => exact hr.and_mask.1
  | y => exact hr.and_mask.2

/-- A load sets the result bits. -/
theorem flag_restore (register : Stored) (r : Registers) (value : UInt16) :
    (register.saved.restore r value).flag Status.zero = (value &&& (register.saved.width r).mask == 0) ∧
      (register.saved.restore r value).flag Status.negative =
        (value &&& (register.saved.width r).signBit != 0) := by
  cases register <;> exact Registers.flag_setResult _ _ _

/-- A register that is loaded with its own value stays as it is, and so does everything but the result bits. -/
theorem restore_self (register : Stored) {r : Registers} (hr : r.WellModed) :
    let r' := register.saved.restore r (register.saved.value r)
    r' = { r with p := r'.p } ∧ r'.p &&& ~~~Status.result = r.p &&& ~~~Status.result := by
  intro r'
  have hsaved : register.saved ≠ .p := by cases register <;> decide
  have hchanges : Changes { status := Status.result } r r' := by
    have hself := register.saved.changes_restore_self hr hsaved
    rwa [register.value_and_mask hr] at hself
  have hs : r'.s = r.s := UInt16.toNat_inj.1 ((hchanges hr).2.registers .s (by decide))
  obtain ⟨-, hcovers⟩ := Saved.changes_of_result hchanges hr
  refine ⟨?_, hcovers.status⟩
  have heq := Saved.eq_of_covers hcovers
  rwa [hs, register.saved.restore_pc] at heq

/-- The addresses of the operand, as long as the register is wide, if memory shows its pointer so. -/
def target (register : Stored) (mode : Mode) (r : Registers) (operand : List UInt8) (shown : UInt32 → UInt8) :
    List UInt32 :=
  (mode.placeIn r operand shown).addresses (register.saved.width r).bytes

end Stored

/-! ## Steps -/

section Memory

variable {μ : Type} [Memory μ] {view : μ → UInt32 → UInt8} {seen kept : UInt32 → Prop} {start : Cpu × μ}
  {register : Stored} {mode : Mode} {opcode : UInt8} {operand code : List UInt8}

/-- **A step that stores** writes the bytes of the register at the operand and changes nothing else. -/
theorem Ready.store (hsees : Sees view seen kept) (h : Ready view seen start ((opcode :: operand) ++ code))
    (hdecode : Instruction.decode opcode = ⟨register.storeMnemonic, mode⟩) (hmode : mode.placeSize ≠ 0)
    (hlength : operand.length = mode.placeSize)
    (hpointer : ∀ addr ∈ mode.pointerAddresses start.1.regs operand, seen addr)
    (htarget : ∀ addr ∈ register.target mode start.1.regs operand (view start.2),
      kept addr ∧ ∀ fetch ∈ fetches start.1.regs ((opcode :: operand) ++ code), addr ≠ fetch.addr) :
    let r := start.1.regs
    let target := register.target mode r operand (view start.2)
    let after := Action.step.apply start
    eventAt start = .executed r.pbr r.pc opcode ∧ after.1.regs = r.setPc (r.pc + UInt16.ofNat (operand.length + 1)) ∧
    Ready view seen after code ∧ target.map (view after.2) = register.saved.bytes r ∧
    ∀ cell, seen cell → cell ∉ target → view after.2 cell = view start.2 cell := by
  intro r target after
  have hstore := Microcode.ensures_store (r := r) opcode hmode register.group register.saved.value
  rw [← register.operation_store mode, register.widthOf_group, register.saved.value_setPc] at hstore
  obtain ⟨rest, hevent, hexchange, ⟨lead, place, hreaches, hlog, hregs⟩, hrun⟩ := h.step hsees hdecode
    (fun log r' => ∃ lead place, Reaches opcode mode r lead place ∧
      ⟨.read, .code, r.programAddress, opcode⟩ :: log =
        lead ++ cells .write .data place (register.saved.bytes r) ∧
      r' = r.setPc (r.pc + UInt16.ofNat (mode.placeSize + 1))) hstore
  rw [hlog] at hexchange
  have hshown : ∀ t ∈ fetches r (opcode :: operand), seen t.addr ∧ t.byte = view start.2 t.addr := by
    intro t ht
    refine h.shown t ?_
    rw [fetches_append]
    exact List.mem_append_left _ ht
  obtain ⟨between, hlead, -⟩ := hexchange.split
  obtain rfl := hreaches.place_eq hsees hlead hlength hshown hpointer
  -- the writes are at the operand
  have hwritten : ∀ t ∈ lead ++ cells .write .data (mode.placeIn r operand (view start.2)) (register.saved.bytes r),
      t.direction = .write → t.addr ∈ target := by
    intro t ht hwrite
    rcases List.mem_append.1 ht with ht | ht
    · cases (hreaches.reading t ht).symm.trans hwrite
    · have haddr := List.mem_map_of_mem (f := Transfer.addr) ht
      rwa [addr_cells, register.saved.length_bytes] at haddr
  have hkept : ∀ t ∈ lead ++ cells .write .data (mode.placeIn r operand (view start.2)) (register.saved.bytes r),
      t.direction = .write → kept t.addr := fun t ht hwrite => (htarget _ (hwritten t ht hwrite)).1
  rw [← hlength] at hregs
  refine ⟨hevent, hregs, ?_, ?_, ?_⟩
  · refine Ready.behind hsees (opcode :: operand) h hexchange
      (fun t ht hwrite => htarget _ (hwritten t ht hwrite)) ?_ ?_ ?_ ?_
    · rw [hrun, register.operation_store]
      rfl
    · rw [hregs]
      rfl
    · rw [hregs]
      rfl
    · rw [hregs]
      rfl
  · have hknown := (hsees.exchange hexchange hkept (known_none view seen start.2)).2
    rw [stored_append] at hknown
    exact hknown.map_view (stored_split _ _ _ _ _)
  · intro cell hcell hother
    refine hsees.view_of_ne hexchange hkept hcell ?_
    rintro t ht hwrite rfl
    exact hother (hwritten t ht hwrite)

/-- **A step that loads** takes the register from the operand and changes no memory. -/
theorem Ready.load (hsees : Sees view seen kept) (h : Ready view seen start (opcode :: operand))
    (hdecode : Instruction.decode opcode = ⟨register.loadMnemonic, mode⟩) (hmode : mode.placeSize ≠ 0)
    (hlength : operand.length = mode.placeSize)
    (hpointer : ∀ addr ∈ mode.pointerAddresses start.1.regs operand, seen addr)
    (htarget : ∀ addr ∈ register.target mode start.1.regs operand (view start.2), seen addr) :
    let r := start.1.regs
    let target := register.target mode r operand (view start.2)
    let after := Action.step.apply start
    eventAt start = .executed r.pbr r.pc opcode ∧
    after.1.regs = register.saved.restore (r.setPc (r.pc + UInt16.ofNat (operand.length + 1)))
      ((register.saved.width r).join (target.map (view start.2))) ∧
    ∀ cell, seen cell → view after.2 cell = view start.2 cell := by
  intro r target after
  have hload := Microcode.ensures_load (r := r) opcode hmode register.group register.saved.restore
  rw [← register.operation_load mode, register.widthOf_group] at hload
  obtain ⟨rest, hevent, hexchange, ⟨lead, place, bytes, hreaches, hbytes, hlog, hregs⟩, -⟩ := h.step hsees hdecode
    (fun log r' => ∃ lead place bytes,
      Reaches opcode mode r lead place ∧ bytes.length = (register.saved.width r).bytes ∧
      ⟨.read, .code, r.programAddress, opcode⟩ :: log = lead ++ cells .read .data place bytes ∧
      r' = register.saved.restore (r.setPc (r.pc + UInt16.ofNat (mode.placeSize + 1)))
        ((register.saved.width r).join bytes)) hload
  rw [hlog] at hexchange
  obtain ⟨between, hlead, -⟩ := hexchange.split
  obtain rfl := hreaches.place_eq hsees hlead hlength h.shown hpointer
  have hreads : ∀ t ∈ lead ++ cells .read .data (mode.placeIn r operand (view start.2)) bytes, t.direction = .read :=
    List.forall_mem_append.2 ⟨hreaches.reading, direction_cells .read _ _ _⟩
  have hfound : bytes = target.map (view start.2) := by
    have hcells := hsees.cells_eq hexchange hreads (fun t ht => List.mem_append_right _ ht)
      (by rw [hbytes]; exact htarget)
    rwa [hbytes] at hcells
  rw [hfound, ← hlength] at hregs
  exact ⟨hevent, hregs, (hsees.of_reads hexchange hreads).1⟩

/-- The processor is about to store a register and to load it again from the same operand. The bytes where it goes keep
what is written, and are none of the code and of the pointer. -/
structure StoresAndLoads (view : μ → UInt32 → UInt8) (seen kept : UInt32 → Prop) (start : Cpu × μ) (register : Stored)
    (mode : Mode) (storeOpcode loadOpcode : UInt8) (operand : List UInt8) : Prop where
  wellModed : start.1.regs.WellModed
  stores : Instruction.decode storeOpcode = ⟨register.storeMnemonic, mode⟩
  loads : Instruction.decode loadOpcode = ⟨register.loadMnemonic, mode⟩
  length : operand.length = mode.placeSize
  ready : Ready view seen start ((storeOpcode :: operand) ++ (loadOpcode :: operand))
  pointer : ∀ addr ∈ mode.pointerAddresses start.1.regs operand, seen addr
  target : ∀ addr ∈ register.target mode start.1.regs operand (view start.2),
    kept addr ∧ addr ∉ mode.pointerAddresses start.1.regs operand ∧
      ∀ fetch ∈ fetches start.1.regs ((storeOpcode :: operand) ++ (loadOpcode :: operand)), addr ≠ fetch.addr

/-- **A register that is stored is what is loaded from there**, in all modes that the two instructions share: both find
the same operand, and afterwards the registers are what they were, but for the program counter and the result bits,
which tell of the register. The operand holds the bytes of the register, and no other memory has changed. -/
theorem stored_register_reloaded (hsees : Sees view seen kept) (register : Stored) :
    (∀ mode, mode ∈ register.modes ↔ ∃ storeOpcode loadOpcode : UInt8,
      Instruction.decode storeOpcode = ⟨register.storeMnemonic, mode⟩ ∧
        Instruction.decode loadOpcode = ⟨register.loadMnemonic, mode⟩) ∧
    ∀ start mode storeOpcode loadOpcode operand,
      StoresAndLoads view seen kept start register mode storeOpcode loadOpcode operand →
      let r := start.1.regs
      let target := register.target mode r operand (view start.2)
      let final := afterSteps 2 start
      Executes start [storeOpcode, loadOpcode] ∧
      final.1.regs = { r with p := final.1.regs.p, pc := r.pc + UInt16.ofNat (2 * (operand.length + 1)) } ∧
      final.1.regs.p &&& ~~~Status.result = r.p &&& ~~~Status.result ∧
      final.1.regs.flag Status.zero = (register.saved.value r == 0) ∧
      final.1.regs.flag Status.negative = (register.saved.value r &&& (register.saved.width r).signBit != 0) ∧
      target.map (view final.2) = register.saved.bytes r ∧
      ∀ cell, seen cell → cell ∉ target → view final.2 cell = view start.2 cell := by
  refine ⟨fun mode => Stored.mem_modes_iff, ?_⟩
  intro start mode storeOpcode loadOpcode operand h r target final
  let mid := Action.step.apply start
  have hmode : mode.placeSize ≠ 0 :=
    Stored.placeSize_of_mem (Stored.mem_modes_iff.2 ⟨storeOpcode, loadOpcode, h.stores, h.loads⟩)
  obtain ⟨hstored, hregs, hready, hbytes, hothers⟩ := h.ready.store hsees h.stores hmode h.length h.pointer
    fun addr haddr => ⟨(h.target addr haddr).1, (h.target addr haddr).2.2⟩
  -- the load finds the pointer that the store has found, and so the same operand
  have hpointer : mode.pointerAddresses mid.1.regs operand = mode.pointerAddresses r operand := by
    rw [hregs, Mode.pointerAddresses, Mode.anchor_setPc]
    rfl
  have hpointed : (mode.pointerAddresses r operand).map (view mid.2) =
      (mode.pointerAddresses r operand).map (view start.2) :=
    List.map_congr_left fun addr haddr =>
      hothers addr (h.pointer addr haddr) fun hin => (h.target addr hin).2.1 haddr
  have htarget : register.target mode mid.1.regs operand (view mid.2) = target := by
    rw [Stored.target, Mode.placeIn, hpointer, hpointed, hregs, Mode.place_setPc hmode, register.saved.width_setPc]
    rfl
  have hseen : ∀ addr ∈ register.target mode mid.1.regs operand (view mid.2), seen addr := by
    rw [htarget]
    exact fun addr haddr => hsees.kept_cells addr (h.target addr haddr).1
  obtain ⟨hloaded, hregs', hothers'⟩ := hready.load hsees h.loads hmode h.length
    (by rw [hpointer]; exact h.pointer) hseen
  have hvalue : (register.saved.width mid.1.regs).join (target.map (view mid.2)) = register.saved.value r := by
    rw [hbytes, Saved.bytes, hregs, register.saved.width_setPc, Width.join_split, register.value_and_mask h.wellModed]
  have hpc : mid.1.regs.pc + UInt16.ofNat (operand.length + 1) = r.pc + UInt16.ofNat (2 * (operand.length + 1)) := by
    rw [hregs, Registers.setPc_pc, Nat.two_mul, UInt16.ofNat_add (operand.length + 1), UInt16.add_assoc]
  rw [htarget, hvalue, hpc, hregs, Registers.setPc_setPc] at hregs'
  change final.1.regs = _ at hregs'
  have hbehind := (Registers.sameMode_setPc r (r.pc + UInt16.ofNat (2 * (operand.length + 1)))).2 h.wellModed
  obtain ⟨hself, hstatus⟩ := register.restore_self hbehind
  obtain ⟨hzero, hnegative⟩ := register.flag_restore (r.setPc (r.pc + UInt16.ofNat (2 * (operand.length + 1))))
    (register.saved.value r)
  rw [register.saved.value_setPc, ← hregs'] at hself hstatus
  rw [← hregs', register.saved.width_setPc] at hzero hnegative
  rw [register.value_and_mask h.wellModed] at hzero
  refine ⟨⟨hstored, hloaded, trivial⟩, hself, hstatus, hzero, hnegative, ?_, ?_⟩
  · rw [← hbytes]
    exact List.map_congr_left fun addr haddr => hothers' addr (hsees.kept_cells _ (h.target addr haddr).1)
  · intro cell hcell hother
    exact (hothers' cell hcell).trans (hothers cell hcell hother)

end Memory

/-- A word that goes on into the next bank, behind a pointer that goes round the end of bank 0. -/
theorem stored_register_reloaded_wrap :
    let memory : FlatMemory := ⟨fun addr =>
      if addr = 0xFFFF then 0xFE else if addr = 0 then 0xFF
      else [0x91, 0x10, 0xB1, 0x10].getD (addr.toNat - 0x018000) 0⟩
    let cpu : Cpu :=
      { regs := { a := 0x8001, y := 1, d := 0xFFEF, pc := 0x8000, pbr := 1, dbr := 0x7E, p := 0, emulation := false } }
    let final := afterSteps 2 (cpu, memory)
    StoresAndLoads FlatMemory.bytes (fun _ => True) (fun _ => True) (cpu, memory) .a .directIndirectY 0x91 0xB1 [0x10] ∧
    Executes (cpu, memory) [0x91, 0xB1] ∧ (final.1.regs.a = 0x8001 ∧ final.1.regs.pc = 0x8004) ∧
    final.1.regs.flag Status.negative = true ∧ [0x7EFFFF, 0x7F0000].map final.2.bytes = [0x01, 0x80] ∧
    final.2.bytes 0xFFFF = 0xFE := by
  intro memory cpu final
  have htarget : Stored.a.target .directIndirectY cpu.regs [0x10] memory.bytes = [0x7EFFFF, 0x7F0000] := by decide
  have h : StoresAndLoads FlatMemory.bytes (fun _ => True) (fun _ => True) (cpu, memory) .a .directIndirectY 0x91 0xB1
      [0x10] := by
    refine ⟨⟨by decide, by decide⟩, by decide, by decide, rfl, ⟨by decide, ?_⟩, fun _ _ => trivial, ?_⟩
    · exact fun t ht => ⟨trivial, by revert t; decide⟩
    · rw [htarget, List.forall_mem_cons, List.forall_mem_singleton]
      exact ⟨⟨trivial, by decide⟩, trivial, by decide⟩
  obtain ⟨hexecutes, hregs, -, -, hnegative, hbytes, hothers⟩ :=
    (stored_register_reloaded FlatMemory.sees .a).2 _ _ _ _ _ h
  have hstored : Stored.a.saved.bytes cpu.regs = [0x01, 0x80] := by decide
  have hsign : (Stored.a.saved.value cpu.regs &&& (Stored.a.saved.width cpu.regs).signBit != 0) = true := by decide
  rw [show afterSteps 2 (cpu, memory) = final from rfl] at hregs hnegative hbytes hothers
  clear_value final
  rw [htarget] at hbytes hothers
  exact ⟨h, hexecutes, ⟨congrArg Registers.a hregs, congrArg Registers.pc hregs⟩, hnegative.trans hsign,
    hbytes.trans hstored, hothers 0xFFFF trivial (by decide)⟩

end Emu816
