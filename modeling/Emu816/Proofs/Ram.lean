import Emu816.Bus.Basic
import Emu816.Proofs.Courses
import Emu816.Proofs.Words

/-!
# Cells that keep what is written

The memory of a processor is anything that answers reads and takes writes, so a push and a pull need not fit together.
They do at cells of RAM, which the processor can tell by the transfers alone.

- `Coherent`: the reads of some transfers find what the writes before them left; `stored`: what they leave behind.
- `Ram`: cells whose transfers are coherent, whatever is read elsewhere.
- `Sees`: a view of the memory that shows what some cells hold; `Sees.of_reads`, `Sees.exchange`, `Sees.view_of_ne`: what
  an exchange makes of it.
- `ram_of_view`: cells that a view sees and that keep what is written are RAM; `FlatMemory.ram`, `Bus.ram_low` are such
  cells.
-/

namespace Emu816

/-- Every read finds what was written last, as far as `contents` and the transfers before it tell. -/
def Coherent : (UInt32 → Option UInt8) → List Transfer → Prop
  | _, [] => True
  | contents, ⟨.read, _, addr, byte⟩ :: rest =>
    (∀ kept, contents addr = some kept → byte = kept) ∧ Coherent contents rest
  | contents, ⟨.write, _, addr, byte⟩ :: rest =>
    Coherent (fun cell => if cell = addr then some byte else contents cell) rest

/-- Reads leave the contents as they are. -/
theorem Coherent.of_reads {contents : UInt32 → Option UInt8} {reads rest : List Transfer}
    (h : Coherent contents (reads ++ rest)) (hreads : ∀ t ∈ reads, t.direction = .read) : Coherent contents rest := by
  induction reads with
  | nil => exact h
  | cons t reads ih =>
    obtain ⟨direction, purpose, addr, byte⟩ := t
    obtain rfl : direction = .read := hreads _ List.mem_cons_self
    exact ih h.2 fun t ht => hreads t (List.mem_cons_of_mem _ ht)

/-- What is known of the cells after some transfers. -/
def stored (contents : UInt32 → Option UInt8) : List Transfer → UInt32 → Option UInt8
  | [] => contents
  | ⟨.read, _, _, _⟩ :: rest => stored contents rest
  | ⟨.write, _, addr, byte⟩ :: rest => stored (fun cell => if cell = addr then some byte else contents cell) rest

/-- Only writes change what is known. -/
theorem stored_writes (contents : UInt32 → Option UInt8) (log : List Transfer) :
    stored contents (log.filter (·.direction = .write)) = stored contents log := by
  induction log generalizing contents with
  | nil => rfl
  | cons t log ih =>
    obtain ⟨direction, purpose, addr, byte⟩ := t
    cases direction with
    | read => exact ih contents
    | write => exact ih _

theorem stored_append (contents : UInt32 → Option UInt8) (first second : List Transfer) :
    stored contents (first ++ second) = stored (stored contents first) second := by
  induction first generalizing contents with
  | nil => rfl
  | cons t first ih =>
    obtain ⟨direction, purpose, addr, byte⟩ := t
    cases direction with
    | read => exact ih contents
    | write => exact ih _

/-- What is known of a cell to which nothing is written stays known. -/
theorem stored_of_ne {contents : UInt32 → Option UInt8} {log : List Transfer} {cell : UInt32}
    (h : ∀ t ∈ log, t.direction = .write → t.addr ≠ cell) : stored contents log cell = contents cell := by
  induction log generalizing contents with
  | nil => rfl
  | cons t log ih =>
    obtain ⟨hfirst, hrest⟩ := List.forall_mem_cons.1 h
    obtain ⟨direction, purpose, addr, byte⟩ := t
    cases direction with
    | read => exact ih hrest
    | write => exact (ih hrest).trans (if_neg (hfirst rfl).symm)

/-- What is known afterwards was known before or was written. -/
theorem stored_eq_some {contents : UInt32 → Option UInt8} {log : List Transfer} {cell : UInt32} {byte : UInt8}
    (h : stored contents log cell = some byte) :
    contents cell = some byte ∨ ∃ t ∈ log, t.direction = .write ∧ t.addr = cell := by
  induction log generalizing contents with
  | nil => exact .inl h
  | cons t log ih =>
    obtain ⟨direction, purpose, addr, written⟩ := t
    cases direction with
    | read =>
      rcases ih h with hbefore | ⟨t, ht, hwrite⟩
      · exact .inl hbefore
      · exact .inr ⟨t, List.mem_cons_of_mem _ ht, hwrite⟩
    | write =>
      rcases ih h with hbefore | ⟨t, ht, hwrite⟩
      · by_cases hsame : cell = addr
        · exact .inr ⟨_, List.mem_cons_self, rfl, hsame.symm⟩
        · exact .inl ((if_neg hsame).symm.trans hbefore)
      · exact .inr ⟨t, List.mem_cons_of_mem _ ht, hwrite⟩

/-- What comes after some transfers is coherent with what they leave behind. -/
theorem Coherent.append_right {contents : UInt32 → Option UInt8} {first rest : List Transfer}
    (h : Coherent contents (first ++ rest)) : Coherent (stored contents first) rest := by
  induction first generalizing contents with
  | nil => exact h
  | cons t first ih =>
    obtain ⟨direction, purpose, addr, byte⟩ := t
    cases direction with
    | read => exact ih h.2
    | write => exact ih h

section Ram

variable {μ : Type} [Memory μ]

/-- As long as nothing else is written, the cells give back what was written to them last. -/
def Ram (memory : μ) (cells : UInt32 → Prop) : Prop :=
  ∀ log after, Exchange memory log after → (∀ t ∈ log, t.direction = .write → cells t.addr) →
    Coherent (fun _ => none) log

/-- Fewer cells of RAM are RAM. -/
theorem Ram.mono {memory : μ} {cells fewer : UInt32 → Prop} (h : Ram memory cells)
    (himp : ∀ addr, fewer addr → cells addr) : Ram memory fewer :=
  fun log after hlog hwrites => h log after hlog fun t ht hwrite => himp _ (hwrites t ht hwrite)

/-! ## Views of a memory -/

/-- A view of a memory shows what some cells hold: reads find it and leave it as it is, and a write to one of the cells
that are `kept` changes that cell alone. -/
structure Sees (view : μ → UInt32 → UInt8) (cells kept : UInt32 → Prop) : Prop where
  kept_cells : ∀ addr, kept addr → cells addr
  read : ∀ memory cell, cells cell → (Memory.read memory cell).1 = view memory cell
  keep : ∀ memory addr cell, cells cell → view (Memory.read memory addr).2 cell = view memory cell
  write : ∀ memory addr byte cell, kept addr → cells cell →
    view (Memory.write memory addr byte) cell = if cell = addr then byte else view memory cell

section Sees

variable {view : μ → UInt32 → UInt8} {cells kept : UInt32 → Prop} {memory after : μ} {log : List Transfer}

/-- Reads find what the view shows, and leave the view as it is. -/
theorem Sees.of_reads (h : Sees view cells kept) (hlog : Exchange memory log after)
    (hreads : ∀ t ∈ log, t.direction = .read) :
    (∀ cell, cells cell → view after cell = view memory cell) ∧
      ∀ t ∈ log, cells t.addr → t.byte = view memory t.addr := by
  induction log generalizing memory with
  | nil =>
    cases hlog
    exact ⟨fun _ _ => rfl, nofun⟩
  | cons t log ih =>
    obtain ⟨direction, purpose, addr, byte⟩ := t
    obtain rfl : direction = .read := hreads _ List.mem_cons_self
    obtain ⟨hbyte, hlog⟩ := hlog
    obtain ⟨hview, hfound⟩ := ih hlog fun t ht => hreads t (List.mem_cons_of_mem _ ht)
    refine ⟨fun cell hcell => (hview cell hcell).trans (h.keep memory addr cell hcell), ?_⟩
    intro t ht hcell
    rcases List.mem_cons.1 ht with rfl | ht
    · exact hbyte.symm.trans (h.read memory addr hcell)
    · exact (hfound t ht hcell).trans (h.keep memory addr _ hcell)

/-- A write after some reads changes what the view shows of its cell. -/
theorem Sees.of_reads_write (h : Sees view cells kept) {purpose : Purpose} {addr : UInt32} {byte : UInt8}
    (hlog : Exchange memory (log ++ [⟨.write, purpose, addr, byte⟩]) after) (hreads : ∀ t ∈ log, t.direction = .read)
    (haddr : kept addr) :
    (∀ t ∈ log, cells t.addr → t.byte = view memory t.addr) ∧
      ∀ cell, cells cell → view after cell = if cell = addr then byte else view memory cell := by
  obtain ⟨between, hread, rfl⟩ := hlog.split
  obtain ⟨hview, hfound⟩ := h.of_reads hread hreads
  refine ⟨hfound, fun cell hcell => ?_⟩
  rw [h.write between addr byte cell haddr hcell, hview cell hcell]

/-- The cells hold what is known of them. -/
def Known (view : μ → UInt32 → UInt8) (cells : UInt32 → Prop) (memory : μ) (contents : UInt32 → Option UInt8) : Prop :=
  ∀ cell byte, contents cell = some byte → cells cell ∧ view memory cell = byte

omit [Memory μ] in
/-- At first nothing is known. -/
theorem known_none (view : μ → UInt32 → UInt8) (cells : UInt32 → Prop) (memory : μ) :
    Known view cells memory fun _ => none := nofun

omit [Memory μ] in
/-- What is known of some addresses is what shows there. -/
theorem Known.map_view {contents : UInt32 → Option UInt8} (h : Known view cells memory contents) {addrs : List UInt32}
    {bytes : List UInt8} (hbytes : addrs.map contents = bytes.map some) : addrs.map (view memory) = bytes := by
  induction addrs generalizing bytes with
  | nil =>
    rw [List.map_nil, eq_comm, List.map_eq_nil_iff] at hbytes
    exact hbytes.symm
  | cons addr addrs ih =>
    obtain ⟨byte, bytes, rfl, hbyte, hrest⟩ := List.map_eq_cons_iff.1 hbytes.symm
    rw [List.map_cons, ih hrest.symm, (h addr byte hbyte.symm).2]

/-- A read leaves what is known. -/
theorem Known.read (h : Sees view cells kept) {contents : UInt32 → Option UInt8}
    (hknown : Known view cells memory contents) (addr : UInt32) :
    Known view cells (Memory.read memory addr).2 contents := by
  intro cell byte hbyte
  obtain ⟨hcell, hview⟩ := hknown cell byte hbyte
  exact ⟨hcell, by rw [h.keep memory addr cell hcell, hview]⟩

/-- A write adds to what is known. -/
theorem Known.write (h : Sees view cells kept) {contents : UInt32 → Option UInt8}
    (hknown : Known view cells memory contents) {addr : UInt32} (haddr : kept addr) (byte : UInt8) :
    Known view cells (Memory.write memory addr byte) fun cell => if cell = addr then some byte else contents cell := by
  intro cell known hbyte
  replace hbyte : (if cell = addr then some byte else contents cell) = some known := hbyte
  by_cases hsame : cell = addr
  · subst hsame
    rw [if_pos rfl, Option.some.injEq] at hbyte
    have hcell := h.kept_cells cell haddr
    exact ⟨hcell, by rw [h.write memory cell byte cell haddr hcell, if_pos rfl, hbyte]⟩
  · rw [if_neg hsame] at hbyte
    obtain ⟨hcell, hview⟩ := hknown cell known hbyte
    exact ⟨hcell, by rw [h.write memory addr byte cell haddr hcell, if_neg hsame, hview]⟩

/-- **Along an exchange the view tells what is found and what is left**: the reads are coherent with what is known, and
afterwards the cells hold what was stored. -/
theorem Sees.exchange (h : Sees view cells kept) (hlog : Exchange memory log after)
    (hwrites : ∀ t ∈ log, t.direction = .write → kept t.addr) {contents : UInt32 → Option UInt8}
    (hknown : Known view cells memory contents) :
    Coherent contents log ∧ Known view cells after (stored contents log) := by
  induction log generalizing memory contents with
  | nil =>
    cases hlog
    exact ⟨trivial, hknown⟩
  | cons t log ih =>
    have hrest : ∀ t ∈ log, t.direction = .write → kept t.addr :=
      fun t ht => hwrites t (List.mem_cons_of_mem _ ht)
    obtain ⟨direction, purpose, addr, byte⟩ := t
    cases direction with
    | read =>
      obtain ⟨hbyte, hlog⟩ := hlog
      obtain ⟨hcoherent, hleft⟩ := ih hlog hrest (hknown.read h addr)
      refine ⟨⟨?_, hcoherent⟩, hleft⟩
      intro found hfound
      obtain ⟨hcell, hview⟩ := hknown addr found hfound
      rw [← hbyte, h.read memory addr hcell, hview]
    | write => exact ih hlog hrest (hknown.write h (hwrites _ List.mem_cons_self rfl) byte)

/-- Cells to which nothing is written look the same afterwards. -/
theorem Sees.view_of_ne (h : Sees view cells kept) (hlog : Exchange memory log after)
    (hwrites : ∀ t ∈ log, t.direction = .write → kept t.addr) {cell : UInt32} (hcell : cells cell)
    (hne : ∀ t ∈ log, t.direction = .write → t.addr ≠ cell) :
    view after cell = view memory cell := by
  have hknown : Known view cells memory fun other => if other = cell then some (view memory cell) else none := by
    intro other byte hbyte
    replace hbyte : (if other = cell then some (view memory cell) else none) = some byte := hbyte
    obtain ⟨rfl, hbyte⟩ := Option.ite_none_right_eq_some.1 hbyte
    exact ⟨hcell, Option.some.inj hbyte⟩
  exact ((h.exchange hlog hwrites hknown).2 cell _ ((stored_of_ne hne).trans (if_pos rfl))).2

/-- Cells are RAM if a view sees them and they keep what is written. -/
theorem ram_of_view (h : Sees view cells kept) (memory : μ) : Ram memory kept :=
  fun _ _ hlog hwrites => (h.exchange hlog hwrites (known_none view cells memory)).1

end Sees

end Ram

/-! ## Memories with such cells -/

/-- Memory that has a cell at every address and nothing else. -/
structure FlatMemory where
  bytes : UInt32 → UInt8

instance : Memory FlatMemory where
  read memory addr := (memory.bytes addr, memory)
  write memory addr byte := ⟨fun cell => if cell = addr then byte else memory.bytes cell⟩

theorem FlatMemory.sees : Sees FlatMemory.bytes (fun _ => True) fun _ => True where
  kept_cells _ _ := trivial
  read _ _ _ := rfl
  keep _ _ _ _ := rfl
  write _ _ _ _ _ _ := rfl

theorem FlatMemory.ram (memory : FlatMemory) : Ram memory fun _ => True := ram_of_view FlatMemory.sees memory

namespace Bus

variable {σ : Type}

theorem locate_low (scheme : Scheme) {addr : UInt32} (h : addr < 0x2000) :
    ∃ hin : addr.toNat < 0x20000, scheme.locate addr = .workRam ⟨addr.toNat, hin⟩ := by
  have haddr : addr.toNat < 0x2000 := UInt32.lt_iff_toNat_lt.1 h
  refine ⟨by omega, ?_⟩
  rw [scheme.locate_of_parts ⟨0, by decide⟩ ⟨addr.toNat, by omega⟩ (by dsimp only; omega) (by dsimp only; omega),
    Scheme.locateIn, dif_neg (by decide), if_pos (by decide)]
  unfold Scheme.locateSystem
  exact dif_pos haddr

theorem read_keeps_workRam (bus : Bus σ) (addr : UInt32) : (bus.read addr).2.workRam = bus.workRam := by
  unfold read
  split
  · rfl
  · rfl

/-- The start of bank 0 is work memory, whatever the devices do. -/
theorem sees_low [Observer σ] :
    Sees (fun (bus : Bus σ) addr => bus.workRam[addr.toNat]?.getD 0) (· < 0x2000) (· < 0x2000) where
  kept_cells _ h := h
  read bus addr haddr := by
    obtain ⟨hin, hlocate⟩ := locate_low bus.scheme haddr
    change (bus.read addr).1 = _
    rw [read, hlocate, Vector.getElem?_eq_getElem hin]
    rfl
  keep bus addr cell hcell := by
    change (bus.read addr).2.workRam[_]?.getD 0 = _
    rw [read_keeps_workRam]
  write bus addr byte cell haddr hcell := by
    obtain ⟨hin, hlocate⟩ := locate_low bus.scheme haddr
    obtain ⟨hcellIn, -⟩ := locate_low bus.scheme hcell
    change (bus.write addr byte).workRam[_]?.getD 0 = _
    have hsame : addr.toNat = cell.toNat ↔ cell = addr := by
      rw [UInt32.toNat_inj]
      exact eq_comm
    simp [write, hlocate, store, hcellIn, Vector.getElem_set, hsame]

/-- The start of bank 0 is RAM. -/
theorem ram_low [Observer σ] (bus : Bus σ) : Ram bus fun addr => addr < 0x2000 := ram_of_view sees_low bus

end Bus

end Emu816
