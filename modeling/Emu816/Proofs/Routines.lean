import Emu816.Cpu.Execute
import Emu816.Proofs.Courses
import Emu816.Proofs.Words

/-!
# Courses of microcode routines

For each routine, what its courses log, return and leave in the registers, as an equation on `Microcode.Ensures`. The
equations rewrite a statement about a routine into one about the bytes that memory answers, so no proof after this
module looks into a routine that has one.
-/

namespace Emu816

@[simp] theorem Place.wrap_address (place : Place) : Address.wrap place.address = place.address := by
  cases place <;> simp [Place.address]

namespace Microcode

variable {α β : Type} {r : Registers}

/-- Every course of the routine from the given registers has the property. -/
def Ensures (code : Microcode α) (r : Registers) (post : List Cycle → α → Registers → Prop) : Prop :=
  (StateT.run code r).Ensures fun log result => post log result.1 result.2

theorem Ensures.mono {code : Microcode α} {post post' : List Cycle → α → Registers → Prop}
    (h : code.Ensures r post) (himp : ∀ log value r', post log value r' → post' log value r') :
    code.Ensures r post' :=
  Activity.Ensures.mono h fun log result => himp log result.1 result.2

theorem ensures_of_forall {code : Microcode α} {post : List Cycle → α → Registers → Prop}
    (h : ∀ log value r', post log value r') : code.Ensures r post :=
  Activity.ensures_of_forall fun log result => h log result.1 result.2

/-! ## Sequences and registers -/

@[simp] theorem ensures_pure (value : α) (post : List Cycle → α → Registers → Prop) :
    (pure value : Microcode α).Ensures r post ↔ post [] value r := Iff.rfl

@[simp] theorem ensures_bind (code : Microcode α) (f : α → Microcode β)
    (post : List Cycle → β → Registers → Prop) :
    (code >>= f).Ensures r post ↔
      code.Ensures r fun first value r' => (f value).Ensures r' fun second => post (first ++ second) :=
  Activity.ensures_bind _ _ _

@[simp] theorem ensures_map (code : Microcode α) (f : α → β) (post : List Cycle → β → Registers → Prop) :
    (f <$> code).Ensures r post ↔ code.Ensures r fun log value => post log (f value) := by
  rw [map_eq_pure_bind, ensures_bind]
  simp

@[simp] theorem ensures_get (post : List Cycle → Registers → Registers → Prop) :
    (get : Microcode Registers).Ensures r post ↔ post [] r r := Iff.rfl

@[simp] theorem ensures_set (r' : Registers) (post : List Cycle → PUnit → Registers → Prop) :
    (set r' : Microcode PUnit).Ensures r post ↔ post [] ⟨⟩ r' := Iff.rfl

@[simp] theorem ensures_modify (f : Registers → Registers) (post : List Cycle → PUnit → Registers → Prop) :
    (modify f : Microcode PUnit).Ensures r post ↔ post [] ⟨⟩ (f r) := Iff.rfl

@[simp] theorem ensures_modifyGet (f : Registers → α × Registers) (post : List Cycle → α → Registers → Prop) :
    (modifyGet f : Microcode α).Ensures r post ↔ post [] (f r).1 (f r).2 := Iff.rfl

@[simp] theorem ensures_ite (c : Prop) [Decidable c] (code code' : Microcode α)
    (post : List Cycle → α → Registers → Prop) :
    (if c then code else code').Ensures r post ↔ if c then code.Ensures r post else code'.Ensures r post := by
  split <;> rfl

/-! ## Cycles -/

@[simp] theorem ensures_idle (post : List Cycle → Unit → Registers → Prop) :
    idle.Ensures r post ↔ post [.idle] () r := Iff.rfl

@[simp] theorem ensures_read (purpose : Purpose) (addr : UInt32) (post : List Cycle → UInt8 → Registers → Prop) :
    (read purpose addr).Ensures r post ↔ ∀ byte, post [.read purpose (Address.wrap addr) byte] byte r := Iff.rfl

@[simp] theorem ensures_write (purpose : Purpose) (addr : UInt32) (value : UInt8)
    (post : List Cycle → Unit → Registers → Prop) :
    (write purpose addr value).Ensures r post ↔ post [.write purpose (Address.wrap addr) value] () r := Iff.rfl

@[simp] theorem ensures_idles (n : Nat) (post : List Cycle → Unit → Registers → Prop) :
    (idles n).Ensures r post ↔ post (List.replicate n .idle) () r := by
  induction n generalizing post with
  | zero => simp [idles]
  | succ n ih => simp [idles, ih, List.replicate_succ]

/-! ## Instruction stream -/

@[simp] theorem ensures_fetch (post : List Cycle → UInt8 → Registers → Prop) :
    fetch.Ensures r post ↔ ∀ byte, post [.read .code r.programAddress byte] byte (r.setPc (r.pc + 1)) := by
  simp [fetch]

@[simp] theorem ensures_fetchWord (post : List Cycle → UInt16 → Registers → Prop) :
    fetchWord.Ensures r post ↔ ∀ low high,
      post [.read .code r.programAddress low, .read .code (r.setPc (r.pc + 1)).programAddress high]
        (Word.ofBytes low high) (r.setPc (r.pc + 1 + 1)) := by
  simp [fetchWord]

@[simp] theorem ensures_fetchLong (post : List Cycle → UInt32 → Registers → Prop) :
    fetchLong.Ensures r post ↔ ∀ low high bank,
      post [.read .code r.programAddress low, .read .code (r.setPc (r.pc + 1)).programAddress high,
          .read .code (r.setPc (r.pc + 1 + 1)).programAddress bank]
        (Address.ofBank bank (Word.ofBytes low high)) (r.setPc (r.pc + 1 + 1 + 1)) := by
  simp [fetchLong]

/-! ## Words in memory -/

@[simp] theorem ensures_readWord (purpose : Purpose) (place : Place) (post : List Cycle → UInt16 → Registers → Prop) :
    (readWord purpose place).Ensures r post ↔ ∀ low high,
      post [.read purpose place.address low, .read purpose place.next.address high] (Word.ofBytes low high) r := by
  simp [readWord]

@[simp] theorem ensures_readLong (place : Place) (post : List Cycle → UInt32 → Registers → Prop) :
    (readLong place).Ensures r post ↔ ∀ low high bank,
      post [.read .pointer place.address low, .read .pointer place.next.address high,
          .read .pointer place.next.next.address bank]
        (Address.ofBank bank (Word.ofBytes low high)) r := by
  simp [readLong]

/-! ## Addresses of operands -/

/-- Whether the direct page starts off a page boundary. -/
def offPage (r : Registers) : Bool := Word.low r.d ≠ 0

/-- Whether an index addition needs a cycle even for a read: the index is a word, or the sum leaves the page. -/
def crosses (r : Registers) (base : UInt32) (index : UInt16) : Bool :=
  r.indexWidth = .word ∨ base / 0x100 ≠ indexedLong base index / 0x100

@[simp] theorem offPage_setPc (pc : UInt16) : offPage (r.setPc pc) = offPage r := rfl

@[simp] theorem crosses_setPc (pc : UInt16) (base : UInt32) (index : UInt16) :
    crosses (r.setPc pc) base index = crosses r base index := rfl

@[simp] theorem ensures_directOperand (post : List Cycle → UInt16 → Registers → Prop) :
    directOperand.Ensures r post ↔ ∀ offset,
      post (.read .code r.programAddress offset :: List.replicate (offPage r).toNat .idle)
        (r.d + offset.toUInt16) (r.setPc (r.pc + 1)) := by
  by_cases hpage : Word.low r.d = 0 <;> simp [directOperand, offPage, hpage]

@[simp] theorem ensures_indexed_read (base : UInt32) (index : UInt16) (post : List Cycle → Place → Registers → Prop) :
    (indexed base index .read).Ensures r post ↔
      post (List.replicate (crosses r base index).toNat .idle) (.long (indexedLong base index)) r := by
  by_cases hcycle : r.indexWidth = .word ∨ base / 0x100 ≠ indexedLong base index / 0x100 <;>
    simp [indexed, crosses, hcycle]

@[simp] theorem ensures_indexed_write (base : UInt32) (index : UInt16)
    (post : List Cycle → Place → Registers → Prop) :
    (indexed base index .write).Ensures r post ↔ post [.idle] (.long (indexedLong base index)) r := by
  simp [indexed]

/-- A constant is taken from the instruction stream. -/
theorem readOperand_of_constant {mode : Mode} (h : mode = .immediate ∨ mode = .immediateIndex) (width : Width) :
    readOperand mode width = fetchWidth width := by
  rcases h with rfl | rfl <;> rfl

/-- Any other operand is read at its place. -/
theorem readOperand_of_place {mode : Mode} (h : ¬(mode = .immediate ∨ mode = .immediateIndex)) (width : Width) :
    readOperand mode width = resolve mode .read >>= fun place => readAt place width := by
  cases mode <;> first | rfl | simp at h

/-! ## Stack -/

@[simp] theorem ensures_push (value : UInt8) (post : List Cycle → Unit → Registers → Prop) :
    (push value).Ensures r post ↔ post [.write .stack r.s.toUInt32 value] () (r.setS (r.s - 1)) := by
  simp [push]

@[simp] theorem ensures_pull (post : List Cycle → UInt8 → Registers → Prop) :
    pull.Ensures r post ↔
      ∀ byte, post [.read .stack (r.setS (r.s + 1)).s.toUInt32 byte] byte (r.setS (r.s + 1)) := by
  simp [pull]

@[simp] theorem ensures_pushWord (value : UInt16) (post : List Cycle → Unit → Registers → Prop) :
    (pushWord value).Ensures r post ↔
      post [.write .stack r.s.toUInt32 (Word.high value),
          .write .stack (r.setS (r.s - 1)).s.toUInt32 (Word.low value)]
        () (r.setS (r.s - 2)) := by
  have hdown : r.s - 1 - 1 = r.s - 2 := by grind
  simp [pushWord, hdown]

@[simp] theorem ensures_pullWord (post : List Cycle → UInt16 → Registers → Prop) :
    pullWord.Ensures r post ↔ ∀ low high,
      post [.read .stack (r.setS (r.s + 1)).s.toUInt32 low, .read .stack (r.setS (r.s + 2)).s.toUInt32 high]
        (Word.ofBytes low high) (r.setS (r.s + 2)) := by
  have hup : r.s + 1 + 1 = r.s + 2 := by grind
  simp [pullWord, hup]

/-! ## Jumps -/

@[simp] theorem ensures_jumpTo (pc : UInt16) (post : List Cycle → Unit → Registers → Prop) :
    (jumpTo pc).Ensures r post ↔ post [] () (r.setPc pc) := Iff.rfl

@[simp] theorem ensures_jumpToLong (target : UInt32) (post : List Cycle → Unit → Registers → Prop) :
    (jumpToLong target).Ensures r post ↔
      post [] () ((r.setPbr (Address.bank target)).setPc (Address.offset target)) := Iff.rfl

@[simp] theorem ensures_dataAddress (offset : UInt16) (post : List Cycle → UInt32 → Registers → Prop) :
    (dataAddress offset).Ensures r post ↔ post [] (Address.ofBank r.dbr offset) r := Iff.rfl

@[simp] theorem ensures_programAddress (offset : UInt16) (post : List Cycle → UInt32 → Registers → Prop) :
    (programAddress offset).Ensures r post ↔ post [] (Address.ofBank r.pbr offset) r := Iff.rfl

end Microcode

end Emu816
