import Emu816.Proofs.Routines

/-!
# Relations that instructions keep

An invariant or a frame condition of instructions is a relation between the registers before, the cycles, and the
registers after. A relation that composes and tolerates the parts of all routines (`Relation.Basic`, and
`Relation.Stacks` for the stack) is kept by every operation whose own effect on the registers is in it
(`follows_ofOperation`), so a proof about all instructions comes down to the functions that the operations carry.
-/

namespace Emu816

/-- A relation between the registers before a routine, its cycles and the registers after it. -/
abbrev Relation := Registers → List Cycle → Registers → Prop

namespace Relation

/-- The relation composes and holds of what every routine may do: internal cycles, transfers that leave the stack
alone, and moves of the program counter. -/
structure Basic (R : Relation) : Prop where
  refl : ∀ r, R r [] r
  trans : ∀ {r r' r'' first second}, R r first r' → R r' second r'' → R r (first ++ second) r''
  idle : ∀ r, R r [.idle] r
  transfer : ∀ r t, t.purpose ≠ .stack → R r [.transfer t] r
  setPc : ∀ r pc, R r [] (r.setPc pc)

/-- The relation holds of a byte pushed and of a byte pulled. -/
structure Stacks (R : Relation) : Prop where
  push : ∀ r byte, R r [.write .stack r.s.toUInt32 byte] (r.setS (r.s - 1))
  pull : ∀ r byte, R r [.read .stack (r.setS (r.s + 1)).s.toUInt32 byte] (r.setS (r.s + 1))

/-- The relation holds of a change of the registers without a cycle. -/
def Admits (R : Relation) (f : Registers → Registers) : Prop := ∀ r, R r [] (f r)

theorem Basic.admits_comp {R : Relation} (hR : R.Basic) {f g : Registers → Registers} (hf : R.Admits f)
    (hg : R.Admits g) : R.Admits fun r => g (f r) := fun r => hR.trans (hf r) (hg (f r))

end Relation

namespace Microcode

variable {α β : Type} {R : Relation}

/-- Every course of the routine is in the relation. -/
def Follows (R : Relation) (code : Microcode α) : Prop := ∀ r, code.Ensures r fun log _ r' => R r log r'

/-! ## Sequences -/

theorem Follows.bind {code : Microcode α} {f : α → Microcode β} (h : Follows R code) (hR : R.Basic)
    (hf : ∀ value, Follows R (f value)) : Follows R (code >>= f) := fun r =>
  (ensures_bind _ _ _).mpr <| (h r).mono fun _ value r' hfirst =>
    (hf value r').mono fun _ _ _ hsecond => hR.trans hfirst hsecond

variable (hR : R.Basic)
include hR

theorem follows_pure (value : α) : Follows R (pure value) := hR.refl

theorem follows_get : Follows R get := hR.refl

omit hR in
theorem follows_modify {f : Registers → Registers} (h : R.Admits f) : Follows R (modify f) := h

/-! ## Cycles and operands -/

theorem follows_idle : Follows R idle := hR.idle

theorem follows_idles (n : Nat) : Follows R (idles n) := by
  induction n with
  | zero => exact follows_pure hR ()
  | succ n ih => exact (follows_idle hR).bind hR fun _ => ih

theorem follows_read {purpose : Purpose} (h : purpose ≠ .stack) (addr : UInt32) : Follows R (read purpose addr) :=
  fun r byte => hR.transfer r ⟨.read, purpose, Address.wrap addr, byte⟩ h

theorem follows_write {purpose : Purpose} (h : purpose ≠ .stack) (addr : UInt32) (value : UInt8) :
    Follows R (write purpose addr value) :=
  fun r => hR.transfer r ⟨.write, purpose, Address.wrap addr, value⟩ h

theorem follows_jumpTo (pc : UInt16) : Follows R (jumpTo pc) := fun r => hR.setPc r pc

theorem follows_fetch : Follows R fetch := fun r => by
  rw [ensures_fetch]
  intro byte
  exact hR.trans (hR.transfer r ⟨.read, .code, r.programAddress, byte⟩ nofun) (hR.setPc r _)

theorem follows_fetchWord : Follows R fetchWord :=
  (follows_fetch hR).bind hR fun _ => (follows_fetch hR).bind hR fun _ => follows_pure hR _

theorem follows_fetchLong : Follows R fetchLong :=
  (follows_fetchWord hR).bind hR fun _ => (follows_fetch hR).bind hR fun _ => follows_pure hR _

theorem follows_fetchWidth (width : Width) : Follows R (fetchWidth width) := by
  cases width with
  | byte => exact (follows_fetch hR).bind hR fun _ => follows_pure hR _
  | word => exact follows_fetchWord hR

theorem follows_readWord {purpose : Purpose} (h : purpose ≠ .stack) (place : Place) :
    Follows R (readWord purpose place) :=
  (follows_read hR h _).bind hR fun _ => (follows_read hR h _).bind hR fun _ => follows_pure hR _

theorem follows_readLong (place : Place) : Follows R (readLong place) :=
  (follows_readWord hR (by decide) place).bind hR fun _ =>
    (follows_read hR (by decide) _).bind hR fun _ => follows_pure hR _

theorem follows_readAt (place : Place) (width : Width) : Follows R (readAt place width) := by
  cases width with
  | byte => exact (follows_read hR (by decide) _).bind hR fun _ => follows_pure hR _
  | word => exact follows_readWord hR (by decide) place

theorem follows_writeAt (place : Place) (width : Width) (value : UInt16) :
    Follows R (writeAt place width value) := by
  refine (follows_write hR (by decide) _ _).bind hR fun _ => ?_
  cases width with
  | byte => exact follows_pure hR _
  | word => exact follows_write hR (by decide) _ _

theorem follows_directOperand : Follows R directOperand := by
  refine (follows_fetch hR).bind hR fun offset => (follows_get hR).bind hR fun r => ?_
  dsimp only
  split
  · exact (follows_idle hR).bind hR fun _ => follows_pure hR _
  · exact follows_pure hR _

theorem follows_dataAddress (offset : UInt16) : Follows R (dataAddress offset) :=
  (follows_get hR).bind hR fun _ => follows_pure hR _

theorem follows_programAddress (offset : UInt16) : Follows R (programAddress offset) :=
  (follows_get hR).bind hR fun _ => follows_pure hR _

theorem follows_indexed (base : UInt32) (index : UInt16) (access : Access) :
    Follows R (indexed base index access) := by
  refine (follows_get hR).bind hR fun r => ?_
  dsimp only
  split
  · exact (follows_idle hR).bind hR fun _ => follows_pure hR _
  · exact follows_pure hR _

theorem follows_resolve (mode : Mode) (access : Access) : Follows R (resolve mode access) := by
  have hdata (f : UInt32 → Place) (offset : UInt16) : Follows R (do return f (← dataAddress offset)) :=
    (follows_dataAddress hR offset).bind hR fun _ => follows_pure hR _
  cases mode with
  | direct => exact (follows_directOperand hR).bind hR fun _ => follows_pure hR _
  | directX | directY =>
    exact (follows_directOperand hR).bind hR fun _ => (follows_idle hR).bind hR fun _ =>
      (follows_get hR).bind hR fun _ => follows_pure hR _
  | directIndirect =>
    exact (follows_directOperand hR).bind hR fun _ =>
      (follows_readWord hR (by decide) _).bind hR fun _ => hdata .long _
  | directIndirectLong =>
    exact (follows_directOperand hR).bind hR fun _ => (follows_readLong hR _).bind hR fun _ => follows_pure hR _
  | directXIndirect =>
    exact (follows_directOperand hR).bind hR fun _ => (follows_idle hR).bind hR fun _ =>
      (follows_get hR).bind hR fun _ => (follows_readWord hR (by decide) _).bind hR fun _ => hdata .long _
  | directIndirectY =>
    exact (follows_directOperand hR).bind hR fun _ => (follows_readWord hR (by decide) _).bind hR fun _ =>
      (follows_dataAddress hR _).bind hR fun _ => (follows_get hR).bind hR fun _ => follows_indexed hR _ _ _
  | directIndirectLongY =>
    exact (follows_directOperand hR).bind hR fun _ => (follows_readLong hR _).bind hR fun _ =>
      (follows_get hR).bind hR fun _ => follows_pure hR _
  | absolute => exact (follows_fetchWord hR).bind hR fun _ => hdata .long _
  | absoluteX | absoluteY =>
    exact (follows_fetchWord hR).bind hR fun _ => (follows_dataAddress hR _).bind hR fun _ =>
      (follows_get hR).bind hR fun _ => follows_indexed hR _ _ _
  | absoluteLong => exact (follows_fetchLong hR).bind hR fun _ => follows_pure hR _
  | absoluteLongX =>
    exact (follows_fetchLong hR).bind hR fun _ => (follows_get hR).bind hR fun _ => follows_pure hR _
  | stackRelative =>
    exact (follows_fetch hR).bind hR fun _ => (follows_idle hR).bind hR fun _ =>
      (follows_get hR).bind hR fun _ => follows_pure hR _
  | stackRelativeIndirectY =>
    exact (follows_fetch hR).bind hR fun _ => (follows_idle hR).bind hR fun _ =>
      (follows_get hR).bind hR fun _ => (follows_readWord hR (by decide) _).bind hR fun _ =>
      (follows_dataAddress hR _).bind hR fun _ => (follows_idle hR).bind hR fun _ =>
      (follows_get hR).bind hR fun _ => follows_pure hR _
  | implied | accumulator | immediate | immediateIndex | immediate8 | relative8 | relative16 | absoluteIndirect
  | absoluteIndirectLong | absoluteXIndirect | blockMove =>
    exact (follows_get hR).bind hR fun _ => follows_pure hR _

theorem follows_readOperand (mode : Mode) (width : Width) : Follows R (readOperand mode width) := by
  unfold readOperand
  split
  · exact follows_fetchWidth hR width
  · exact follows_fetchWidth hR width
  · exact (follows_resolve hR mode .read).bind hR fun _ => follows_readAt hR _ width

theorem follows_branch (taken : Bool) : Follows R (branch taken) := by
  refine (follows_fetch hR).bind hR fun offset => ?_
  split
  · refine (follows_get hR).bind hR fun r => (follows_idle hR).bind hR fun _ => ?_
    dsimp only
    split
    · exact (follows_idle hR).bind hR fun _ => follows_jumpTo hR _
    · exact follows_jumpTo hR _
  · exact follows_pure hR _

/-! ## Stack -/

variable (hS : R.Stacks)

section Stack

include hS
omit hR

theorem follows_push (value : UInt8) : Follows R (push value) := fun r =>
  (ensures_push value _).mpr (hS.push r value)

theorem follows_pull : Follows R pull := fun r => (ensures_pull _).mpr (hS.pull r)

end Stack

include hS

theorem follows_pushWord (value : UInt16) : Follows R (pushWord value) :=
  (follows_push hS _).bind hR fun _ => follows_push hS _

theorem follows_pullWord : Follows R pullWord :=
  (follows_pull hS).bind hR fun _ => (follows_pull hS).bind hR fun _ => follows_pure hR _

theorem follows_pushWidth (width : Width) (value : UInt16) : Follows R (pushWidth width value) := by
  cases width with
  | byte => exact follows_push hS _
  | word => exact follows_pushWord hR hS value

theorem follows_pullWidth (width : Width) : Follows R (pullWidth width) := by
  cases width with
  | byte => exact (follows_pull hS).bind hR fun _ => follows_pure hR _
  | word => exact follows_pullWord hR hS

/-- Entries into handlers. -/
theorem follows_enter (hI : R.Admits (·.setFlag Status.interruptDisable true))
    (hD : R.Admits (·.setFlag Status.decimal false)) (hbank : R.Admits (·.setPbr 0)) (status : UInt8)
    (vector : UInt16) : Follows R (enter status vector) := by
  refine (follows_get hR).bind hR fun r => ?_
  have hframe : Follows R (do
      pushWord r.pc
      push status
      modify fun r => ((r.setFlag Status.interruptDisable true).setFlag Status.decimal false).setPbr 0
      jumpTo (← readWord .vector (.bank0 vector))) :=
    (follows_pushWord hR hS _).bind hR fun _ => (follows_push hS _).bind hR fun _ =>
      (follows_modify (hR.admits_comp (hR.admits_comp hI hD) hbank)).bind hR fun _ =>
      (follows_readWord hR (by decide) _).bind hR fun _ => follows_jumpTo hR _
  dsimp only
  split
  · exact (follows_push hS _).bind hR fun _ => hframe
  · exact hframe

theorem follows_enterHardware (hI : R.Admits (·.setFlag Status.interruptDisable true))
    (hD : R.Admits (·.setFlag Status.decimal false)) (hbank : R.Admits (·.setPbr 0)) (kind : Interrupt) :
    Follows R (enterHardware kind) := by
  refine (follows_get hR).bind hR fun r => (follows_idle hR).bind hR fun _ => ?_
  dsimp only
  split
  · exact (follows_idle hR).bind hR fun _ => follows_enter hR hS hI hD hbank _ _
  · exact follows_enter hR hS hI hD hbank _ _

end Microcode

/-! ## Operations -/

/-- The relation holds of what the operation itself does to the registers, and of the stack if it goes there. -/
def Operation.Respects (R : Relation) : Operation → Prop
  | load _ effect => ∀ value, R.Admits (effect · value)
  | modify effect =>
    (∀ value, R.Admits fun r => (effect r value).2) ∧ ∀ value, R.Admits (·.setAccumulator value)
  | internal _ effect => R.Admits effect
  | maskStatus effect => ∀ mask, R.Admits fun r => r.setP (effect r.p mask)
  | push _ _ | pushConstant | pushIndirect | pushRelative | call | callIndexed | ret => R.Stacks
  | pull _ effect => R.Stacks ∧ ∀ value, R.Admits (effect · value)
  | jumpLong | jumpLongIndirect => ∀ bank, R.Admits (·.setPbr bank)
  | callLong | retLong => R.Stacks ∧ ∀ bank, R.Admits (·.setPbr bank)
  | retInterrupt => R.Stacks ∧ (∀ status, R.Admits (·.restoreP status)) ∧ ∀ bank, R.Admits (·.setPbr bank)
  | interrupt _ =>
    R.Stacks ∧ R.Admits (·.setFlag Status.interruptDisable true) ∧ R.Admits (·.setFlag Status.decimal false) ∧
      R.Admits (·.setPbr 0)
  | blockMove _ =>
    (∀ bank, R.Admits (·.setDbr bank)) ∧ (∀ value, R.Admits (·.setX value)) ∧
      (∀ value, R.Admits (·.setY value)) ∧ ∀ value, R.Admits (·.setA value)
  | store _ _ | branch _ | branchLong | jump | jumpIndirect | jumpIndexed | skip | rest _ => True

namespace Microcode

variable {R : Relation} (hR : R.Basic)
include hR

/-- One byte of a block move. -/
theorem follows_blockMove (hdbr : ∀ bank, R.Admits (·.setDbr bank)) (hx : ∀ value, R.Admits (·.setX value))
    (hy : ∀ value, R.Admits (·.setY value)) (ha : ∀ value, R.Admits (·.setA value)) (stride : UInt16) :
    Follows R (blockMove stride) := by
  refine (follows_fetch hR).bind hR fun target => (follows_fetch hR).bind hR fun source =>
    (follows_modify (hdbr target)).bind hR fun _ => (follows_get hR).bind hR fun r =>
    (follows_read hR (by decide) _).bind hR fun byte => (follows_write hR (by decide) _ _).bind hR fun _ =>
    (follows_idle hR).bind hR fun _ => (follows_idle hR).bind hR fun _ => follows_modify fun r => ?_
  have hmoved : R r [] (((r.setX (r.x + stride)).setY (r.y + stride)).setA (r.a - 1)) :=
    hR.trans (hR.trans (hx _ r) (hy _ _)) (ha _ _)
  dsimp only
  split
  · exact hmoved
  · exact hR.trans hmoved (hR.setPc _ _)

/-- **Every operation keeps a relation that its own effects keep.** -/
theorem follows_ofOperation {operation : Operation} (h : operation.Respects R) (mode : Mode) :
    Follows R (ofOperation mode operation) := by
  cases operation with
  | load group effect =>
    exact (follows_get hR).bind hR fun _ => (follows_readOperand hR mode _).bind hR fun value =>
      follows_modify (h value)
  | store group source =>
    exact (follows_get hR).bind hR fun _ => (follows_resolve hR mode .write).bind hR fun _ =>
      follows_writeAt hR _ _ _
  | modify effect =>
    obtain ⟨heffect, hacc⟩ := h
    refine (follows_get hR).bind hR fun r => ?_
    dsimp only
    split
    · exact (follows_idle hR).bind hR fun _ =>
        follows_modify fun r => hR.trans (heffect r.accumulator r) (hacc _ _)
    · exact (follows_resolve hR mode .write).bind hR fun _ => (follows_readAt hR _ _).bind hR fun value =>
        (follows_idle hR).bind hR fun _ => Follows.bind (heffect value) hR fun _ => follows_writeAt hR _ _ _
  | internal cycles effect => exact (follows_idles hR cycles).bind hR fun _ => follows_modify h
  | maskStatus effect =>
    exact (follows_fetch hR).bind hR fun mask => (follows_idle hR).bind hR fun _ => follows_modify (h mask)
  | branch condition => exact (follows_get hR).bind hR fun _ => follows_branch hR _
  | branchLong =>
    exact (follows_fetchWord hR).bind hR fun _ => (follows_idle hR).bind hR fun _ =>
      (follows_get hR).bind hR fun _ => follows_jumpTo hR _
  | push width source =>
    exact (follows_idle hR).bind hR fun _ => (follows_get hR).bind hR fun _ => follows_pushWidth hR h _ _
  | pull width effect =>
    obtain ⟨hS, heffect⟩ := h
    exact (follows_idles hR 2).bind hR fun _ => (follows_get hR).bind hR fun _ =>
      (follows_pullWidth hR hS _).bind hR fun value => follows_modify (heffect value)
  | pushConstant => exact (follows_fetchWord hR).bind hR fun _ => follows_pushWord hR h _
  | pushIndirect =>
    exact (follows_directOperand hR).bind hR fun _ => (follows_readWord hR (by decide) _).bind hR fun _ =>
      follows_pushWord hR h _
  | pushRelative =>
    exact (follows_fetchWord hR).bind hR fun _ => (follows_idle hR).bind hR fun _ =>
      (follows_get hR).bind hR fun _ => follows_pushWord hR h _
  | jump => exact (follows_fetchWord hR).bind hR fun _ => follows_jumpTo hR _
  | jumpIndirect =>
    exact (follows_fetchWord hR).bind hR fun _ => (follows_readWord hR (by decide) _).bind hR fun _ =>
      follows_jumpTo hR _
  | jumpIndexed =>
    exact (follows_fetchWord hR).bind hR fun _ => (follows_idle hR).bind hR fun _ =>
      (follows_get hR).bind hR fun _ => (follows_programAddress hR _).bind hR fun _ =>
      (follows_readWord hR (by decide) _).bind hR fun _ => follows_jumpTo hR _
  | jumpLong =>
    exact (follows_fetchLong hR).bind hR fun target =>
      follows_modify fun r => hR.trans (h (Address.bank target) r) (hR.setPc _ _)
  | jumpLongIndirect =>
    exact (follows_fetchWord hR).bind hR fun _ => (follows_readLong hR _).bind hR fun target =>
      follows_modify fun r => hR.trans (h (Address.bank target) r) (hR.setPc _ _)
  | call =>
    exact (follows_fetchWord hR).bind hR fun _ => (follows_idle hR).bind hR fun _ =>
      (follows_get hR).bind hR fun _ => (follows_pushWord hR h _).bind hR fun _ => follows_jumpTo hR _
  | callIndexed =>
    exact (follows_fetch hR).bind hR fun _ => (follows_get hR).bind hR fun _ =>
      (follows_pushWord hR h _).bind hR fun _ => (follows_fetch hR).bind hR fun _ =>
      (follows_idle hR).bind hR fun _ => (follows_get hR).bind hR fun _ =>
      (follows_programAddress hR _).bind hR fun _ =>
      (follows_readWord hR (by decide) _).bind hR fun _ => follows_jumpTo hR _
  | callLong =>
    obtain ⟨hS, hbank⟩ := h
    exact (follows_fetchWord hR).bind hR fun target => (follows_get hR).bind hR fun _ =>
      (follows_push hS _).bind hR fun _ => (follows_idle hR).bind hR fun _ => (follows_fetch hR).bind hR fun bank =>
      (follows_get hR).bind hR fun _ => (follows_pushWord hR hS _).bind hR fun _ =>
      follows_modify fun r => hR.trans (hbank bank r) (hR.setPc _ target)
  | ret =>
    exact (follows_idles hR 2).bind hR fun _ => (follows_pullWord hR h).bind hR fun _ =>
      (follows_idle hR).bind hR fun _ => follows_jumpTo hR _
  | retLong =>
    obtain ⟨hS, hbank⟩ := h
    exact (follows_idles hR 2).bind hR fun _ => (follows_pullWord hR hS).bind hR fun target =>
      (follows_pull hS).bind hR fun bank =>
      follows_modify fun r => hR.trans (hR.setPc r (target + 1)) (hbank bank _)
  | retInterrupt =>
    obtain ⟨hS, hstatus, hbank⟩ := h
    refine (follows_idles hR 2).bind hR fun _ => (follows_pull hS).bind hR fun status =>
      (follows_modify (hstatus status)).bind hR fun _ => (follows_pullWord hR hS).bind hR fun _ =>
      (follows_jumpTo hR _).bind hR fun _ => (follows_get hR).bind hR fun r => ?_
    split
    · exact (follows_pull hS).bind hR fun bank => follows_modify (hbank bank)
    · exact follows_pure hR _
  | interrupt source =>
    obtain ⟨hS, hI, hD, hbank⟩ := h
    exact (follows_fetch hR).bind hR fun _ => (follows_get hR).bind hR fun _ =>
      follows_enter hR hS hI hD hbank _ _
  | blockMove stride =>
    obtain ⟨hdbr, hx, hy, ha⟩ := h
    exact follows_blockMove hR hdbr hx hy ha stride
  | skip => exact (follows_fetch hR).bind hR fun _ => follows_pure hR _
  | rest state => exact follows_idles hR 2

end Microcode

end Emu816
