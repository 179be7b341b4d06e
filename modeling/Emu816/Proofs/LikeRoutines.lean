import Emu816.Proofs.Likeness

/-!
# Routines on registers that are alike

A routine played from two register files that are alike goes through the same cycles at near addresses, as long as it
does not show memory what is different about them. The parts of an instruction are compared here one by one, and put
together for every operation whose function keeps registers alike.

- `Likeness.Kept`: relations of registers that hold while an instruction takes its operands.
- `Microcode.Together`: two routines in lockstep from related registers; sequences by `Together.bind`.
- `together_ofOperation`: the cycles of an instruction.
-/

namespace Emu816

namespace Likeness

/-- Related registers are alike, wherever their program counter goes. -/
structure Kept (L : Likeness) (R : Registers → Registers → Prop) : Prop where
  alike : ∀ {r r'}, R r r' → L.Alike r r'
  setPc : ∀ {r r'}, R r r' → ∀ pc, R (r.setPc pc) (r'.setPc pc)

variable {L : Likeness}

theorem kept_alike (L : Likeness) : L.Kept L.Alike := ⟨id, fun h => h.setPc⟩

theorem kept_agree (L : Likeness) (mnemonic : Mnemonic) : L.Kept (L.Agree mnemonic) :=
  ⟨Agree.toAlike, fun h pc => ⟨h.toAlike.setPc pc, h.operand, h.whole, h.banks⟩⟩

/-- The addresses are those of one offset in banks that are alike. -/
def SameOffset (L : Likeness) (base base' : UInt32) : Prop :=
  ∃ b b' offset, L.bank b b' ∧ base = Address.ofBank b offset ∧ base' = Address.ofBank b' offset

theorem SameOffset.near {base base' : UInt32} (h : L.SameOffset base base') : L.near base base' := by
  obtain ⟨b, b', offset, hbank, rfl, rfl⟩ := h
  exact L.near_ofBank hbank offset

end Likeness

/-- The places lie in bank 0 at the same offset, or at near addresses. -/
inductive Place.Near (near : UInt32 → UInt32 → Prop) : Place → Place → Prop
  | bank0 (offset : UInt16) : Near near (.bank0 offset) (.bank0 offset)
  | long {addr addr' : UInt32} (h : near addr addr') : Near near (.long addr) (.long addr')

namespace Place.Near

variable {L : Likeness} {place place' : Place}

theorem address (h : place.Near L.near place') : L.near place.address place'.address := by
  cases h with
  | bank0 offset => exact L.near_refl _
  | long h => exact L.near_wrap h

theorem next (h : place.Near L.near place') : place.next.Near L.near place'.next := by
  cases h with
  | bank0 offset => exact .bank0 _
  | long h => exact .long (L.near_wrap_add h 1)

end Place.Near

namespace Microcode

variable {α β γ δ : Type} {L : Likeness}

/-- From registers in `P` the routines are in lockstep, and end with values in `V` and registers in `Q`. -/
def Together (L : Likeness) (P : Registers → Registers → Prop) (code : Microcode α) (code' : Microcode β)
    (V : α → β → Prop) (Q : Registers → Registers → Prop) : Prop :=
  ∀ r r', P r r' → Activity.Lockstep L.near (fun out out' => V out.1 out'.1 ∧ Q out.2 out'.2)
    (StateT.run code r) (StateT.run code' r')

namespace Together

variable {P Q Q' : Registers → Registers → Prop} {V : α → β → Prop} {W : γ → δ → Prop}

/-- From fewer registers. -/
theorem of_imp {code : Microcode α} {code' : Microcode β} (h : Together L P code code' V Q)
    (himp : ∀ r r', Q' r r' → P r r') : Together L Q' code code' V Q := fun r r' hr => h r r' (himp r r' hr)

/-- One routine after another. -/
theorem bind {code : Microcode α} {code' : Microcode β} {f : α → Microcode γ} {f' : β → Microcode δ}
    (h : Together L P code code' V Q) (hf : ∀ value value', V value value' → Together L Q (f value) (f' value') W Q') :
    Together L P (code >>= f) (code' >>= f') W Q' := fun r r' hr =>
  (h r r' hr).bind fun out out' hout => hf out.1 out'.1 hout.1 out.2 out'.2 hout.2

/-- One routine after another that ended with the same value. -/
theorem andThen {code code' : Microcode α} {f : α → Microcode γ} {f' : α → Microcode δ}
    (h : Together L P code code' Eq Q) (hf : ∀ value, Together L Q (f value) (f' value) W Q') :
    Together L P (code >>= f) (code' >>= f') W Q' :=
  h.bind fun value _ heq => heq ▸ hf value

end Together

/-! ## Registers and cycles -/

section Cycles

variable {R Q : Registers → Registers → Prop}

theorem together_pure {V : α → β → Prop} {value : α} {value' : β} (h : V value value') :
    Together L R (pure value) (pure value') V R := fun _ _ hr => .done ⟨h, hr⟩

theorem together_get : Together L R get get R R := fun _ _ hr => .done ⟨hr, hr⟩

theorem together_modify {f f' : Registers → Registers} (h : ∀ r r', R r r' → Q (f r) (f' r')) :
    Together L R (modify f) (modify f') Eq Q := fun r r' hr => .done ⟨rfl, h r r' hr⟩

theorem together_modifyGet {f f' : Registers → α × Registers}
    (h : ∀ r r', R r r' → (f r).1 = (f' r').1 ∧ Q (f r).2 (f' r').2) :
    Together L R (modifyGet f) (modifyGet f') Eq Q := fun r r' hr => .done (h r r' hr)

theorem together_idle : Together L R idle idle Eq R := fun _ _ hr => .idle (.done ⟨rfl, hr⟩)

theorem together_idles (n : Nat) : Together L R (idles n) (idles n) Eq R := by
  induction n with
  | zero => exact together_pure rfl
  | succ n ih => exact together_idle.andThen fun _ => ih

theorem together_read (purpose : Purpose) {addr addr' : UInt32} (h : L.near addr addr') :
    Together L R (read purpose addr) (read purpose addr') Eq R :=
  fun _ _ hr => .read purpose (L.near_wrap h) fun _ => .done ⟨rfl, hr⟩

theorem together_write (purpose : Purpose) {addr addr' : UInt32} (h : L.near addr addr') (value : UInt8) :
    Together L R (write purpose addr value) (write purpose addr' value) Eq R :=
  fun _ _ hr => .write purpose value (L.near_wrap h) (.done ⟨rfl, hr⟩)

variable {place place' : Place}

theorem together_readWord (purpose : Purpose) (h : place.Near L.near place') :
    Together L R (readWord purpose place) (readWord purpose place') Eq R :=
  (together_read purpose h.address).andThen fun _ =>
    (together_read purpose h.next.address).andThen fun _ => together_pure rfl

theorem together_readLong (h : place.Near L.near place') : Together L R (readLong place) (readLong place') Eq R :=
  (together_readWord .pointer h).andThen fun _ =>
    (together_read .pointer h.next.next.address).andThen fun _ => together_pure rfl

theorem together_readAt (h : place.Near L.near place') (width : Width) :
    Together L R (readAt place width) (readAt place' width) Eq R := by
  cases width with
  | byte => exact (together_read .data h.address).andThen fun _ => together_pure rfl
  | word => exact together_readWord .data h

theorem together_writeAt (h : place.Near L.near place') (width : Width) (value : UInt16) :
    Together L R (writeAt place width value) (writeAt place' width value) Eq R := by
  refine (together_write .data h.address _).andThen fun _ => ?_
  cases width with
  | byte => exact together_pure rfl
  | word => exact together_write .data h.next.address _

end Cycles

/-! ## Operands -/

section Operands

variable {R : Registers → Registers → Prop} (hR : L.Kept R)
include hR

theorem together_jumpTo (pc : UInt16) : Together L R (jumpTo pc) (jumpTo pc) Eq R :=
  together_modify fun _ _ hr => hR.setPc hr pc

theorem together_fetch : Together L R fetch fetch Eq R := by
  intro r r' hr
  have hpc : r'.setPc (r'.pc + 1) = r'.setPc (r.pc + 1) := by rw [(hR.alike hr).pc]
  refine .read .code (L.near_wrap (hR.alike hr).near_programAddress) fun _ => .done ⟨rfl, ?_⟩
  exact hpc ▸ hR.setPc hr (r.pc + 1)

theorem together_fetchWord : Together L R fetchWord fetchWord Eq R :=
  (together_fetch hR).andThen fun _ => (together_fetch hR).andThen fun _ => together_pure rfl

theorem together_fetchLong : Together L R fetchLong fetchLong Eq R :=
  (together_fetchWord hR).andThen fun _ => (together_fetch hR).andThen fun _ => together_pure rfl

theorem together_fetchWidth (width : Width) : Together L R (fetchWidth width) (fetchWidth width) Eq R := by
  cases width with
  | byte => exact (together_fetch hR).andThen fun _ => together_pure rfl
  | word => exact together_fetchWord hR

theorem together_directOperand : Together L R directOperand directOperand Eq R := by
  refine (together_fetch hR).andThen fun offset => together_get.bind fun r r' hr => ?_
  have hd : r.d = r'.d := (hR.alike hr).d
  simp only [hd]
  split
  · exact together_idle.andThen fun _ => together_pure rfl
  · exact together_pure rfl

theorem together_dataAddress (offset : UInt16) :
    Together L R (dataAddress offset) (dataAddress offset) L.SameOffset R :=
  together_get.bind fun r r' hr => together_pure ⟨r.dbr, r'.dbr, offset, (hR.alike hr).dbr, rfl, rfl⟩

theorem together_programAddress (offset : UInt16) :
    Together L R (programAddress offset) (programAddress offset) L.SameOffset R :=
  together_get.bind fun r r' hr => together_pure ⟨r.pbr, r'.pbr, offset, (hR.alike hr).pbr, rfl, rfl⟩

/-- An index addition takes its cycle on both sides or on none. -/
theorem together_indexed {base base' : UInt32} (h : L.SameOffset base base') (index : UInt16) (access : Access) :
    Together L R (indexed base index access) (indexed base' index access) (Place.Near L.near) R := by
  refine together_get.bind fun r r' hr => ?_
  have hplace : (Place.long (indexedLong base index)).Near L.near (.long (indexedLong base' index)) :=
    .long (L.near_wrap_add h.near _)
  obtain ⟨b, b', offset, hbank, rfl, rfl⟩ := h
  have hcycle : (access = .write ∨ r.indexWidth = .word ∨
        Address.ofBank b offset / 0x100 ≠ indexedLong (Address.ofBank b offset) index / 0x100) ↔
      (access = .write ∨ r'.indexWidth = .word ∨
        Address.ofBank b' offset / 0x100 ≠ indexedLong (Address.ofBank b' offset) index / 0x100) := by
    rw [(hR.alike hr).indexWidth, L.page_indexed hbank]
  simp only [hcycle]
  split
  · exact together_idle.andThen fun _ => together_pure hplace
  · exact together_pure hplace

theorem together_resolve (mode : Mode) (access : Access) :
    Together L R (resolve mode access) (resolve mode access) (Place.Near L.near) R := by
  -- the last steps of the modes that read a pointer to the data bank
  have hdata (offset : UInt16) : Together L R (do return Place.long (← dataAddress offset))
      (do return Place.long (← dataAddress offset)) (Place.Near L.near) R :=
    (together_dataAddress hR offset).bind fun _ _ h => together_pure (.long h.near)
  have hindexed {base base' : UInt32} (h : L.near base base') {index index' : UInt16} (heq : index = index') :
      (Place.long (indexedLong base index)).Near L.near (.long (indexedLong base' index')) :=
    .long (heq ▸ L.near_wrap_add h _)
  have hbank0 {offset offset' : UInt16} (h : offset = offset') :
      (Place.bank0 offset).Near L.near (.bank0 offset') := h ▸ .bank0 offset
  cases mode with
  | direct => exact (together_directOperand hR).andThen fun _ => together_pure (.bank0 _)
  | directX =>
    exact (together_directOperand hR).andThen fun base => together_idle.andThen fun _ =>
      together_get.bind fun _ _ hr => together_pure (hbank0 (congrArg (base + ·) (hR.alike hr).x))
  | directY =>
    exact (together_directOperand hR).andThen fun base => together_idle.andThen fun _ =>
      together_get.bind fun _ _ hr => together_pure (hbank0 (congrArg (base + ·) (hR.alike hr).y))
  | directIndirect =>
    exact (together_directOperand hR).andThen fun _ =>
      (together_readWord .pointer (.bank0 _)).andThen fun _ => hdata _
  | directIndirectLong =>
    exact (together_directOperand hR).andThen fun _ =>
      (together_readLong (.bank0 _)).andThen fun _ => together_pure (.long (L.near_refl _))
  | directXIndirect =>
    exact (together_directOperand hR).andThen fun base => together_idle.andThen fun _ =>
      together_get.bind fun _ _ hr =>
      (together_readWord .pointer (hbank0 (congrArg (base + ·) (hR.alike hr).x))).andThen fun _ => hdata _
  | directIndirectY =>
    refine (together_directOperand hR).andThen fun _ => (together_readWord .pointer (.bank0 _)).andThen fun _ =>
      (together_dataAddress hR _).bind fun _ _ hbase => together_get.bind fun r r' hr => ?_
    rw [(hR.alike hr).y]
    exact together_indexed hR hbase _ access
  | directIndirectLongY =>
    exact (together_directOperand hR).andThen fun _ => (together_readLong (.bank0 _)).andThen fun _ =>
      together_get.bind fun _ _ hr => together_pure (hindexed (L.near_refl _) (hR.alike hr).y)
  | absolute => exact (together_fetchWord hR).andThen fun _ => hdata _
  | absoluteX =>
    refine (together_fetchWord hR).andThen fun _ => (together_dataAddress hR _).bind fun _ _ hbase =>
      together_get.bind fun r r' hr => ?_
    rw [(hR.alike hr).x]
    exact together_indexed hR hbase _ access
  | absoluteY =>
    refine (together_fetchWord hR).andThen fun _ => (together_dataAddress hR _).bind fun _ _ hbase =>
      together_get.bind fun r r' hr => ?_
    rw [(hR.alike hr).y]
    exact together_indexed hR hbase _ access
  | absoluteLong => exact (together_fetchLong hR).andThen fun _ => together_pure (.long (L.near_refl _))
  | absoluteLongX =>
    exact (together_fetchLong hR).andThen fun _ =>
      together_get.bind fun _ _ hr => together_pure (hindexed (L.near_refl _) (hR.alike hr).x)
  | stackRelative =>
    exact (together_fetch hR).andThen fun offset => together_idle.andThen fun _ =>
      together_get.bind fun _ _ hr => together_pure (hbank0 (congrArg (· + offset.toUInt16) (hR.alike hr).s))
  | stackRelativeIndirectY =>
    exact (together_fetch hR).andThen fun offset => together_idle.andThen fun _ =>
      together_get.bind fun _ _ hr =>
      (together_readWord .pointer (hbank0 (congrArg (· + offset.toUInt16) (hR.alike hr).s))).andThen fun _ =>
      (together_dataAddress hR _).bind fun _ _ hbase => together_idle.andThen fun _ =>
      together_get.bind fun _ _ hr => together_pure (hindexed hbase.near (hR.alike hr).y)
  | implied | accumulator | immediate | immediateIndex | immediate8 | relative8 | relative16 | absoluteIndirect
  | absoluteIndirectLong | absoluteXIndirect | blockMove =>
    exact together_get.bind fun _ _ hr => together_pure (.long (hR.alike hr).near_programAddress)

theorem together_readOperand (mode : Mode) (width : Width) :
    Together L R (readOperand mode width) (readOperand mode width) Eq R := by
  unfold readOperand
  split
  · exact together_fetchWidth hR width
  · exact together_fetchWidth hR width
  · exact (together_resolve hR mode .read).bind fun _ _ hplace => together_readAt hplace width

theorem together_branch (taken : Bool) : Together L R (branch taken) (branch taken) Eq R := by
  refine (together_fetch hR).andThen fun offset => ?_
  cases taken with
  | false => exact together_pure rfl
  | true =>
    refine together_get.bind fun r r' hr => together_idle.andThen fun _ => ?_
    simp only [(hR.alike hr).pc, (hR.alike hr).emulation]
    split
    · exact together_idle.andThen fun _ => together_jumpTo hR _
    · exact together_jumpTo hR _

end Operands

/-! ## Stack and handlers -/

theorem together_jumpToLong (target : UInt32) :
    Together L L.Alike (jumpToLong target) (jumpToLong target) Eq L.Alike :=
  together_modify fun _ _ hr => (hr.setPbr _).setPc _

theorem together_push (value : UInt8) : Together L L.Alike (push value) (push value) Eq L.Alike := by
  refine together_get.bind fun r r' hr => ?_
  rw [hr.s]
  exact (together_write .stack (L.near_refl _) value).andThen fun _ => fun _ _ _ => .done ⟨rfl, hr.setS _⟩

theorem together_pull : Together L L.Alike pull pull Eq L.Alike := by
  intro r r' hr
  have hmoved : L.Alike (r.setS (r.s + 1)) (r'.setS (r'.s + 1)) := by
    rw [hr.s]
    exact hr.setS _
  have haddr : (r.setS (r.s + 1)).s.toUInt32 = (r'.setS (r'.s + 1)).s.toUInt32 := by rw [hmoved.s]
  exact .read .stack (haddr ▸ L.near_refl _) fun _ => .done ⟨rfl, hmoved⟩

theorem together_pushWord (value : UInt16) : Together L L.Alike (pushWord value) (pushWord value) Eq L.Alike :=
  (together_push _).andThen fun _ => together_push _

theorem together_pullWord : Together L L.Alike pullWord pullWord Eq L.Alike :=
  together_pull.andThen fun _ => together_pull.andThen fun _ => together_pure rfl

theorem together_pushWidth (width : Width) (value : UInt16) :
    Together L L.Alike (pushWidth width value) (pushWidth width value) Eq L.Alike := by
  cases width with
  | byte => exact together_push _
  | word => exact together_pushWord value

theorem together_pullWidth (width : Width) : Together L L.Alike (pullWidth width) (pullWidth width) Eq L.Alike := by
  cases width with
  | byte => exact together_pull.andThen fun _ => together_pure rfl
  | word => exact together_pullWord

/-- Registers that show the same in the frame of a handler, which holds the program bank in native mode. -/
def SameFrame (L : Likeness) (r r' : Registers) : Prop := L.Alike r r' ∧ (r.emulation = false → r.pbr = r'.pbr)

theorem together_enter (status : UInt8) (vector : UInt16) :
    Together L (SameFrame L) (enter status vector) (enter status vector) Eq L.Alike := by
  refine together_get.bind fun r r' hr => ?_
  obtain ⟨halike, hbank⟩ := hr
  have hrest : Together L L.Alike
      (do
        pushWord r.pc
        push status
        modify fun r => ((r.setFlag Status.interruptDisable true).setFlag Status.decimal false).setPbr 0
        jumpTo (← readWord .vector (.bank0 vector)))
      (do
        pushWord r'.pc
        push status
        modify fun r => ((r.setFlag Status.interruptDisable true).setFlag Status.decimal false).setPbr 0
        jumpTo (← readWord .vector (.bank0 vector))) Eq L.Alike := by
    rw [halike.pc]
    exact (together_pushWord _).andThen fun _ => (together_push _).andThen fun _ =>
      (together_modify fun _ _ h => ((h.setFlag _ _).setFlag _ _).setPbr 0).andThen fun _ =>
      (together_readWord .vector (.bank0 _)).andThen fun _ => together_jumpTo L.kept_alike _
  dsimp only
  cases hmode : r.emulation with
  | true =>
    rw [← halike.emulation, hmode]
    exact hrest.of_imp fun _ _ h => h.1
  | false =>
    rw [← halike.emulation, hmode, ← hbank hmode]
    exact ((together_push r.pbr).andThen fun _ => hrest).of_imp fun _ _ h => h.1

theorem together_enterHardware (kind : Interrupt) :
    Together L (SameFrame L) (enterHardware kind) (enterHardware kind) Eq L.Alike := by
  refine together_get.bind fun r r' hr => together_idle.andThen fun _ => ?_
  simp only [hr.1.emulation, hr.1.p]
  split
  · exact together_idle.andThen fun _ => together_enter _ _
  · exact together_enter _ _

/-! ## Operations -/

/-- Registers that hold the same count of a block move. -/
def SameCount (L : Likeness) (r r' : Registers) : Prop := L.Alike r r' ∧ r.a = r'.a

theorem together_blockMove (stride : UInt16) :
    Together L (SameCount L) (blockMove stride) (blockMove stride) Eq L.Alike := by
  have hR : L.Kept (SameCount L) := ⟨And.left, fun h pc => ⟨h.1.setPc pc, h.2⟩⟩
  have hbank (target : UInt8) :
      Together L (SameCount L) (modify (·.setDbr target)) (modify (·.setDbr target)) Eq (SameCount L) :=
    together_modify fun r r' h => ⟨h.1.setDbr target, h.2⟩
  refine (together_fetch hR).andThen fun target => (together_fetch hR).andThen fun source =>
    (hbank target).andThen fun _ => together_get.bind fun r r' hr => ?_
  rw [hr.1.x, hr.1.y]
  refine (together_read .data (L.near_refl _)).andThen fun byte =>
    (together_write .data (L.near_refl _) byte).andThen fun _ => together_idle.andThen fun _ =>
    together_idle.andThen fun _ => together_modify fun r r' h => ?_
  obtain ⟨halike, ha⟩ := h
  have hmoved : L.Alike (((r.setX (r.x + stride)).setY (r.y + stride)).setA (r.a - 1))
      (((r'.setX (r'.x + stride)).setY (r'.y + stride)).setA (r'.a - 1)) := by
    rw [halike.x, halike.y, ha]
    exact ((halike.setX _).setY _).setA _
  have hcount : (((r.setX (r.x + stride)).setY (r.y + stride)).setA (r.a - 1)).a =
      (((r'.setX (r'.x + stride)).setY (r'.y + stride)).setA (r'.a - 1)).a := congrArg (· - 1) ha
  simp only [hcount, hmoved.pc]
  split
  · exact hmoved
  · exact hmoved.setPc _

/-- **The cycles of an instruction are the same** from registers in which its function finds the same. -/
theorem together_ofOperation {R : Registers → Registers → Prop} (hR : L.Kept R) {operation : Operation}
    (h : operation.Likens L R) (mode : Mode) :
    Together L R (ofOperation mode operation) (ofOperation mode operation) Eq L.Alike := by
  have halike {code code' : Microcode Unit} (h : Together L L.Alike code code' Eq L.Alike) :
      Together L R code code' Eq L.Alike := h.of_imp fun _ _ => hR.alike
  cases operation with
  | load group effect =>
    refine together_get.bind fun r r' hr => ?_
    rw [(hR.alike hr).widthOf]
    exact (together_readOperand hR mode _).andThen fun value => together_modify fun r r' hr => h r r' hr value
  | store group source =>
    refine together_get.bind fun r r' hr => ?_
    rw [(hR.alike hr).widthOf, h r r' hr]
    exact (together_resolve hR mode .write).bind fun _ _ hplace =>
      (together_writeAt hplace _ _).of_imp fun _ _ => hR.alike
  | modify effect =>
    refine together_get.bind fun r r' hr => ?_
    rw [(hR.alike hr).accumulatorWidth]
    dsimp only
    split
    · refine together_idle.andThen fun _ => together_modify fun r r' hr => ?_
      obtain ⟨hoperand, heffect⟩ := h r r' hr
      obtain ⟨hresult, hafter⟩ := heffect r'.accumulator
      simp only [hoperand, hresult]
      exact hafter.setAccumulator _
    · exact (together_resolve hR mode .write).bind fun _ _ hplace => (together_readAt hplace _).andThen fun value =>
        together_idle.andThen fun _ =>
        (together_modifyGet fun r r' hr => (h r r' hr).2 value).andThen fun _ => together_writeAt hplace _ _
  | internal cycles effect => exact (together_idles cycles).andThen fun _ => together_modify h
  | maskStatus effect =>
    refine (together_fetch hR).andThen fun mask => together_idle.andThen fun _ => together_modify fun r r' hr => ?_
    rw [(hR.alike hr).p]
    exact (hR.alike hr).setP _
  | branch condition =>
    refine together_get.bind fun r r' hr => ?_
    rw [h r r' hr]
    exact halike (together_branch L.kept_alike _)
  | branchLong =>
    refine halike <| (together_fetchWord L.kept_alike).andThen fun offset => together_idle.andThen fun _ =>
      together_get.bind fun r r' hr => ?_
    rw [hr.pc]
    exact together_jumpTo L.kept_alike _
  | push width source =>
    refine together_idle.andThen fun _ => together_get.bind fun r r' hr => ?_
    rw [(h r r' hr).1, (h r r' hr).2]
    exact halike (together_pushWidth _ _)
  | pull width effect =>
    obtain ⟨hwidth, heffect⟩ := h
    refine (together_idles 2).andThen fun _ => together_get.bind fun r r' hr => ?_
    rw [hwidth r r' hr]
    exact halike <| (together_pullWidth _).andThen fun value => together_modify fun r r' hr => heffect r r' hr value
  | pushConstant => exact halike <| (together_fetchWord L.kept_alike).andThen fun _ => together_pushWord _
  | pushIndirect =>
    exact halike <| (together_directOperand L.kept_alike).andThen fun _ =>
      (together_readWord .pointer (.bank0 _)).andThen fun _ => together_pushWord _
  | pushRelative =>
    refine halike <| (together_fetchWord L.kept_alike).andThen fun offset => together_idle.andThen fun _ =>
      together_get.bind fun r r' hr => ?_
    rw [hr.pc]
    exact together_pushWord _
  | jump => exact halike <| (together_fetchWord L.kept_alike).andThen fun _ => together_jumpTo L.kept_alike _
  | jumpIndirect =>
    exact halike <| (together_fetchWord L.kept_alike).andThen fun _ =>
      (together_readWord .pointer (.bank0 _)).andThen fun _ => together_jumpTo L.kept_alike _
  | jumpIndexed =>
    refine halike <| (together_fetchWord L.kept_alike).andThen fun pointer => together_idle.andThen fun _ =>
      together_get.bind fun r r' hr => ?_
    rw [hr.x]
    exact (together_programAddress L.kept_alike _).bind fun _ _ hbase =>
      (together_readWord .pointer (.long hbase.near)).andThen fun _ => together_jumpTo L.kept_alike _
  | jumpLong => exact halike <| (together_fetchLong L.kept_alike).andThen fun _ => together_jumpToLong _
  | jumpLongIndirect =>
    exact halike <| (together_fetchWord L.kept_alike).andThen fun _ =>
      (together_readLong (.bank0 _)).andThen fun _ => together_jumpToLong _
  | call =>
    refine halike <| (together_fetchWord L.kept_alike).andThen fun target => together_idle.andThen fun _ =>
      together_get.bind fun r r' hr => ?_
    rw [hr.pc]
    exact (together_pushWord _).andThen fun _ => together_jumpTo L.kept_alike _
  | callIndexed =>
    refine halike <| (together_fetch L.kept_alike).andThen fun low => together_get.bind fun r r' hr => ?_
    rw [hr.pc]
    refine (together_pushWord _).andThen fun _ => (together_fetch L.kept_alike).andThen fun high =>
      together_idle.andThen fun _ => together_get.bind fun r r' hr => ?_
    rw [hr.x]
    exact (together_programAddress L.kept_alike _).bind fun _ _ hbase =>
      (together_readWord .pointer (.long hbase.near)).andThen fun _ => together_jumpTo L.kept_alike _
  | callLong =>
    refine (together_fetchWord hR).andThen fun target => together_get.bind fun r r' hr => ?_
    rw [h r r' hr]
    refine halike <| (together_push _).andThen fun _ => together_idle.andThen fun _ =>
      (together_fetch L.kept_alike).andThen fun bank => together_get.bind fun r r' hr => ?_
    rw [hr.pc]
    exact (together_pushWord _).andThen fun _ => together_modify fun _ _ hr => (hr.setPbr bank).setPc target
  | ret =>
    exact halike <| (together_idles 2).andThen fun _ => together_pullWord.andThen fun _ =>
      together_idle.andThen fun _ => together_jumpTo L.kept_alike _
  | retLong =>
    exact halike <| (together_idles 2).andThen fun _ => together_pullWord.andThen fun target =>
      together_pull.andThen fun bank => together_modify fun _ _ hr => (hr.setPc (target + 1)).setPbr bank
  | retInterrupt =>
    refine halike <| (together_idles 2).andThen fun _ => together_pull.andThen fun status =>
      (together_modify fun _ _ hr => hr.restoreP status).andThen fun _ => together_pullWord.andThen fun _ =>
      (together_jumpTo L.kept_alike _).andThen fun _ => together_get.bind fun r r' hr => ?_
    rw [hr.emulation]
    split
    · exact together_pull.andThen fun bank => together_modify fun _ _ hr => hr.setPbr bank
    · exact together_pure rfl
  | interrupt source =>
    refine (together_fetch hR).andThen fun _ => together_get.bind fun r r' hr => ?_
    simp only [(hR.alike hr).emulation, (hR.alike hr).p]
    exact (together_enter _ _).of_imp fun r r' hr => ⟨hR.alike hr, h r r' hr⟩
  | blockMove stride => exact (together_blockMove stride).of_imp fun r r' hr => ⟨hR.alike hr, h r r' hr⟩
  | skip => exact halike <| (together_fetch L.kept_alike).andThen fun _ => together_pure rfl
  | rest state => exact halike (together_idles 2)

end Microcode

end Emu816
