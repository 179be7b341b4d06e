import Emu816.Proofs.InterruptReturn

/-!
# What instructions change in the registers

Every instruction has a scope: some registers and some bits of the status. Under the mode rules it changes nothing
outside its scope, but for the program counter. The rules matter because a status write settles the index registers,
which changes them only where they were not settled before.

- `Scope.Covers`: two register files agree outside a scope.
- `Instruction.scope`: the scope of an instruction.
- `covers_ofOperation`: every instruction keeps to its scope.
- `step_changes`: what a step that executes an instruction changes in the processor.
-/

namespace Emu816

/-! ## Scopes -/

/-- A register other than the program counter and the status; the mode counts as one. -/
inductive Register where
  | a | x | y | s | d | pbr | dbr | emulation
  deriving DecidableEq

/-- The value of a register. -/
def Registers.value (r : Registers) : Register → Nat
  | .a => r.a.toNat
  | .x => r.x.toNat
  | .y => r.y.toNat
  | .s => r.s.toNat
  | .d => r.d.toNat
  | .pbr => r.pbr.toNat
  | .dbr => r.dbr.toNat
  | .emulation => r.emulation.toNat

/-- Bits of the status and registers. -/
structure Scope where
  status : UInt8 := 0
  registers : List Register := []

/-- Nothing outside the scope differs, but for the program counter. -/
structure Scope.Covers (scope : Scope) (r r' : Registers) : Prop where
  status : r'.p &&& ~~~scope.status = r.p &&& ~~~scope.status
  registers : ∀ register ∉ scope.registers, r'.value register = r.value register

namespace Scope

variable {scope : Scope} {r r' r'' : Registers}

theorem Covers.refl (scope : Scope) (r : Registers) : scope.Covers r r := ⟨rfl, fun _ _ => rfl⟩

theorem Covers.trans (h : scope.Covers r r') (h' : scope.Covers r' r'') : scope.Covers r r'' :=
  ⟨h'.status.trans h.status, fun register hout => (h'.registers register hout).trans (h.registers register hout)⟩

theorem Covers.emulation (h : scope.Covers r r') (hout : .emulation ∉ scope.registers) :
    r'.emulation = r.emulation := by
  have hvalue : r'.emulation.toNat = r.emulation.toNat := h.registers .emulation hout
  revert hvalue
  cases r'.emulation <;> cases r.emulation <;> decide

theorem Covers.pbr (h : scope.Covers r r') (hout : .pbr ∉ scope.registers) : r'.pbr = r.pbr :=
  UInt8.toNat_inj.1 (h.registers .pbr hout)

theorem covers_setPc (scope : Scope) (r : Registers) (pc : UInt16) : scope.Covers r (r.setPc pc) :=
  ⟨rfl, fun register _ => by cases register <;> rfl⟩

/-- A write to one register of the scope. -/
theorem covers_of_register {register : Register} (hmem : register ∈ scope.registers) (hp : r'.p = r.p)
    (hothers : ∀ other ≠ register, r'.value other = r.value other) : scope.Covers r r' :=
  ⟨by rw [hp], fun other hout => hothers other fun heq => hout (heq ▸ hmem)⟩

/-- A write to status bits of the scope. -/
theorem covers_of_status {value : UInt8} (hbits : value &&& ~~~scope.status = r.p &&& ~~~scope.status) :
    scope.Covers r { r with p := value } :=
  ⟨hbits, fun register _ => by cases register <;> rfl⟩

end Scope

/-! ## Changes within a scope -/

/-- A write to other bits leaves the bits of a mask alone. -/
theorem Status.and_of_disjoint {mask bits : UInt8} (h : mask &&& bits = 0) (p : UInt8) (enabled : Bool) :
    (if enabled then p ||| mask else p &&& ~~~mask) &&& bits = p &&& bits := by
  apply UInt8.eq_of_toBitVec_eq
  ext i hi
  have hbit := congrArg (fun value => value.toBitVec.getLsbD i) h
  cases enabled <;> simp [hi] at hbit ⊢ <;> grind

/-- The result bits. -/
def Status.result : UInt8 := Status.zero ||| Status.negative

/-- Under the mode rules the registers change within the scope, and the rules are kept. -/
def Changes (scope : Scope) (r r' : Registers) : Prop := r.WellModed → r'.WellModed ∧ scope.Covers r r'

namespace Changes

variable {scope : Scope} {r r' r'' : Registers}

theorem refl (scope : Scope) (r : Registers) : Changes scope r r := fun hr => ⟨hr, .refl scope r⟩

theorem trans (h : Changes scope r r') (h' : Changes scope r' r'') : Changes scope r r'' := by
  intro hr
  obtain ⟨hr', hcovers⟩ := h hr
  obtain ⟨hr'', hcovers'⟩ := h' hr'
  exact ⟨hr'', hcovers.trans hcovers'⟩

/-- A write to one register of the scope. -/
theorem of_register {register : Register} (hmem : register ∈ scope.registers) (hsame : Registers.SameMode r r')
    (hp : r'.p = r.p) (hothers : ∀ other ≠ register, r'.value other = r.value other) : Changes scope r r' :=
  fun hr => ⟨hsame.2 hr, Scope.covers_of_register hmem hp hothers⟩

theorem setPc (scope : Scope) (r : Registers) (pc : UInt16) : Changes scope r (r.setPc pc) :=
  fun hr => ⟨(Registers.sameMode_setPc r pc).2 hr, Scope.covers_setPc scope r pc⟩

theorem setA (h : .a ∈ scope.registers) (r : Registers) (value : UInt16) : Changes scope r (r.setA value) :=
  of_register h (Registers.sameMode_setA r value) rfl fun other hother => by
    cases other <;> first | rfl | contradiction

theorem setAccumulator (h : .a ∈ scope.registers) (r : Registers) (value : UInt16) :
    Changes scope r (r.setAccumulator value) := by
  unfold Registers.setAccumulator
  split
  · exact setA h r _
  · exact setA h r _

theorem setX (h : .x ∈ scope.registers) (r : Registers) (value : UInt16) : Changes scope r (r.setX value) :=
  of_register h (Registers.sameMode_setX r value) rfl fun other hother => by
    cases other <;> first | rfl | contradiction

theorem setY (h : .y ∈ scope.registers) (r : Registers) (value : UInt16) : Changes scope r (r.setY value) :=
  of_register h (Registers.sameMode_setY r value) rfl fun other hother => by
    cases other <;> first | rfl | contradiction

theorem setS (h : .s ∈ scope.registers) (r : Registers) (value : UInt16) : Changes scope r (r.setS value) :=
  of_register h (Registers.sameMode_setS r value) rfl fun other hother => by
    cases other <;> first | rfl | contradiction

theorem setD (h : .d ∈ scope.registers) (r : Registers) (value : UInt16) : Changes scope r (r.setD value) :=
  of_register h (Registers.sameMode_setD r value) rfl fun other hother => by
    cases other <;> first | rfl | contradiction

theorem setPbr (h : .pbr ∈ scope.registers) (r : Registers) (value : UInt8) : Changes scope r (r.setPbr value) :=
  of_register h (Registers.sameMode_setPbr r value) rfl fun other hother => by
    cases other <;> first | rfl | contradiction

theorem setDbr (h : .dbr ∈ scope.registers) (r : Registers) (value : UInt8) : Changes scope r (r.setDbr value) :=
  of_register h (Registers.sameMode_setDbr r value) rfl fun other hother => by
    cases other <;> first | rfl | contradiction

/-- A status write that sets no new index width bit finds the index registers settled. -/
theorem setP_of_keeps {value : UInt8} (hbits : value &&& ~~~scope.status = r.p &&& ~~~scope.status)
    (hindex : value &&& Status.narrowIndex ≠ 0 → r.p &&& Status.narrowIndex ≠ 0) : Changes scope r (r.setP value) := by
  intro hr
  refine ⟨(Registers.sameMode_setP r value).2 hr, ?_⟩
  rw [Registers.setP_of_settled fun hnarrow => hr.narrow_index (hindex hnarrow)]
  exact Scope.covers_of_status hbits

/-- A status write that may set the index width bit. -/
theorem setP_of_index {value : UInt8} (hbits : value &&& ~~~scope.status = r.p &&& ~~~scope.status)
    (hx : .x ∈ scope.registers) (hy : .y ∈ scope.registers) : Changes scope r (r.setP value) := by
  refine fun hr => ⟨(Registers.sameMode_setP r value).2 hr, by rwa [Registers.setP_p], ?_⟩
  intro register hout
  unfold Registers.setP
  split <;> cases register <;> first | rfl | contradiction

theorem setFlag {mask : UInt8} (hmask : mask &&& ~~~scope.status = 0) (hindex : mask &&& Status.narrowIndex = 0)
    (r : Registers) (enabled : Bool) : Changes scope r (r.setFlag mask enabled) := by
  refine setP_of_keeps (Status.and_of_disjoint hmask _ _) fun hnarrow => ?_
  rwa [Status.and_of_disjoint hindex] at hnarrow

theorem setZero (h : Status.zero &&& ~~~scope.status = 0) (r : Registers) (value : UInt16) (width : Width) :
    Changes scope r (r.setZero value width) := setFlag h (by decide) r _

/-- Result bits of the scope may follow any change. -/
theorem result (h : Changes scope r r') (hresult : Status.result &&& ~~~scope.status = 0) (value : UInt16)
    (width : Width) : Changes scope r (r'.setResult value width) := by
  have hbits : Status.zero &&& ~~~scope.status = 0 ∧ Status.negative &&& ~~~scope.status = 0 :=
    forall_byte
      (P := fun bits => Status.result &&& ~~~bits = 0 → Status.zero &&& ~~~bits = 0 ∧ Status.negative &&& ~~~bits = 0)
      (by decide +kernel) scope.status hresult
  exact h.trans ((setZero hbits.1 r' value width).trans (setFlag hbits.2 (by decide) _ _))

theorem loadSum (ha : .a ∈ scope.registers) (hresult : Status.result &&& ~~~scope.status = 0)
    (hcarry : Status.carry &&& ~~~scope.status = 0) (hoverflow : Status.overflow &&& ~~~scope.status = 0)
    (r : Registers) (sum : Arithmetic.Sum) : Changes scope r (r.loadSum sum) :=
  (((setAccumulator ha r _).trans (setFlag hcarry (by decide) _ _)).trans (setFlag hoverflow (by decide) _ _)).result
    hresult _ _

theorem compareOperand (hresult : Status.result &&& ~~~scope.status = 0) (hcarry : Status.carry &&& ~~~scope.status = 0)
    (r : Registers) (register value : UInt16) (width : Width) :
    Changes scope r (r.compareOperand register value width) :=
  (setFlag hcarry (by decide) r _).result hresult _ _

theorem testOperand (hzero : Status.zero &&& ~~~scope.status = 0) (hnegative : Status.negative &&& ~~~scope.status = 0)
    (hoverflow : Status.overflow &&& ~~~scope.status = 0) (r : Registers) (value : UInt16) :
    Changes scope r (r.testOperand value) :=
  ((setFlag hzero (by decide) r _).trans (setFlag hnegative (by decide) _ _)).trans (setFlag hoverflow (by decide) _ _)

theorem shifted (hresult : Status.result &&& ~~~scope.status = 0) (hcarry : Status.carry &&& ~~~scope.status = 0)
    (r : Registers) (width : Width) (outcome : UInt16 × Bool) : Changes scope r (r.shifted width outcome).2 :=
  (setFlag hcarry (by decide) r _).result hresult _ _

end Changes

/-! ## Scopes of instructions -/

/-- What a status byte from the stack may change: in emulation mode the width bits stay. -/
def Registers.restoreScope (r : Registers) : Scope :=
  if r.emulation then { status := ~~~Status.widths } else { status := 0xFF, registers := [.x, .y] }

/-- The scope of an instruction, from the registers before it and the bytes that memory answers after its opcode. -/
def Instruction.scope (instruction : Instruction) (r : Registers) (bytes : List UInt8) : Scope :=
  let target : List Register := if instruction.mode = .accumulator then [.a] else []
  let mask := bytes.getD 0 0
  match instruction.mnemonic with
  | .sta | .stx | .sty | .stz | .bpl | .bmi | .bvc | .bvs | .bcc | .bcs | .bne | .beq | .bra | .brl | .jmp | .nop | .wdm
  | .wai | .stp => {}
  | .jml => { registers := [.pbr] }
  | .jsr | .rts | .pha | .phx | .phy | .php | .phb | .phk | .phd | .pea | .pei | .per | .txs | .tcs =>
    { registers := [.s] }
  | .jsl | .rtl => { registers := [.s, .pbr] }
  | .mvn | .mvp => { registers := [.a, .x, .y, .dbr] }
  | .lda | .ora | .and | .eor | .txa | .tya | .tsc | .tdc | .xba => ⟨Status.result, [.a]⟩
  | .ldx | .inx | .dex | .tax | .tyx | .tsx => ⟨Status.result, [.x]⟩
  | .ldy | .iny | .dey | .tay | .txy => ⟨Status.result, [.y]⟩
  | .tcd => ⟨Status.result, [.d]⟩
  | .pla => ⟨Status.result, [.s, .a]⟩
  | .plx => ⟨Status.result, [.s, .x]⟩
  | .ply => ⟨Status.result, [.s, .y]⟩
  | .pld => ⟨Status.result, [.s, .d]⟩
  | .plb => ⟨Status.result, [.s, .dbr]⟩
  | .inc | .dec => ⟨Status.result, target⟩
  | .asl | .lsr | .rol | .ror => ⟨Status.result ||| Status.carry, target⟩
  | .cmp | .cpx | .cpy => { status := Status.result ||| Status.carry }
  | .adc | .sbc => ⟨Status.result ||| Status.carry ||| Status.overflow, [.a]⟩
  | .bit => { status := if instruction.mode = .immediate then Status.zero else Status.result ||| Status.overflow }
  | .tsb | .trb => ⟨Status.zero, target⟩
  | .clc | .sec => { status := Status.carry }
  | .cli | .sei => { status := Status.interruptDisable }
  | .cld | .sed => { status := Status.decimal }
  | .clv => { status := Status.overflow }
  | .rep => { status := mask }
  | .sep => ⟨mask, if mask &&& Status.narrowIndex = 0 then [] else [.x, .y]⟩
  | .plp => ⟨r.restoreScope.status, .s :: r.restoreScope.registers⟩
  | .rti => ⟨r.restoreScope.status, (if r.emulation then [.s] else [.s, .pbr]) ++ r.restoreScope.registers⟩
  | .xce =>
    if !r.emulation ∧ r.flag Status.carry then ⟨Status.carry ||| Status.widths, [.x, .y, .s, .emulation]⟩
    else ⟨Status.carry, [.emulation]⟩
  | .brk | .cop => ⟨Status.interruptDisable ||| Status.decimal, [.s, .pbr]⟩

/-! ## Operations -/

/-- The relation of changes within a scope; what goes over the bus does not matter. -/
def Within (scope : Scope) : Relation := fun r _ r' => Changes scope r r'

theorem within_basic (scope : Scope) : (Within scope).Basic where
  refl := Changes.refl scope
  trans := Changes.trans
  idle := Changes.refl scope
  transfer r _ _ := Changes.refl scope r
  setPc := Changes.setPc scope

theorem within_stacks {scope : Scope} (h : .s ∈ scope.registers) : (Within scope).Stacks where
  push r _ := Changes.setS h r _
  pull r _ := Changes.setS h r _

section Operations

open Microcode

/-- A change of an operand writes the accumulator only if that is the operand. -/
theorem follows_modify_within {scope : Scope} {effect : Registers → UInt16 → UInt16 × Registers}
    (heffect : ∀ r value, Changes scope r (effect r value).2) {mode : Mode}
    (htarget : mode = .accumulator → .a ∈ scope.registers) :
    Follows (Within scope) (ofOperation mode (.modify effect)) := by
  have hR := within_basic scope
  by_cases hmode : mode = .accumulator
  · have hrespects : (Operation.modify effect).Respects (Within scope) :=
      ⟨fun value r => heffect r value, fun value r => Changes.setAccumulator (htarget hmode) r value⟩
    exact follows_ofOperation hR hrespects mode
  · refine (follows_get hR).bind hR fun r => ?_
    simp only [if_neg hmode]
    exact (follows_resolve hR mode .write).bind hR fun _ => (follows_readAt hR _ _).bind hR fun value =>
      (follows_idle hR).bind hR fun _ => Follows.bind (fun r => heffect r value) hR fun _ => follows_writeAt hR _ _ _

theorem mem_target {mode : Mode} (h : mode = .accumulator) :
    Register.a ∈ if mode = .accumulator then [Register.a] else [] := by
  simp [h]

/-- Instructions that change an operand. -/
def Mnemonic.changesOperand : Mnemonic → Bool
  | .asl | .lsr | .rol | .ror | .inc | .dec | .tsb | .trb => true
  | _ => false

/-- Instructions whose scope depends on a status byte or on the mode. -/
def Mnemonic.scopeVaries : Mnemonic → Bool
  | .rep | .sep | .plp | .rti | .xce => true
  | _ => false

open Changes in
theorem respects_scope {instruction : Instruction} (hvaries : instruction.mnemonic.scopeVaries = false)
    (hchanges : instruction.mnemonic.changesOperand = false) (r₀ : Registers) (bytes : List UInt8) :
    instruction.operation.Respects (Within (instruction.scope r₀ bytes)) := by
  obtain ⟨mnemonic, mode⟩ := instruction
  cases mnemonic with
  | rep | sep | plp | rti | xce => cases hvaries
  | asl | lsr | rol | ror | inc | dec | tsb | trb => cases hchanges
  | sta | stx | sty | stz | bpl | bmi | bvc | bvs | bcc | bcs | bne | beq | bra | brl | wdm | wai | stp => exact trivial
  | nop => exact refl _
  | lda | ora | and | eor =>
    show Operation.Respects (Within ⟨Status.result, [.a]⟩) _
    exact fun _ r => (setAccumulator (by decide) r _).result (by decide) _ _
  | ldx =>
    show Operation.Respects (Within ⟨Status.result, [.x]⟩) _
    exact fun _ r => (setX (by decide) r _).result (by decide) _ _
  | ldy =>
    show Operation.Respects (Within ⟨Status.result, [.y]⟩) _
    exact fun _ r => (setY (by decide) r _).result (by decide) _ _
  | adc | sbc =>
    show Operation.Respects (Within ⟨Status.result ||| Status.carry ||| Status.overflow, [.a]⟩) _
    exact fun _ r => loadSum (by decide) (by decide) (by decide) (by decide) r _
  | cmp | cpx | cpy =>
    show Operation.Respects (Within ⟨Status.result ||| Status.carry, []⟩) _
    exact fun _ r => compareOperand (by decide) (by decide) r _ _ _
  | bit =>
    simp only [Instruction.operation, Instruction.scope]
    split
    · exact fun _ r => setFlag (by decide) (by decide) r _
    · exact fun _ r => testOperand (by decide) (by decide) (by decide) r _
  | inx | dex | tax | tyx | tsx =>
    show Operation.Respects (Within ⟨Status.result, [.x]⟩) _
    exact fun r => (setX (by decide) r _).result (by decide) _ _
  | iny | dey | tay | txy =>
    show Operation.Respects (Within ⟨Status.result, [.y]⟩) _
    exact fun r => (setY (by decide) r _).result (by decide) _ _
  | txa | tya =>
    show Operation.Respects (Within ⟨Status.result, [.a]⟩) _
    exact fun r => (setAccumulator (by decide) r _).result (by decide) _ _
  | tsc | tdc | xba =>
    show Operation.Respects (Within ⟨Status.result, [.a]⟩) _
    exact fun r => (setA (by decide) r _).result (by decide) _ _
  | tcd =>
    show Operation.Respects (Within ⟨Status.result, [.d]⟩) _
    exact fun r => (setD (by decide) r _).result (by decide) _ _
  | txs | tcs =>
    show Operation.Respects (Within ⟨0, [.s]⟩) _
    exact fun r => setS (by decide) r _
  | clc | sec =>
    show Operation.Respects (Within ⟨Status.carry, []⟩) _
    exact fun r => setFlag (by decide) (by decide) r _
  | cli | sei =>
    show Operation.Respects (Within ⟨Status.interruptDisable, []⟩) _
    exact fun r => setFlag (by decide) (by decide) r _
  | cld | sed =>
    show Operation.Respects (Within ⟨Status.decimal, []⟩) _
    exact fun r => setFlag (by decide) (by decide) r _
  | clv =>
    show Operation.Respects (Within ⟨Status.overflow, []⟩) _
    exact fun r => setFlag (by decide) (by decide) r _
  | pha | phx | phy | php | phb | phk | phd | pea | pei | per | rts => exact within_stacks List.mem_cons_self
  | jsr =>
    simp only [Instruction.operation]
    split <;> exact within_stacks List.mem_cons_self
  | pla =>
    show Operation.Respects (Within ⟨Status.result, [.s, .a]⟩) _
    exact ⟨within_stacks (by decide), fun _ r => (setAccumulator (by decide) r _).result (by decide) _ _⟩
  | plx =>
    show Operation.Respects (Within ⟨Status.result, [.s, .x]⟩) _
    exact ⟨within_stacks (by decide), fun _ r => (setX (by decide) r _).result (by decide) _ _⟩
  | ply =>
    show Operation.Respects (Within ⟨Status.result, [.s, .y]⟩) _
    exact ⟨within_stacks (by decide), fun _ r => (setY (by decide) r _).result (by decide) _ _⟩
  | pld =>
    show Operation.Respects (Within ⟨Status.result, [.s, .d]⟩) _
    exact ⟨within_stacks (by decide), fun _ r => (setD (by decide) r _).result (by decide) _ _⟩
  | plb =>
    show Operation.Respects (Within ⟨Status.result, [.s, .dbr]⟩) _
    exact ⟨within_stacks (by decide), fun _ r => (setDbr (by decide) r _).result (by decide) _ _⟩
  | jmp =>
    simp only [Instruction.operation]
    split <;> exact trivial
  | jml =>
    simp only [Instruction.operation]
    split <;> exact fun bank r => setPbr List.mem_cons_self r bank
  | jsl | rtl =>
    show Operation.Respects (Within ⟨0, [.s, .pbr]⟩) _
    exact ⟨within_stacks (by decide), fun bank r => setPbr (by decide) r bank⟩
  | brk | cop =>
    show Operation.Respects (Within ⟨Status.interruptDisable ||| Status.decimal, [.s, .pbr]⟩) _
    exact ⟨within_stacks (by decide), fun r => setFlag (by decide) (by decide) r _,
      fun r => setFlag (by decide) (by decide) r _, fun r => setPbr (by decide) r 0⟩
  | mvn | mvp =>
    show Operation.Respects (Within ⟨0, [.a, .x, .y, .dbr]⟩) _
    exact ⟨fun _ r => setDbr (by decide) r _, fun _ r => setX (by decide) r _, fun _ r => setY (by decide) r _,
      fun _ r => setA (by decide) r _⟩

/-- Every instruction with a fixed scope keeps to it. -/
theorem follows_scope {instruction : Instruction} (hvaries : instruction.mnemonic.scopeVaries = false) (r₀ : Registers)
    (bytes : List UInt8) :
    Follows (Within (instruction.scope r₀ bytes)) (ofOperation instruction.mode instruction.operation) := by
  cases hchanges : instruction.mnemonic.changesOperand with
  | false => exact follows_ofOperation (within_basic _) (respects_scope hvaries hchanges r₀ bytes) _
  | true =>
    obtain ⟨mnemonic, mode⟩ := instruction
    cases mnemonic with
    | asl | lsr | rol | ror =>
      show Follows (Within ⟨Status.result ||| Status.carry, if mode = .accumulator then [.a] else []⟩) _
      refine follows_modify_within (fun r _ => ?_) mem_target
      refine Changes.shifted ?_ ?_ r _ _ <;> dsimp only <;> decide
    | inc | dec =>
      show Follows (Within ⟨Status.result, if mode = .accumulator then [.a] else []⟩) _
      refine follows_modify_within (fun r _ => ?_) mem_target
      refine (Changes.refl _ r).result ?_ _ _
      dsimp only
      decide
    | tsb | trb =>
      show Follows (Within ⟨Status.zero, if mode = .accumulator then [.a] else []⟩) _
      refine follows_modify_within (fun r _ => ?_) mem_target
      refine Changes.setZero ?_ r _ _
      dsimp only
      decide
    | _ => cases hchanges

end Operations

/-! ## Instructions whose scope varies -/

section Varying

variable {scope : Scope} {r : Registers}

/-- A status byte from the stack keeps to its scope: on an emulated processor the live width bits stay. -/
theorem changes_restoreP {registers : List Register} (r : Registers)
    (hregisters : ∀ register ∈ r.restoreScope.registers, register ∈ registers) (value : UInt8) :
    Changes ⟨r.restoreScope.status, registers⟩ r (r.restoreP value) := by
  unfold Registers.restoreScope at hregisters ⊢
  unfold Registers.restoreP
  cases hmode : r.emulation with
  | true =>
    have hwidths : ((value &&& ~~~Status.widths) ||| (r.p &&& Status.widths)) &&& Status.widths =
        r.p &&& Status.widths := by
      apply UInt8.eq_of_toBitVec_eq
      ext i
      simp
      grind
    have hindex : ((value &&& ~~~Status.widths) ||| (r.p &&& Status.widths)) &&& Status.narrowIndex =
        r.p &&& Status.narrowIndex := by
      have hbit : Status.narrowIndex = Status.widths &&& Status.narrowIndex := by decide
      rw [hbit, ← UInt8.and_assoc, ← UInt8.and_assoc, hwidths]
    refine Changes.setP_of_keeps ?_ fun hnarrow => ?_
    · simpa using hwidths
    · simpa [hindex] using hnarrow
  | false =>
    simp only [hmode, Bool.false_eq_true, if_false] at hregisters ⊢
    have hnone : ~~~(0xFF : UInt8) = 0 := by decide
    exact Changes.setP_of_index (by simp [hnone]) (hregisters _ (by decide)) (hregisters _ (by decide))

/-- A status byte is taken from the stack. -/
theorem changes_pulledStatus {registers : List Register} (hs : .s ∈ registers)
    (hregisters : ∀ register ∈ r.restoreScope.registers, register ∈ registers) (s pc : UInt16) (value : UInt8) :
    Changes ⟨r.restoreScope.status, registers⟩ r (((r.setS s).restoreP value).setPc pc) := by
  have hrestore : Changes ⟨r.restoreScope.status, registers⟩ (r.setS s) ((r.setS s).restoreP value) :=
    changes_restoreP (r.setS s) hregisters value
  exact ((Changes.setS hs r s).trans hrestore).trans (Changes.setPc _ _ pc)

/-- Leaving emulation mode, or staying out of it, changes the mode only. -/
theorem covers_setEmulation_false (hmode : .emulation ∈ scope.registers) (r : Registers) :
    scope.Covers r (r.setEmulation false) :=
  Scope.covers_of_register hmode rfl fun other hother => by cases other <;> first | rfl | contradiction

/-- Entering emulation mode sets both width bits and settles the stack pointer. -/
theorem covers_setEmulation_true (hout : r.emulation = false) :
    Scope.Covers ⟨Status.carry ||| Status.widths, [.x, .y, .s, .emulation]⟩ r (r.setEmulation true) := by
  simp only [Registers.setEmulation, hout, if_true, Bool.false_eq_true, if_false]
  refine ⟨?_, fun register hout => ?_⟩
  · rw [Registers.setS_p, Registers.setP_p]
    exact Status.and_of_disjoint (by decide) r.p true
  · unfold Registers.setP
    split <;> cases register <;> first | rfl | simp at hout

/-- An emulated processor stays as it is when it enters emulation mode. -/
theorem Registers.WellModed.setEmulation_self (hr : r.WellModed) (hmode : r.emulation = true) :
    r.setEmulation true = r := by
  have hsame : { r with emulation := true } = r := by rw [← hmode]
  simp only [Registers.setEmulation, hmode, if_true, hsame, hr.setS_s]

/-- The exchange of carry and mode keeps to its scope. -/
theorem covers_exchangeEmulation (hr : r.WellModed) (mode : Mode) (bytes : List UInt8) :
    (Instruction.scope ⟨.xce, mode⟩ r bytes).Covers r r.exchangeEmulation := by
  have hcarry {scope : Scope} (hmask : Status.carry &&& ~~~scope.status = 0) :
      scope.Covers r (r.setFlag Status.carry r.emulation) := (Changes.setFlag hmask (by decide) r _ hr).2
  simp only [Instruction.scope, Registers.exchangeEmulation]
  cases hflag : r.flag Status.carry with
  | false =>
    simp only [Bool.false_eq_true, and_false, if_false]
    exact (hcarry (by decide)).trans (covers_setEmulation_false (by decide) _)
  | true =>
    cases hmode : r.emulation with
    | false =>
      have hout : (r.setFlag Status.carry false).emulation = false := (Registers.setP_emulation _ _).trans hmode
      rw [hmode] at hcarry
      simp only [Bool.not_false, and_true, if_true]
      exact (hcarry (by decide)).trans (covers_setEmulation_true hout)
    | true =>
      have hin : (r.setFlag Status.carry true).emulation = true := (Registers.setP_emulation _ _).trans hmode
      rw [hmode] at hcarry
      rw [((Registers.sameMode_setFlag r _ _).2 hr).setEmulation_self hin]
      exact hcarry (by decide)

/-- Clearing the bits of a mask sets no width bit. -/
theorem changes_clear (hstatus : scope.status &&& ~~~scope.status = 0) :
    Changes scope r (r.setP (r.p &&& ~~~scope.status)) := by
  refine Changes.setP_of_keeps (Status.and_of_disjoint hstatus r.p false) fun hnarrow hclear => hnarrow ?_
  rw [UInt8.and_assoc, UInt8.and_comm (~~~scope.status), ← UInt8.and_assoc, hclear, UInt8.zero_and]

/-- Setting the bits of a mask settles the index registers if the index width bit is among them. -/
theorem changes_set (mask : UInt8) :
    Changes ⟨mask, if mask &&& Status.narrowIndex = 0 then [] else [.x, .y]⟩ r (r.setP (r.p ||| mask)) := by
  by_cases hindex : mask &&& Status.narrowIndex = 0
  · exact Changes.setFlag (UInt8.and_not_self) hindex r true
  · rw [if_neg hindex]
    exact Changes.setP_of_index (Status.and_of_disjoint UInt8.and_not_self r.p true) (by simp) (by simp)

end Varying

/-! ## Instructions -/

section Instructions

open Microcode

variable {r : Registers}

/-- A fixed scope does not depend on the registers or on memory. -/
theorem scope_of_fixed {instruction : Instruction} (h : instruction.mnemonic.scopeVaries = false) (r : Registers)
    (bytes : List UInt8) : instruction.scope r bytes = instruction.scope r [] := by
  obtain ⟨mnemonic, mode⟩ := instruction
  cases mnemonic with
  | rep | sep | plp | rti | xce => cases h
  | _ => rfl

/-- **Every instruction keeps to its scope.** -/
theorem covers_ofOperation (hr : r.WellModed) (instruction : Instruction) :
    (ofOperation instruction.mode instruction.operation).Ensures (r.setPc (r.pc + 1)) fun log _ r' =>
      (instruction.scope r (answers log)).Covers r r' := by
  cases hvaries : instruction.mnemonic.scopeVaries with
  | false =>
    refine (follows_scope hvaries r [] _).mono ?_
    intro log _ r' hchanges
    rw [scope_of_fixed hvaries]
    exact ((Changes.setPc _ r _).trans hchanges hr).2
  | true =>
    obtain ⟨mnemonic, mode⟩ := instruction
    cases mnemonic with
    | rep =>
      simp [Instruction.operation, ofOperation]
      intro mask
      exact ((Changes.setPc _ r _).trans (changes_clear UInt8.and_not_self) hr).2
    | sep =>
      simp [Instruction.operation, ofOperation]
      intro mask
      exact ((Changes.setPc _ r _).trans (changes_set mask) hr).2
    | plp =>
      simp [Instruction.operation, Operation.pullByte, ofOperation, pullWidth]
      intro status
      exact (changes_pulledStatus List.mem_cons_self (fun _ => List.mem_cons_of_mem _) _ _ _ hr).2
    | rti =>
      cases hmode : r.emulation with
      | false =>
        rw [Instruction.operation, ensures_retInterrupt_native (r := r.setPc (r.pc + 1)) hmode]
        intro status low high bank
        simp only [Instruction.scope, hmode, Registers.setS_setPc, Registers.restoreP_setPc, Registers.setPc_setPc]
        have hpull : Changes ⟨r.restoreScope.status, [.s, .pbr] ++ r.restoreScope.registers⟩ r
            (((r.setS (r.s + 4)).restoreP status).setPc (Word.ofBytes low high)) :=
          changes_pulledStatus (by simp) (fun _ => List.mem_append_right _) _ _ _
        exact (hpull.trans (Changes.setPbr (by simp) _ bank) hr).2
      | true =>
        rw [Instruction.operation, ensures_retInterrupt_emulated (r := r.setPc (r.pc + 1)) hmode]
        intro status low high
        simp only [Instruction.scope, hmode, Registers.setS_setPc, Registers.restoreP_setPc, Registers.setPc_setPc]
        exact (changes_pulledStatus (by simp) (fun _ => List.mem_append_right _) _ _ _ hr).2
    | xce =>
      simp [Instruction.operation, ofOperation]
      have hfetched : (r.setPc (r.pc + 1)).WellModed := (Registers.sameMode_setPc _ _).2 hr
      exact (Scope.covers_setPc _ r _).trans (covers_exchangeEmulation hfetched mode [])
    | _ => cases hvaries

end Instructions

/-! ## Steps -/

/-- Run state that an instruction leaves behind. -/
def Mnemonic.leaves : Mnemonic → RunState
  | .wai => .waiting
  | .stp => .stopped
  | _ => .running

theorem runState_operation (instruction : Instruction) :
    instruction.operation.runState = instruction.mnemonic.leaves := by
  obtain ⟨mnemonic, mode⟩ := instruction
  cases mnemonic with
  | bit | jmp | jml | jsr =>
    simp only [Instruction.operation]
    split <;> rfl
  | _ => rfl

theorem ensures_activity_changes (cpu : Cpu) (hr : cpu.regs.WellModed) :
    cpu.activity.Ensures fun log result => ∀ pbr pc opcode, result.1 = .executed pbr pc opcode →
      cpu.task = .execute ∧
      ((Instruction.decode opcode).scope cpu.regs (answers log).tail).Covers cpu.regs result.2.1 ∧
      result.2.2 = (Instruction.decode opcode).mnemonic.leaves := by
  rw [Cpu.ensures_activity]
  split
  · exact nofun
  · exact nofun
  · exact Microcode.ensures_of_forall fun _ _ _ => nofun
  · rename_i htask
    rw [Cpu.ensures_instruction]
    intro opcode
    refine (covers_ofOperation hr (Instruction.decode opcode)).mono ?_
    rintro log _ r' hcovers _ _ _ ⟨⟩
    exact ⟨htask, hcovers, runState_operation _⟩

/-- **What a step changes when it executes an instruction**: the registers and status bits in the scope of the
instruction and the program counter, the run state only for the two instructions that rest, and no interrupt line. A
processor that waited runs again. -/
theorem step_changes (cpu : Cpu) (hr : cpu.regs.WellModed) {μ : Type} [Memory μ] (memory : μ) (pbr : UInt8)
    (pc : UInt16) (opcode : UInt8) (hexecuted : (cpu.step memory).1.event = .executed pbr pc opcode) :
    let instruction := Instruction.decode opcode
    let bytes := (answers (cpu.log memory)).tail
    let after := (cpu.step memory).2.1
    (instruction.scope cpu.regs bytes).Covers cpu.regs after.regs ∧
    cpu.runState ≠ .stopped ∧ after.runState = instruction.mnemonic.leaves ∧
    after.nmiPending = cpu.nmiPending ∧ after.irqLine = cpu.irqLine ∧ after.resetFallback = cpu.resetFallback := by
  intro instruction bytes after
  obtain ⟨htask, hcovers, hleaves⟩ :=
    Cpu.step_of_ensures (ensures_activity_changes cpu hr) memory pbr pc opcode hexecuted
  have hrunning : cpu.runState ≠ .stopped := by
    intro hstopped
    rw [Cpu.task, if_pos hstopped] at htask
    cases htask
  have hnmi : cpu.keepsNmi = cpu.nmiPending := by
    rw [Cpu.keepsNmi, htask]
    exact Bool.and_true _
  exact ⟨hcovers, hrunning, hleaves, hnmi, rfl, rfl⟩

/-- Setting the index width bit settles an index register of 16 bits, and no other register changes. -/
theorem step_changes_settles :
    let memory : FlatMemory := ⟨fun addr => if addr = 0 then 0xE2 else 0x10⟩
    let cpu : Cpu := { regs := { x := 0x1234, p := 0, emulation := false } }
    (cpu.step memory).1.event = .executed 0 0 0xE2 ∧
    Scope.Covers ⟨0x10, [.x, .y]⟩ cpu.regs (cpu.step memory).2.1.regs ∧
    (cpu.step memory).2.1.regs.x = 0x0034 := by
  intro memory cpu
  have hevent : (cpu.step memory).1.event = .executed 0 0 0xE2 := by decide
  have hr : cpu.regs.WellModed := ⟨by decide, by decide⟩
  have hdecode : Instruction.decode 0xE2 = ⟨.sep, .immediate8⟩ := by decide
  have hanswers : (answers (cpu.log memory)).tail = [0x10] := by decide
  have hcovers := (step_changes cpu hr memory 0 0 0xE2 hevent).1
  rw [hdecode, hanswers] at hcovers
  exact ⟨hevent, hcovers, by decide⟩

end Emu816
