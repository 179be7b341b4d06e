import Emu816.Proofs.Reset

/-!
# What a machine leaves alone

Whatever program runs and whatever a host does to a machine, the image in the slot stays as it is until another one is
put in, the scheme until another one is chosen, and a byte of battery-backed memory until an image is imported or a
write reaches its cell.

- `Bus.Keeps`: the image and all bytes of battery-backed memory but some are kept; `keeps_of_exchange`: by transfers.
- `HostAct`, `HostAct.history`: what a host does, and the machines to which it does that.
- `HostAct.Reaches`: the bytes of battery-backed memory that an act may change.
- `storage_frame`: any acts, resets and single steps.
-/

namespace Emu816

/-! ## Transfers -/

/-- The transfer writes the byte of battery-backed memory with the given index. -/
def Scheme.WritesSaveRam (scheme : Scheme) (index : Fin saveRamSize) (t : Transfer) : Prop :=
  t.direction = .write ∧ scheme.cell? t.addr = some (.saveRam index)

namespace Bus

variable {σ : Type}

/-- The image is kept, and so are the bytes of battery-backed memory that are not reached. -/
structure Keeps (bus after : Bus σ) (reached : Fin saveRamSize → Prop) : Prop where
  rom : after.rom = bus.rom
  saveRam : ∀ index, ¬reached index → after.saveRam.get index = bus.saveRam.get index

namespace Keeps

variable {bus between after : Bus σ} {reached reached' : Fin saveRamSize → Prop}

theorem of_eq (hrom : after.rom = bus.rom) (hsaveRam : after.saveRam = bus.saveRam) : Keeps bus after reached :=
  ⟨hrom, fun index _ => by rw [hsaveRam]⟩

theorem trans (h : Keeps bus between reached) (h' : Keeps between after reached') :
    Keeps bus after fun index => reached index ∨ reached' index := by
  refine ⟨h'.rom.trans h.rom, fun index hindex => ?_⟩
  rw [not_or] at hindex
  exact (h'.saveRam index hindex.2).trans (h.saveRam index hindex.1)

theorem mono (h : Keeps bus after reached) (himp : ∀ index, reached index → reached' index) :
    Keeps bus after reached' :=
  ⟨h.rom, fun index hindex => h.saveRam index fun hreached => hindex (himp index hreached)⟩

/-- If no byte is reached, all of them are kept. -/
theorem saveRam_eq (h : Keeps bus after reached) (hnone : ∀ index, ¬reached index) : after.saveRam = bus.saveRam := by
  apply Vector.ext
  intro i hi
  exact h.saveRam ⟨i, hi⟩ (hnone ⟨i, hi⟩)

end Keeps

theorem keeps_read (bus : Bus σ) (addr : UInt32) : Keeps bus (bus.read addr).2 fun _ => False := by
  unfold read
  split
  · exact .of_eq rfl rfl
  · exact .of_eq rfl rfl

/-- A write reaches the byte of battery-backed memory that it goes to, if it goes there. -/
theorem keeps_write [Observer σ] (bus : Bus σ) (purpose : Purpose) (addr : UInt32) (byte : UInt8) :
    Keeps bus (bus.write addr byte) fun index => bus.scheme.WritesSaveRam index ⟨.write, purpose, addr, byte⟩ := by
  unfold write
  cases hlocate : bus.scheme.locate addr with
  | saveRam offset =>
    refine ⟨rfl, fun index hindex => ?_⟩
    have hne : saveIndex offset ≠ index := by
      rintro rfl
      exact hindex ⟨rfl, by rw [Scheme.cell?, hlocate]; rfl⟩
    exact (get_set bus.saveRam (saveIndex offset) index byte).trans (if_neg hne)
  | workRam offset => exact .of_eq rfl rfl
  | rom offset => exact .of_eq rfl rfl
  | io offset => exact .of_eq rfl rfl
  | openBus => exact .of_eq rfl rfl

/-- An image that is imported fits, and nothing but battery-backed memory is filled. -/
theorem of_importSaveRam_ok {bus filled : Bus σ} {image : Image} (h : bus.importSaveRam image = .ok filled) :
    image.size ≤ saveRamSize ∧ filled.rom = bus.rom ∧ filled.scheme = bus.scheme := by
  unfold importSaveRam at h
  split at h
  · rename_i hsize
    rw [← Except.ok.inj h]
    exact ⟨hsize, rfl, rfl⟩
  · cases h

/-- Callbacks are put in place without any effect on what is stored. -/
theorem setDevice_storage (bus : Bus σ) (first last : UInt16) (device : IoDevice σ) :
    (bus.setDevice first last device).rom = bus.rom ∧ (bus.setDevice first last device).saveRam = bus.saveRam ∧
      (bus.setDevice first last device).scheme = bus.scheme := by
  have hall (offsets : List Nat) (bus : Bus σ) :
      let after := offsets.foldl (fun bus offset => bus.setHandler (UInt16.ofNat offset) (.ofDevice device)) bus
      after.rom = bus.rom ∧ after.saveRam = bus.saveRam ∧ after.scheme = bus.scheme := by
    induction offsets generalizing bus with
    | nil => exact ⟨rfl, rfl, rfl⟩
    | cons offset offsets ih => exact ih (bus.setHandler (UInt16.ofNat offset) (.ofDevice device))
  exact hall _ bus

end Bus

section Exchange

variable {σ τ : Type} [Observer σ]

/-- **Transfers keep the image**, and the bytes of battery-backed memory that none of them writes. -/
theorem keeps_of_exchange {bus after : Bus σ} {log : List Transfer} (h : Exchange bus log after) :
    bus.Keeps after fun index => ∃ t ∈ log, bus.scheme.WritesSaveRam index t := by
  induction log generalizing bus with
  | nil =>
    rw [show after = bus from h]
    exact .of_eq rfl rfl
  | cons t log ih =>
    obtain ⟨direction, purpose, addr, byte⟩ := t
    cases direction with
    | read =>
      have hrest := ih h.2
      refine ((bus.keeps_read addr).trans hrest).mono fun index hreached => ?_
      rcases hreached with hnone | ⟨t, hmem, hwrites⟩
      · exact hnone.elim
      · exact ⟨t, List.mem_cons_of_mem _ hmem, bus.read_scheme addr ▸ hwrites⟩
    | write =>
      have hrest := ih h
      refine ((bus.keeps_write purpose addr byte).trans hrest).mono fun index hreached => ?_
      rcases hreached with hwrites | ⟨t, hmem, hwrites⟩
      · exact ⟨_, List.mem_cons_self, hwrites⟩
      · exact ⟨t, List.mem_cons_of_mem _ hmem, bus.write_scheme addr byte ▸ hwrites⟩

/-- What goes over the bus in some steps is an exchange with it. -/
theorem Machine.exchange_starts [TraceSink τ] (count : Nat) (machine : Machine σ τ) :
    Exchange machine.bus ((starts count machine).flatMap fun start => start.cpu.transfers start.bus)
      (afterSteps count machine).bus := by
  induction count generalizing machine with
  | zero => rfl
  | succ count ih => exact (machine.cpu.exchange_step machine.bus).append (ih machine.step.2)

end Exchange

/-! ## Acts of a host -/

/-- What a host does to a machine: one of its calls, or a reset of the bus without the processor. -/
inductive HostAct (σ τ : Type) where
  | call (call : MachineCall σ τ)
  | resetBus

namespace HostAct

variable {σ τ : Type}

/-- Whether the act puts something else in place of the image or of battery-backed memory. -/
def replacesStorage : HostAct σ τ → Bool
  | .call (.load _) | .call (.changeBus (.put _)) | .call (.changeBus (.setSaveRam _)) => true
  | _ => false

/-- The mapping scheme that the act chooses, if it chooses one. -/
def scheme? : HostAct σ τ → Option Scheme
  | .call (.changeBus (.setScheme scheme)) => some scheme
  | _ => none

section Acts

variable [Observer σ] [TraceSink τ]

/-- The machine after an act. -/
def apply (act : HostAct σ τ) (machine : Machine σ τ) : Machine σ τ :=
  match act with
  | .call c => (c.apply machine).2
  | .resetBus => machine.mapBus Bus.reset

/-- The machine after some acts. -/
def applyAll (acts : List (HostAct σ τ)) (machine : Machine σ τ) : Machine σ τ :=
  acts.foldl (fun machine act => act.apply machine) machine

/-- Some acts, each with the machine that it is done to. -/
def history : List (HostAct σ τ) → Machine σ τ → List (HostAct σ τ × Machine σ τ)
  | [], _ => []
  | act :: acts, machine => (act, machine) :: history acts (act.apply machine)

/-- What goes over the bus in an act: the transfers of a call on the bus, or of the steps that the machine does. -/
def traffic (act : HostAct σ τ) (machine : Machine σ τ) : List Transfer :=
  let ofSteps (starts : List (Machine σ τ)) : List Transfer :=
    starts.flatMap fun start => start.cpu.transfers start.bus
  match act with
  | .call (.bus c) => transfers (c.activity.log machine.bus)
  | .call .step => machine.cpu.transfers machine.bus
  | .call (.runCycles budget) => ofSteps (machine.runStarts budget)
  | .call (.runFrame _) => ofSteps (machine.runStarts machine.config.cyclesPerFrame)
  | _ => []

/-- The act fills battery-backed memory, or writes the byte with the given index. -/
def Reaches (act : HostAct σ τ) (machine : Machine σ τ) (index : Fin saveRamSize) : Prop :=
  (∃ image : Image, act = .call (.importSaveRam image) ∧ image.size ≤ saveRamSize) ∨
    ∃ t ∈ act.traffic machine, machine.bus.scheme.WritesSaveRam index t

/-- An act that is an exchange with the bus keeps the scheme and what its transfers do not write. -/
theorem keeps_of_traffic (act : HostAct σ τ) {machine : Machine σ τ} {after : Bus σ}
    (h : Exchange machine.bus (act.traffic machine) after) :
    machine.bus.Keeps after (act.Reaches machine) ∧ after.scheme = machine.bus.scheme :=
  ⟨(keeps_of_exchange h).mono fun _ => .inr, scheme_of_exchange h⟩

/-- **An act keeps** the image and the bytes that it does not reach, and leaves the scheme that it chooses, if any. -/
theorem apply_keeps (act : HostAct σ τ) (machine : Machine σ τ) (hkeeps : act.replacesStorage = false) :
    machine.bus.Keeps (act.apply machine).bus (act.Reaches machine) ∧
      (act.apply machine).bus.scheme = act.scheme?.getD machine.bus.scheme := by
  cases act with
  | resetBus => exact ⟨.of_eq rfl rfl, rfl⟩
  | call c =>
    cases c with
    | bus c =>
      refine keeps_of_traffic (.call (.bus c)) ?_
      have hexchange := exchange_log c.activity machine.bus
      rwa [BusCall.run_activity] at hexchange
    | step => exact keeps_of_traffic (.call .step) (machine.cpu.exchange_step machine.bus)
    | runCycles budget =>
      refine keeps_of_traffic (.call (.runCycles budget)) ?_
      show Exchange machine.bus _ (machine.runRemaining budget {}).2.bus
      rw [Machine.runRemaining_eq]
      exact Machine.exchange_starts _ machine
    | runFrame deliverNmi =>
      refine keeps_of_traffic (.call (.runFrame deliverNmi)) ?_
      show Exchange machine.bus _ (machine.runFrame deliverNmi).2.bus
      rw [Machine.runFrame_eq]
      cases deliverNmi <;> exact Machine.exchange_starts _ machine
    | reset =>
      show machine.bus.Keeps machine.reset.bus _ ∧ machine.reset.bus.scheme = _
      rw [machine.reset_eq]
      exact ⟨.of_eq rfl rfl, rfl⟩
    | importSaveRam image =>
      cases himport : machine.bus.importSaveRam image with
      | ok filled =>
        obtain ⟨hsize, hrom, hscheme⟩ := Bus.of_importSaveRam_ok himport
        have hafter : ((HostAct.call (.importSaveRam image)).apply machine).bus = filled := by
          simp only [apply, MachineCall.apply, himport, Machine.mapBus]
        rw [hafter]
        -- the import reaches every byte
        exact ⟨⟨hrom, fun index hindex => absurd (.inl ⟨image, rfl, hsize⟩) hindex⟩, hscheme⟩
      | error error =>
        simp only [apply, MachineCall.apply, himport]
        exact ⟨.of_eq rfl rfl, rfl⟩
    | changeBus change =>
      cases change with
      | put bus => cases hkeeps
      | setSaveRam contents => cases hkeeps
      | setDevice first last device =>
        obtain ⟨hrom, hsaveRam, hscheme⟩ := machine.bus.setDevice_storage first last device
        exact ⟨.of_eq hrom hsaveRam, hscheme⟩
      | setScheme scheme => exact ⟨.of_eq rfl rfl, rfl⟩
      | setHandler offset handler => exact ⟨.of_eq rfl rfl, rfl⟩
      | clearHandler offset => exact ⟨.of_eq rfl rfl, rfl⟩
      | host f => exact ⟨.of_eq rfl rfl, rfl⟩
    | load image => cases hkeeps
    | cpu _ | putCpu _ | peek _ | listing _ | installSink _ | removeSink | setTracing _ => exact ⟨.of_eq rfl rfl, rfl⟩

/-- The scheme after some acts is the one that was chosen last. -/
theorem applyAll_keeps (acts : List (HostAct σ τ)) (machine : Machine σ τ)
    (hkeeps : ∀ act ∈ acts, act.replacesStorage = false) :
    machine.bus.Keeps (applyAll acts machine).bus
        (fun index => ∃ done ∈ history acts machine, done.1.Reaches done.2 index) ∧
      (applyAll acts machine).bus.scheme = (acts.filterMap scheme?).getLast?.getD machine.bus.scheme := by
  induction acts generalizing machine with
  | nil => exact ⟨.of_eq rfl rfl, rfl⟩
  | cons act acts ih =>
    obtain ⟨hact, hacts⟩ := List.forall_mem_cons.1 hkeeps
    obtain ⟨hfirst, hscheme⟩ := act.apply_keeps machine hact
    obtain ⟨hrest, hlast⟩ := ih (act.apply machine) hacts
    refine ⟨(hfirst.trans hrest).mono fun index hreached => ?_, ?_⟩
    · rcases hreached with hreached | ⟨done, hmem, hreached⟩
      · exact ⟨_, List.mem_cons_self, hreached⟩
      · exact ⟨done, List.mem_cons_of_mem _ hmem, hreached⟩
    · show (applyAll acts (act.apply machine)).bus.scheme = _
      rw [hlast, hscheme, List.filterMap_cons]
      cases act.scheme? with
      | none => rfl
      | some scheme =>
        rw [List.getLast?_cons]
        rfl

end Acts

end HostAct

/-! ## The frame of a machine -/

/-- **What a machine leaves alone.** After any acts that put neither another image nor another battery-backed memory in
place, the image is the same and the scheme is the one that was chosen last; a byte of battery-backed memory is another
only if one of the acts was an import or wrote the byte, at an address that led to it then. A reset keeps all of
battery-backed memory, and so does a step that writes none of its bytes. -/
theorem storage_frame {σ τ : Type} [Observer σ] [TraceSink τ] (machine : Machine σ τ) (acts : List (HostAct σ τ))
    (hkeeps : ∀ act ∈ acts, act.replacesStorage = false) :
    let after := HostAct.applyAll acts machine
    after.bus.rom = machine.bus.rom ∧
      after.bus.scheme = (acts.filterMap HostAct.scheme?).getLast?.getD machine.bus.scheme ∧
      (∀ index, after.bus.saveRam.get index ≠ machine.bus.saveRam.get index →
        ∃ done ∈ HostAct.history acts machine, done.1.Reaches done.2 index) ∧
      after.reset.bus.saveRam = after.bus.saveRam ∧
      ((∀ t ∈ after.cpu.transfers after.bus, ∀ index, ¬after.bus.scheme.WritesSaveRam index t) →
        after.step.2.bus.saveRam = after.bus.saveRam) := by
  intro after
  obtain ⟨hacts, hscheme⟩ := HostAct.applyAll_keeps acts machine hkeeps
  refine ⟨hacts.rom, hscheme, fun index hchanged => ?_, ?_, fun hnone => ?_⟩
  · by_contra hreached
    exact hchanged (hacts.saveRam index hreached)
  · rw [after.reset_eq]
  · have hstep := keeps_of_exchange (after.cpu.exchange_step after.bus)
    refine hstep.saveRam_eq fun index hreached => ?_
    obtain ⟨t, hmem, hwrites⟩ := hreached
    exact hnone t hmem index hwrites

/-- A write to a mirror of battery-backed memory, changes of the scheme and a reset. -/
theorem storage_frame_write :
    let machine : Machine Runner.Console Tally :=
      { cpu := {}, bus := { rom := #[0xEA], host := ⟨false, ""⟩ }, config := {}, sink := none }
    let acts : List (HostAct Runner.Console Tally) :=
      [.call (.changeBus (.setScheme .hiRom)), .call (.bus (.write 0xA06007 0x42)),
        .call (.changeBus (.setScheme .loRom)), .call .reset, .resetBus]
    let after := HostAct.applyAll acts machine
    (∀ act ∈ acts, act.replacesStorage = false) ∧ after.bus.rom = #[0xEA] ∧ after.bus.scheme = .loRom ∧
      (∀ t ∈ after.cpu.transfers after.bus, t.direction = .read) ∧
      after.step.2.bus.saveRam = after.bus.saveRam := by
  intro machine acts after
  have hkeeps : ∀ act ∈ acts, act.replacesStorage = false := by simp [acts, HostAct.replacesStorage]
  have hreads : ∀ t ∈ after.cpu.transfers after.bus, t.direction = .read := by decide +kernel
  obtain ⟨hrom, hscheme, -, -, hstep⟩ := storage_frame machine acts hkeeps
  refine ⟨hkeeps, hrom, hscheme, hreads, hstep fun t hmem index hwrites => ?_⟩
  have hread := hreads t hmem
  rw [hwrites.1] at hread
  cases hread

end Emu816
