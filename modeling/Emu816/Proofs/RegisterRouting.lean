import Emu816.Proofs.BankMirror
import Mathlib.Data.List.Induction

/-!
# Who answers for a device register

A host puts callbacks behind registers, devices behind ranges of them, and takes callbacks away, while programs use the
bus. An access to a register goes to the callbacks that were put there last.

- `BusAction`, `registered`: what a host does, and the callbacks that it put behind a register last.
- `handlers_applyAll`: they are what the bus has for the register.
- `Bus.read_io`, `Bus.write_io`: an access runs the callback for its direction, or none.
- `IoHandler.Records`, `record_of_exchange`: callbacks that record their runs, and the record of some transfers.
- `last_registration_answers`: all of it.
-/

namespace Emu816

/-! ## Registrations -/

/-- What a host does with a bus. -/
inductive BusAction (σ : Type) where
  | setHandler (offset : UInt16) (handler : IoHandler σ)
  | setDevice (first last : UInt16) (device : IoDevice σ)
  | clearHandler (offset : UInt16)
  | call (call : BusCall)

namespace BusAction

variable {σ : Type}

/-- Whether the action decides who answers for a register. -/
def covers (offset : UInt16) : BusAction σ → Bool
  | setHandler other _ | clearHandler other => other = offset
  | setDevice first last _ => first ≤ offset ∧ offset ≤ last
  | call _ => false

/-- The callbacks that the action puts behind the registers that it covers. -/
def handler : BusAction σ → Option (IoHandler σ)
  | setHandler _ handler => some handler
  | setDevice _ _ device => some (.ofDevice device)
  | clearHandler _ | call _ => none

/-- The bus after an action. -/
def apply [Observer σ] (action : BusAction σ) (bus : Bus σ) : Bus σ :=
  match action with
  | setHandler offset handler => bus.setHandler offset handler
  | setDevice first last device => bus.setDevice first last device
  | clearHandler offset => bus.clearHandler offset
  | call c => c.apply bus

/-- The bus after some actions. -/
def applyAll [Observer σ] (actions : List (BusAction σ)) (bus : Bus σ) : Bus σ :=
  actions.foldl (fun bus action => action.apply bus) bus

end BusAction

/-- The callbacks that the last of some actions that covers a register put there. -/
def registered {σ : Type} (actions : List (BusAction σ)) (offset : UInt16) : Option (IoHandler σ) :=
  (actions.filter (·.covers offset)).getLast?.bind BusAction.handler

theorem registered_concat {σ : Type} (actions : List (BusAction σ)) (action : BusAction σ) (offset : UInt16) :
    registered (actions ++ [action]) offset =
      if action.covers offset then action.handler else registered actions offset := by
  rw [registered, registered, List.filter_append]
  cases hcovers : action.covers offset with
  | true =>
    rw [List.filter_cons_of_pos hcovers, List.filter_nil, List.getLast?_concat]
    rfl
  | false =>
    rw [List.filter_cons_of_neg (by rw [hcovers]; exact Bool.false_ne_true), List.filter_nil, List.append_nil]
    rfl

/-- The callbacks behind a register come from one of the actions. -/
theorem exists_of_registered {σ : Type} {actions : List (BusAction σ)} {offset : UInt16} {handler : IoHandler σ}
    (h : registered actions offset = some handler) : ∃ action ∈ actions, action.handler = some handler := by
  obtain ⟨action, hlast, hhandler⟩ := Option.bind_eq_some_iff.1 h
  exact ⟨action, List.mem_of_mem_filter (List.mem_of_getLast? hlast), hhandler⟩

/-! ## The callbacks of the bus -/

section Handlers

variable {σ : Type}

theorem Bus.handlers_setDevice (bus : Bus σ) (first last : UInt16) (device : IoDevice σ) (offset : UInt16) :
    (bus.setDevice first last device).handlers[offset]? =
      if first ≤ offset ∧ offset ≤ last then some (.ofDevice device) else bus.handlers[offset]? := by
  have hfold (places : List Nat) (bus : Bus σ) :
      (places.foldl (fun bus place => bus.setHandler (UInt16.ofNat place) (.ofDevice device)) bus).handlers[offset]? =
        if offset ∈ places.map UInt16.ofNat then some (.ofDevice device) else bus.handlers[offset]? := by
    induction places generalizing bus with
    | nil => rfl
    | cons place places ih =>
      rw [List.foldl_cons, ih, setHandler, Std.HashMap.getElem?_insert]
      simp only [List.map_cons, List.mem_cons, beq_iff_eq]
      grind
  have hrange : offset ∈ (List.range' first.toNat (last.toNat + 1 - first.toNat)).map UInt16.ofNat ↔
      first ≤ offset ∧ offset ≤ last := by
    have hoffset := offset.toNat_lt
    have hlast := last.toNat_lt
    rw [UInt16.le_iff_toNat_le, UInt16.le_iff_toNat_le, List.mem_map]
    constructor
    · rintro ⟨place, hplace, rfl⟩
      rw [List.mem_range'_1] at hplace
      rw [UInt16.toNat_ofNat']
      omega
    · intro h
      exact ⟨offset.toNat, List.mem_range'_1.2 (by omega), UInt16.ofNat_toNat⟩
  rw [setDevice, hfold]
  simp only [hrange]

/-- Accesses leave the callbacks in place. -/
theorem handlers_of_exchange [Observer σ] {bus after : Bus σ} {log : List Transfer} (h : Exchange bus log after) :
    after.handlers = bus.handlers := by
  induction log generalizing bus with
  | nil => rw [show after = bus from h]
  | cons t log ih =>
    obtain ⟨direction, purpose, addr, byte⟩ := t
    cases direction with
    | read => exact (ih h.2).trans (bus.read_host purpose addr byte).2
    | write => exact (ih h).trans (bus.write_host purpose addr byte).2

namespace BusAction

variable [Observer σ]

/-- An action decides who answers for the registers that it covers and for no others. -/
theorem handlers_apply (action : BusAction σ) (bus : Bus σ) (offset : UInt16) :
    (action.apply bus).handlers[offset]? =
      if action.covers offset then action.handler else bus.handlers[offset]? := by
  cases action with
  | setHandler other handler =>
    simp only [apply, Bus.setHandler, covers, BusAction.handler, Std.HashMap.getElem?_insert, beq_iff_eq,
      decide_eq_true_eq]
  | setDevice first last device =>
    simp only [apply, covers, BusAction.handler, decide_eq_true_eq]
    exact bus.handlers_setDevice first last device offset
  | clearHandler other =>
    simp only [apply, Bus.clearHandler, covers, BusAction.handler, Std.HashMap.getElem?_erase, beq_iff_eq,
      decide_eq_true_eq]
  | call c =>
    show (c.apply bus).handlers[offset]? = bus.handlers[offset]?
    rw [← handlers_of_exchange (BusCall.exchange_calls [c] bus)]
    rfl

/-- **The bus has what was registered last.** -/
theorem handlers_applyAll (actions : List (BusAction σ)) {bus : Bus σ} (hnew : bus.handlers = {}) (offset : UInt16) :
    (applyAll actions bus).handlers[offset]? = registered actions offset := by
  induction actions using List.reverseRecOn with
  | nil =>
    rw [applyAll, List.foldl_nil, hnew]
    exact Std.HashMap.getElem?_empty
  | append_singleton actions action ih =>
    rw [registered_concat, applyAll, List.foldl_append, ← ih]
    exact action.handlers_apply _ offset

end BusAction

end Handlers

/-! ## Accesses to a register -/

theorem Location.isIo_iff {location : Location} : location.isIo = true ↔ ∃ offset, location = .io offset := by
  cases location <;> simp [isIo]

namespace Bus

variable {σ : Type} (bus : Bus σ) {addr : UInt32} {offset : UInt16}

/-- A read runs the read callback of its register, if there is one. -/
theorem read_io (h : bus.scheme.locate addr = .io offset) :
    bus.read addr = (bus.handlers[offset]?.bind IoHandler.read).elim (defaultIoRead offset, bus) fun callback =>
      ((callback offset bus.host).1, bus.mapHost fun host => (callback offset host).2) := by
  rw [read, h]
  show bus.readIo offset = _
  rw [readIo, Std.HashMap.getD_eq_getD_getElem?]
  cases hhandler : bus.handlers[offset]? with
  | none => rfl
  | some handler =>
    cases hread : handler.read with
    | none => simp [IoHandler.respond, hread]
    | some callback => simp [IoHandler.respond, hread, mapHost]

/-- A write runs the write callback of its register, if there is one. -/
theorem write_io [Observer σ] (h : bus.scheme.locate addr = .io offset) (value : UInt8) :
    bus.write addr value = (bus.handlers[offset]?.bind IoHandler.write).elim (bus.note (.unclaimedWrite offset value))
      fun callback => bus.mapHost (callback offset value) := by
  rw [write, h]
  show bus.writeIo offset value = _
  rw [writeIo, Std.HashMap.getD_eq_getD_getElem?]
  cases hhandler : bus.handlers[offset]? with
  | none => rfl
  | some handler =>
    cases hwrite : handler.write with
    | none => simp [IoHandler.accept, hwrite, note, mapHost]
    | some callback => simp [IoHandler.accept, hwrite, mapHost]

/-- Other addresses are no device registers. -/
theorem deviceAccess?_of_plain {t : Transfer} (h : (bus.scheme.locate t.addr).isIo = false) :
    bus.deviceAccess? t = none := by
  unfold deviceAccess?
  cases hlocation : bus.scheme.locate t.addr with
  | io offset =>
    rw [hlocation] at h
    cases h
  | workRam _ | saveRam _ | rom _ | openBus => rfl

/-- Writes to them leave the host and the callbacks alone. -/
theorem host_of_plain [Observer σ] (h : (bus.scheme.locate addr).isIo = false) (value : UInt8) :
    (bus.write addr value).host = bus.host ∧ (bus.write addr value).handlers = bus.handlers := by
  obtain ⟨hhost, hhandlers⟩ := bus.write_host .data addr value
  rw [bus.deviceAccess?_of_plain (by exact h)] at hhost
  exact ⟨hhost, hhandlers⟩

end Bus

/-- Registers are where the system banks have them, at the same offsets in all of them. -/
theorem Scheme.locate_eq_io {scheme : Scheme} {addr : UInt32} {offset : UInt16} :
    scheme.locate addr = .io offset ↔
      (Address.bank addr).toNat % 0x80 < 0x40 ∧ Address.offset addr = offset ∧ 0x2000 ≤ offset ∧ offset < 0x6000 := by
  obtain ⟨bank, place, hbank, hplace⟩ := exists_parts addr
  have hio : scheme.locateIn bank place = .io offset ↔
      bank.val < 0x40 ∧ UInt16.ofNat place.val = offset ∧ 0x2000 ≤ place.val ∧ place.val < 0x6000 := by
    unfold locateIn locateSystem locateCartridge
    cases scheme <;> split_ifs <;> grind
  have hoffset : UInt16.ofNat place.val = Address.offset addr := by
    apply UInt16.toNat.inj
    rw [Address.offset, UInt32.toNat_toUInt16, UInt16.toNat_ofNat', ← hplace]
    omega
  have hbanks : (Address.bank addr).toNat % 0x80 = bank.val := by
    rw [← hbank, Address.bank, UInt32.toNat_toUInt8, UInt32.toNat_div]
    simp only [UInt32.reduceToNat]
    omega
  have hplaces : (Address.offset addr).toNat = place.val := by
    rw [← hoffset, UInt16.toNat_ofNat']
    omega
  rw [locate_of_parts bank place hbank hplace, hio, hoffset, hbanks]
  refine and_congr_right fun _ => and_congr_right ?_
  rintro rfl
  rw [UInt16.le_iff_toNat_le, UInt16.lt_iff_toNat_lt, hplaces]
  rfl

/-! ## Callbacks that record their runs -/

section Records

variable {σ : Type}

/-- Whether there is a callback for a direction. -/
def IoHandler.serves (handler : IoHandler σ) : Direction → Bool
  | .read => handler.hasRead
  | .write => handler.hasWrite

/-- Each run of a callback adds the access that it serves to the record of the host. -/
structure IoHandler.Records (record : σ → List DeviceAccess) (handler : IoHandler σ) : Prop where
  read : ∀ callback, handler.read = some callback → ∀ offset host,
    record (callback offset host).2 = record host ++ [⟨.read, offset, (callback offset host).1⟩]
  write : ∀ callback, handler.write = some callback → ∀ offset value host,
    record (callback offset value host) = record host ++ [⟨.write, offset, value⟩]

/-- Whether a callback serves an access. -/
def Bus.serves (bus : Bus σ) (access : DeviceAccess) : Bool :=
  bus.handlers[access.offset]?.any (·.serves access.direction)

/-- The callbacks of the bus record their runs. -/
def Bus.Records (bus : Bus σ) (record : σ → List DeviceAccess) : Prop :=
  ∀ (offset : UInt16) (handler : IoHandler σ), bus.handlers[offset]? = some handler → handler.Records record

variable {bus : Bus σ} {record : σ → List DeviceAccess}

/-- A read is recorded if a callback serves it. -/
theorem record_read (hrecords : bus.Records record) (purpose : Purpose) (addr : UInt32) :
    record (bus.read addr).2.host =
      record bus.host ++ (bus.deviceAccess? ⟨.read, purpose, addr, (bus.read addr).1⟩).toList.filter bus.serves := by
  cases hio : (bus.scheme.locate addr).isIo with
  | false =>
    rw [bus.deviceAccess?_of_plain (by exact hio), bus.read_eq hio]
    exact (List.append_nil _).symm
  | true =>
    obtain ⟨offset, hlocation⟩ := Location.isIo_iff.1 hio
    rw [Bus.deviceAccess?, hlocation, bus.read_io hlocation]
    cases hhandler : bus.handlers[offset]? with
    | none => simp [Bus.serves, hhandler]
    | some handler =>
      cases hread : handler.read with
      | none => simp [Bus.serves, hhandler, hread, IoHandler.serves, IoHandler.hasRead]
      | some callback =>
        have hrecord := (hrecords offset handler hhandler).read callback hread offset bus.host
        simpa [Bus.serves, hhandler, hread, IoHandler.serves, IoHandler.hasRead, Bus.mapHost] using hrecord

/-- A write is recorded if a callback serves it. -/
theorem record_write [Observer σ] (hrecords : bus.Records record)
    (hnote : ∀ notice host, record (Observer.note notice host) = record host) (purpose : Purpose) (addr : UInt32)
    (value : UInt8) :
    record (bus.write addr value).host =
      record bus.host ++ (bus.deviceAccess? ⟨.write, purpose, addr, value⟩).toList.filter bus.serves := by
  cases hio : (bus.scheme.locate addr).isIo with
  | false =>
    rw [bus.deviceAccess?_of_plain (by exact hio), (bus.host_of_plain hio value).1]
    exact (List.append_nil _).symm
  | true =>
    obtain ⟨offset, hlocation⟩ := Location.isIo_iff.1 hio
    rw [Bus.deviceAccess?, hlocation, bus.write_io hlocation]
    cases hhandler : bus.handlers[offset]? with
    | none => simp [Bus.serves, hhandler, Bus.note, Bus.mapHost, hnote]
    | some handler =>
      cases hwrite : handler.write with
      | none => simp [Bus.serves, hhandler, hwrite, IoHandler.serves, IoHandler.hasWrite, Bus.note, Bus.mapHost, hnote]
      | some callback =>
        have hrecord := (hrecords offset handler hhandler).write callback hwrite offset value bus.host
        simpa [Bus.serves, hhandler, hwrite, IoHandler.serves, IoHandler.hasWrite, Bus.mapHost] using hrecord

/-- **The record of some transfers**: the accesses to device registers among them that a callback serves, each once and
in order. -/
theorem record_of_exchange [Observer σ] (hrecords : bus.Records record)
    (hnote : ∀ notice host, record (Observer.note notice host) = record host) {after : Bus σ} {log : List Transfer}
    (h : Exchange bus log after) :
    record after.host = record bus.host ++ (bus.deviceAccesses log).filter bus.serves := by
  -- the callbacks and the scheme stay, so every access is served alike
  suffices hall : ∀ start : Bus σ, start.scheme = bus.scheme → start.handlers = bus.handlers →
      Exchange start log after →
      record after.host = record start.host ++ (bus.deviceAccesses log).filter bus.serves from hall bus rfl rfl h
  clear h
  induction log with
  | nil =>
    intro start _ _ h
    rw [show after = start from h]
    exact (List.append_nil _).symm
  | cons t log ih =>
    intro start hscheme hhandlers h
    have haccess := Bus.deviceAccess?_congr hscheme t
    have hserves : start.serves = bus.serves := by
      funext access
      rw [Bus.serves, Bus.serves, hhandlers]
    have hstart : start.Records record := by
      rw [Bus.Records, hhandlers]
      exact hrecords
    obtain ⟨direction, purpose, addr, byte⟩ := t
    rw [bus.deviceAccesses_cons, List.filter_append, ← List.append_assoc, ← haccess, ← hserves]
    cases direction with
    | read =>
      obtain ⟨hbyte, hrest⟩ := h
      obtain rfl : (start.read addr).1 = byte := hbyte
      rw [← record_read hstart purpose addr, hserves]
      exact ih _ ((start.read_scheme addr).trans hscheme)
        ((start.read_host purpose addr (start.read addr).1).2.trans hhandlers) hrest
    | write =>
      rw [← record_write hstart hnote purpose addr byte, hserves]
      exact ih _ ((start.write_scheme addr byte).trans hscheme)
        ((start.write_host purpose addr byte).2.trans hhandlers) h

end Records

/-! ## Routing -/

/-- **The last registration answers.** A host registers callbacks and devices on a new bus, clears registers and uses
the bus, in any order. Then a read of a register runs the read callback that was registered last and gives its answer,
or runs none and gives the fixed answer; a write runs the write callback, or none. Other accesses run no callback. The
registers are the same in all system banks, so what is written to a device at one of its registers shows at another. If
the callbacks record their runs, any call leaves a record of the accesses that it did to registers with a callback, each
once and in order. -/
theorem last_registration_answers {σ : Type} [Observer σ] (bus : Bus σ) (hnew : bus.handlers = {})
    (actions : List (BusAction σ)) :
    let after := BusAction.applyAll actions bus
    (∀ addr offset, after.scheme.locate addr = .io offset →
      (after.read addr = ((registered actions offset).bind IoHandler.read).elim (defaultIoRead offset, after)
        fun callback => ((callback offset after.host).1, after.mapHost fun host => (callback offset host).2)) ∧
      (∀ value, after.write addr value =
        ((registered actions offset).bind IoHandler.write).elim (after.note (.unclaimedWrite offset value))
          fun callback => after.mapHost (callback offset value)) ∧
      after.peek addr = openBus) ∧
    (∀ addr, (after.scheme.locate addr).isIo = false →
      (after.read addr).2 = after ∧ ∀ value, (after.write addr value).host = after.host) ∧
    (∀ addr offset, after.scheme.locate addr = .io offset ↔
      (Address.bank addr).toNat % 0x80 < 0x40 ∧ Address.offset addr = offset ∧ 0x2000 ≤ offset ∧ offset < 0x6000) ∧
    (∀ device addr addr' offset offset' value, after.scheme.locate addr = .io offset →
      after.scheme.locate addr' = .io offset' → registered actions offset = some (.ofDevice device) →
      registered actions offset' = some (.ofDevice device) →
      ((after.write addr value).read addr').1 = (device.read offset' (device.write offset value after.host)).1) ∧
    (∀ record : σ → List DeviceAccess, (∀ notice host, record (Observer.note notice host) = record host) →
      (∀ action ∈ actions, ∀ handler, action.handler = some handler → handler.Records record) →
      ∀ call : BusCall, record (call.apply after).host = record after.host ++
        (after.deviceAccesses (BusCall.transfersOf [call] after)).filter fun access =>
          (registered actions access.offset).any (·.serves access.direction)) := by
  intro after
  have hhandlers (offset : UInt16) : after.handlers[offset]? = registered actions offset :=
    BusAction.handlers_applyAll actions hnew offset
  refine ⟨?_, ?_, fun addr offset => Scheme.locate_eq_io, ?_, ?_⟩
  · intro addr offset hio
    rw [← hhandlers, Bus.peek, hio]
    exact ⟨after.read_io hio, after.write_io hio, rfl⟩
  · intro addr hplain
    exact ⟨by rw [after.read_eq hplain], fun value => (after.host_of_plain hplain value).1⟩
  · intro device addr addr' offset offset' value hio hio' hdevice hdevice'
    have hwrite : after.write addr value = after.mapHost (device.write offset value) := by
      rw [after.write_io hio, hhandlers, hdevice]
      rfl
    have hread := (after.mapHost (device.write offset value)).read_io hio'
    rw [show (after.mapHost _).handlers = after.handlers from rfl, hhandlers, hdevice'] at hread
    rw [hwrite, hread]
    rfl
  · intro record hnote hactions call
    have hrecords : after.Records record := by
      intro offset handler hhandler
      rw [hhandlers] at hhandler
      obtain ⟨action, hmem, hfrom⟩ := exists_of_registered hhandler
      exact hactions action hmem handler hfrom
    have hserves : after.serves = fun access => (registered actions access.offset).any (·.serves access.direction) := by
      funext access
      rw [Bus.serves, hhandlers]
    rw [← hserves]
    exact record_of_exchange hrecords hnote (BusCall.exchange_calls [call] after)

/-- A host with a device that shows at all its registers what was written to any, and a record of its callbacks. -/
structure Latch where
  value : UInt8 := 0
  record : List DeviceAccess := []

namespace Latch

instance : Observer Latch where
  note _ latch := latch

/-- The device. -/
def device : IoDevice Latch where
  read offset latch := (latch.value, { latch with record := latch.record ++ [⟨.read, offset, latch.value⟩] })
  write offset value latch := ⟨value, latch.record ++ [⟨.write, offset, value⟩]⟩

theorem records_device : (IoHandler.ofDevice device).Records record where
  read := by
    rintro _ ⟨⟩ offset latch
    rfl
  write := by
    rintro _ ⟨⟩ offset value latch
    rfl

theorem records_writer : (IoHandler.writer device.write).Records record where
  read := nofun
  write := records_device.write

end Latch

/-- A device with a register that was cleared and one that was left with a write callback. -/
theorem last_registration_answers_overlap :
    let actions : List (BusAction Latch) :=
      [.setHandler 0x4210 (.ofDevice Latch.device), .setDevice 0x4200 0x4216 Latch.device, .call (.write 0x804203 0x42),
        .setHandler 0x4210 (.writer Latch.device.write), .clearHandler 0x4202, .setDevice 0x4220 0x4202 Latch.device]
    let bus : Bus Latch := { host := {} }
    let after := BusAction.applyAll actions bus
    bus.handlers = {} ∧
    after.read 0x3F4210 = (0x02, after) ∧ after.read 0x804202 = (0xFF, after) ∧
    ((after.write 0x004200 0x17).read 0xBF4216).1 = 0x17 ∧
    (after.write 0x804210 0x17).host.record = after.host.record ++ [⟨.write, 0x4210, 0x17⟩] := by
  intro actions bus after
  have hall := last_registration_answers bus rfl actions
  rw [show BusAction.applyAll actions bus = after from rfl] at hall
  clear_value after
  obtain ⟨hregisters, -, hplaces, hdevice, hrecord⟩ := hall
  have hio (addr : UInt32) (offset : UInt16)
      (h : (Address.bank addr).toNat % 0x80 < 0x40 ∧ Address.offset addr = offset ∧ 0x2000 ≤ offset ∧ offset < 0x6000) :
      after.scheme.locate addr = .io offset := (hplaces addr offset).2 h
  have hwriter : (registered actions 0x4210).bind IoHandler.read = none := rfl
  have hcleared : (registered actions 0x4202).bind IoHandler.read = none := rfl
  obtain ⟨hdefault, -⟩ := hregisters 0x3F4210 0x4210 (hio _ _ (by decide))
  obtain ⟨hnothing, -⟩ := hregisters 0x804202 0x4202 (hio _ _ (by decide))
  rw [hwriter] at hdefault
  rw [hcleared] at hnothing
  have hshared := hdevice Latch.device 0x004200 0xBF4216 0x4200 0x4216 0x17 (hio _ _ (by decide)) (hio _ _ (by decide))
    rfl rfl
  have hactions : ∀ action ∈ actions, ∀ handler, action.handler = some handler → handler.Records Latch.record := by
    have hdeviceRecords {handler : IoHandler Latch} (h : some (.ofDevice Latch.device) = some handler) :
        handler.Records Latch.record := Option.some.inj h ▸ Latch.records_device
    have hwriterRecords {handler : IoHandler Latch} (h : some (.writer Latch.device.write) = some handler) :
        handler.Records Latch.record := Option.some.inj h ▸ Latch.records_writer
    simp only [actions, List.forall_mem_cons]
    have hnone {handler : IoHandler Latch} (h : none = some handler) : handler.Records Latch.record := by cases h
    exact ⟨fun _ => hdeviceRecords, fun _ => hdeviceRecords, fun _ => hnone, fun _ => hwriterRecords, fun _ => hnone,
      fun _ => hdeviceRecords, List.forall_mem_nil _⟩
  have haccesses : after.deviceAccesses (BusCall.transfersOf [.write 0x804210 0x17] after) =
      [⟨.write, 0x4210, 0x17⟩] := by
    show [(⟨.write, .data, 0x804210, 0x17⟩ : Transfer)].filterMap after.deviceAccess? = _
    simp [Bus.deviceAccess?, hio 0x804210 0x4210 (by decide)]
  have hwritten := hrecord Latch.record (fun _ _ => rfl) hactions (.write 0x804210 0x17)
  rw [haccesses] at hwritten
  exact ⟨rfl, hdefault, hnothing, hshared, hwritten⟩

end Emu816
