import Emu816.Machine.Run
import Emu816.Proofs.Cells
import Emu816.Proofs.LikeSteps

/-!
# Banks and their mirrors

The bus decodes seven bits of a bank, so the upper half of the banks repeats the lower half. The bank registers have an
eighth bit. It shows when a bank register is pushed, and nowhere else.

- `Likeness.mirror`: registers that differ at most in the highest bits of the bank registers.
- `Scheme.locate_mirror`, `Bus.indifferent_mirror`: the bus does not see that bit of an address.
- `Bus.deviceAccesses`, `host_of_exchange`: the accesses to device registers are all that reaches the host.
- `bank_mirror_unseen`: a step of the machine.
-/

namespace Emu816

/-! ## Addresses -/

theorem toNat_and_sevenBits (bank : UInt8) : (bank &&& 0x7F).toNat = bank.toNat % 0x80 := by
  rw [UInt8.toNat_and]
  exact Nat.and_two_pow_sub_one_eq_mod bank.toNat 7

/-- An index addition leaves the page of its base if it carries out of the low byte of the offset, in any bank. -/
theorem page_ne_indexedLong_iff (bank : UInt8) (offset index : UInt16) :
    Address.ofBank bank offset / 0x100 ≠ Microcode.indexedLong (Address.ofBank bank offset) index / 0x100 ↔
      0x100 ≤ offset.toNat % 0x100 + index.toNat := by
  have hoffset := offset.toNat_lt
  have hindex := index.toNat_lt
  have hbank := bank.toNat_lt
  rw [ne_eq, ← UInt32.toNat_inj, Microcode.indexedLong, UInt32.toNat_div, UInt32.toNat_div, Address.toNat_wrap,
    UInt32.toNat_add, Address.toNat_ofBank, UInt16.toNat_toUInt32]
  simp only [UInt32.reduceToNat]
  omega

/-- Banks are alike if they are the same or mirror each other, and so are addresses; nothing else may differ. -/
def Likeness.mirror : Likeness where
  bank b b' := b &&& 0x7F = b' &&& 0x7F
  accumulator := Eq
  near addr addr' := addr.toNat % 0x800000 = addr'.toNat % 0x800000
  bank_refl _ := rfl
  accumulator_refl _ := rfl
  near_refl _ := rfl
  accumulator_byte h _ := by rw [h]
  near_ofBank h offset := by
    rw [← UInt8.toNat_inj, toNat_and_sevenBits, toNat_and_sevenBits] at h
    rw [Address.toNat_ofBank, Address.toNat_ofBank]
    omega
  near_wrap_add h distance := by
    rw [Address.toNat_wrap, Address.toNat_wrap, UInt32.toNat_add, UInt32.toNat_add]
    omega
  page_indexed _ offset index := by rw [page_ne_indexedLong_iff, page_ne_indexedLong_iff]

/-- The bus leads from an address and its mirror to the same location. -/
theorem Scheme.locate_mirror (scheme : Scheme) {addr addr' : UInt32} (h : Likeness.mirror.near addr addr') :
    scheme.locate addr = scheme.locate addr' := by
  change addr.toNat % 0x800000 = addr'.toNat % 0x800000 at h
  obtain ⟨bank, offset, hbank, hoffset⟩ := exists_parts addr
  rw [locate_of_parts bank offset hbank hoffset, locate_of_parts bank offset (by omega) (by omega)]

/-! ## Device registers -/

/-- An access to a device register. -/
structure DeviceAccess where
  direction : Direction
  offset : UInt16
  byte : UInt8
  deriving DecidableEq

namespace Bus

variable {σ : Type}

/-- The access to a device register that a transfer is, if it is one. -/
def deviceAccess? (bus : Bus σ) (t : Transfer) : Option DeviceAccess :=
  match bus.scheme.locate t.addr with
  | .io offset => some ⟨t.direction, offset, t.byte⟩
  | _ => none

/-- The accesses to device registers among some transfers, in order. -/
def deviceAccesses (bus : Bus σ) (log : List Transfer) : List DeviceAccess := log.filterMap bus.deviceAccess?

/-- The scheme alone tells which transfers are accesses to device registers. -/
theorem deviceAccess?_congr {first second : Bus σ} (h : first.scheme = second.scheme) (t : Transfer) :
    first.deviceAccess? t = second.deviceAccess? t := by
  rw [deviceAccess?, deviceAccess?, h]

theorem deviceAccesses_cons (bus : Bus σ) (t : Transfer) (log : List Transfer) :
    bus.deviceAccesses (t :: log) = (bus.deviceAccess? t).toList ++ bus.deviceAccesses log := by
  rw [deviceAccesses, List.filterMap_cons]
  cases bus.deviceAccess? t <;> rfl

/-- The host after the callback for an access has run, or after it was told that there is none. -/
def serve [Observer σ] (bus : Bus σ) (host : σ) (access : DeviceAccess) : σ :=
  let handler := bus.handlers.getD access.offset {}
  match access.direction with
  | .read => (handler.respond access.offset host).2
  | .write =>
    let (taken, host) := handler.accept access.offset access.byte host
    if taken then host else Observer.note (.unclaimedWrite access.offset access.byte) host

theorem store_host (bus : Bus σ) (value : UInt8) (place : Location) :
    (bus.store value place).host = bus.host ∧ (bus.store value place).handlers = bus.handlers := by
  cases place <;> exact ⟨rfl, rfl⟩

/-- A read reaches the host if it is an access to a device register. -/
theorem read_host [Observer σ] (bus : Bus σ) (purpose : Purpose) (addr : UInt32) (byte : UInt8) :
    (bus.read addr).2.host = (bus.deviceAccess? ⟨.read, purpose, addr, byte⟩).toList.foldl bus.serve bus.host ∧
      (bus.read addr).2.handlers = bus.handlers := by
  unfold read deviceAccess?
  cases bus.scheme.locate addr with
  | io offset => exact ⟨rfl, rfl⟩
  | workRam _ | saveRam _ | rom _ | openBus => exact ⟨rfl, rfl⟩

/-- A write reaches the host if it is an access to a device register. -/
theorem write_host [Observer σ] (bus : Bus σ) (purpose : Purpose) (addr : UInt32) (byte : UInt8) :
    (bus.write addr byte).host = (bus.deviceAccess? ⟨.write, purpose, addr, byte⟩).toList.foldl bus.serve bus.host ∧
      (bus.write addr byte).handlers = bus.handlers := by
  unfold write deviceAccess?
  cases bus.scheme.locate addr with
  | io offset => exact ⟨rfl, rfl⟩
  | workRam _ | saveRam _ | rom _ | openBus => exact bus.store_host byte _

end Bus

section Exchange

variable {σ : Type} [Observer σ] {bus after : Bus σ} {log : List Transfer}

/-- Transfers reach the host through the accesses to device registers among them, one after the other. -/
theorem host_of_exchange (h : Exchange bus log after) :
    after.host = (bus.deviceAccesses log).foldl bus.serve bus.host := by
  -- the callbacks and the scheme stay, so every access is served alike
  suffices hall : ∀ start : Bus σ, start.scheme = bus.scheme → start.handlers = bus.handlers →
      Exchange start log after → after.host = (bus.deviceAccesses log).foldl bus.serve start.host from
    hall bus rfl rfl h
  clear h
  induction log with
  | nil =>
    intro start _ _ h
    rw [show after = start from h]
    rfl
  | cons t log ih =>
    intro start hscheme hhandlers h
    have haccess := Bus.deviceAccess?_congr hscheme t
    have hserve : start.serve = bus.serve := by
      funext host access
      rw [Bus.serve, Bus.serve, hhandlers]
    obtain ⟨direction, purpose, addr, byte⟩ := t
    rw [bus.deviceAccesses_cons, List.foldl_append, ← haccess, ← hserve]
    cases direction with
    | read =>
      obtain ⟨hhost, hkept⟩ := start.read_host purpose addr byte
      rw [← hhost, hserve]
      exact ih _ ((start.read_scheme addr).trans hscheme) (hkept.trans hhandlers) h.2
    | write =>
      obtain ⟨hhost, hkept⟩ := start.write_host purpose addr byte
      rw [← hhost, hserve]
      exact ih _ ((start.write_scheme addr byte).trans hscheme) (hkept.trans hhandlers) h

end Exchange

section Mirror

variable {σ : Type}

/-- The bus does not tell an address from its mirror. -/
theorem Bus.indifferent_mirror [Observer σ] : Activity.Indifferent Likeness.mirror.near (Bus σ) := by
  intro bus addr addr' h
  have hlocate := bus.scheme.locate_mirror h
  refine ⟨?_, fun byte => ?_⟩
  · show bus.read addr = bus.read addr'
    rw [Bus.read, Bus.read, hlocate]
  · show bus.write addr byte = bus.write addr' byte
    rw [Bus.write, Bus.write, hlocate]

/-- Transfers of the same bytes at mirrored addresses are the same accesses to device registers. -/
theorem Bus.deviceAccesses_mirror {bus : Bus σ} {log log' : List Transfer}
    (h : List.Forall₂ (Transfer.Near Likeness.mirror.near) log log') :
    bus.deviceAccesses log = bus.deviceAccesses log' := by
  induction h with
  | nil => rfl
  | @cons t t' _ _ hnear _ ih =>
    have hfirst : bus.deviceAccess? t = bus.deviceAccess? t' := by
      rw [Bus.deviceAccess?, Bus.deviceAccess?, bus.scheme.locate_mirror hnear.addr, hnear.direction, hnear.byte]
    rw [bus.deviceAccesses_cons, bus.deviceAccesses_cons, hfirst, ih]

end Mirror

/-! ## Steps of the machine -/

/-- **The highest bit of a bank register does not show.** Two processors differ at most in these bits and do a step in
the same machine, one that pushes no bank register. The steps report the same, but for that bit, and take as many
cycles; they make the same accesses to device registers in the same order, through which alone they reach the host, and
leave the bus the same; and the processors again differ at most in these bits. -/
theorem bank_mirror_unseen {σ τ : Type} [Observer σ] [TraceSink τ] (machine : Machine σ τ) (cpu' : Cpu)
    (halike : machine.cpu.Alike .mirror cpu')
    (hpush : machine.step.1.event.pushesBank machine.cpu.regs = false) :
    let machine' := { machine with cpu := cpu' }
    let accesses := machine.bus.deviceAccesses (machine.cpu.transfers machine.bus)
    machine.step.1.event.Alike .mirror machine'.step.1.event ∧ machine.step.1.cycles = machine'.step.1.cycles ∧
      machine.step.2.bus = machine'.step.2.bus ∧
      accesses = machine.bus.deviceAccesses (cpu'.transfers machine.bus) ∧
      machine.step.2.bus.host = accesses.foldl machine.bus.serve machine.bus.host ∧
      machine.step.2.cpu.Alike .mirror machine'.step.2.cpu := by
  intro machine' accesses
  have hagree : (eventAt (machine.cpu, machine.bus)).Agree .mirror machine.cpu.regs cpu'.regs := by
    have haccumulator : machine.cpu.regs.a = cpu'.regs.a := halike.regs.accumulator
    refine StepEvent.agree_of_alike halike.regs ?_ (fun _ => haccumulator) fun hpushes => ?_
    · rw [Registers.accumulator, Registers.accumulator, halike.regs.accumulatorWidth, haccumulator]
    · exact absurd (hpush.symm.trans hpushes) Bool.false_ne_true
  have hsame := halike.step Bus.indifferent_mirror hagree
  exact ⟨hsame.event, hsame.cycles, hsame.memory, Bus.deviceAccesses_mirror hsame.transfers,
    host_of_exchange (machine.cpu.exchange_step machine.bus), hsame.after⟩

/-- An indexed load whose address leaves the last bank of either half. -/
theorem bank_mirror_unseen_wrap :
    let machine : Machine Runner.Console Tally :=
      { cpu := { regs := { pc := 0x8000, pbr := 0x80, dbr := 0xFF, x := 1 } }
        bus := { rom := #[0xBD, 0xFF, 0xFF], host := ⟨false, ""⟩ }, config := {}, sink := none }
    let cpu' : Cpu := { regs := { pc := 0x8000, dbr := 0x7F, x := 1 } }
    machine.cpu.Alike .mirror cpu' ∧ machine.step.1.event.pushesBank machine.cpu.regs = false ∧
      machine.step.1.cycles = ({ machine with cpu := cpu' } : Machine Runner.Console Tally).step.1.cycles := by
  intro machine cpu'
  have hregs : Likeness.mirror.Alike machine.cpu.regs cpu'.regs := { Likeness.Alike.refl .mirror cpu'.regs with
    pbr := show (0x80 : UInt8) &&& 0x7F = 0 &&& 0x7F by decide
    dbr := show (0xFF : UInt8) &&& 0x7F = 0x7F &&& 0x7F by decide }
  have halike : machine.cpu.Alike .mirror cpu' := ⟨hregs, rfl, rfl, rfl, rfl, rfl, rfl⟩
  have hpush : machine.step.1.event.pushesBank machine.cpu.regs = false := by decide
  exact ⟨halike, hpush, (bank_mirror_unseen machine cpu' halike hpush).2.1⟩

end Emu816
