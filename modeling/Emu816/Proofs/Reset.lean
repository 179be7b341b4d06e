import Emu816.Proofs.MachineHost
import Emu816.Runner.Console

/-!
# Reset

After a reset nothing is left of what a machine did before: the processor starts over, work memory is clear, and what
stays is what the machine consists of.

- `Image.entry`: the word of an image at which a reset starts execution.
- `Machine.reset_eq`: the machine after a reset.
- `reset_erases_history`: machines of the same parts cannot be told apart after a reset.
-/

namespace Emu816

/-- Offset of the reset vector in an image. -/
def Scheme.entryOffset : Scheme → Nat
  | .loRom => 0x7FFC
  | .hiRom => 0xFFFC

/-- The reset vector of an image. -/
def Image.entry (image : Image) (scheme : Scheme) : UInt16 :=
  Word.ofBytes (image.byteAt scheme.entryOffset) (image.byteAt (scheme.entryOffset + 1))

/-- The reset vector lies in the cartridge, where the scheme puts it. -/
theorem Scheme.locate_resetVector (scheme : Scheme) :
    scheme.locate resetVector.toUInt32 = .rom scheme.entryOffset ∧
      scheme.locate (resetVector.toUInt32 + 1) = .rom (scheme.entryOffset + 1) := by
  cases scheme <;> decide

section Reset

variable {σ τ : Type}

/-- A reset finds the vector of the image in the slot, and leaves the bus as it is. -/
theorem Cpu.reset_bus [Observer σ] (cpu : Cpu) (bus : Bus σ) :
    cpu.reset bus = (bus.rom.entry bus.scheme, cpu.restarted (bus.rom.entry bus.scheme), bus) := by
  obtain ⟨hlow, hhigh⟩ := bus.scheme.locate_resetVector
  have hreadLow : Memory.read bus resetVector.toUInt32 = (bus.rom.byteAt bus.scheme.entryOffset, bus) := by
    show bus.read _ = _
    rw [Bus.read, hlow]
    rfl
  have hreadHigh :
      Memory.read bus (resetVector.toUInt32 + 1) = (bus.rom.byteAt (bus.scheme.entryOffset + 1), bus) := by
    show bus.read _ = _
    rw [Bus.read, hhigh]
    rfl
  rw [Cpu.reset, hreadLow]
  dsimp only
  rw [hreadHigh]
  rfl

/-- **The machine after a reset**: what is left of the processor is the place to start from a blank vector, work memory
is clear, and the host hears of a blank vector and nothing else. -/
theorem Machine.reset_eq [Observer σ] (machine : Machine σ τ) :
    machine.reset =
      let bus := machine.bus
      let vector := bus.rom.entry bus.scheme
      let fallback := machine.cpu.resetFallback
      { machine with
        cpu := { regs := { pc := if vector = 0 ∨ vector = 0xFFFF then fallback else vector }, resetFallback := fallback }
        bus :=
          { bus with
            workRam := .replicate _ 0
            host :=
              if vector = 0 ∨ vector = 0xFFFF then Observer.note (.blankResetVector vector fallback) bus.host
              else bus.host } } := by
  obtain ⟨cpu, bus, config, sink⟩ := machine
  have hreset : cpu.reset bus.reset =
      (bus.rom.entry bus.scheme, cpu.restarted (bus.rom.entry bus.scheme), bus.reset) := cpu.reset_bus bus.reset
  have hblank : Cpu.isBlank (bus.rom.entry bus.scheme) =
      decide (bus.rom.entry bus.scheme = 0 ∨ bus.rom.entry bus.scheme = 0xFFFF) := by
    rw [Cpu.isBlank, Bool.decide_or]
    rfl
  simp only [Machine.reset, hreset, Cpu.restarted, Cpu.entryPoint, hblank, decide_eq_true_eq]
  split
  · rfl
  · rfl

/-- **Reset erases history.** Two machines with the same image, scheme, battery-backed memory, callbacks and settings, and
the same fallback, are the same after a reset whatever their processors and work memories were, and from then on give the
same replies to the same calls. Execution starts at the word at the end of the image's first page, or at the fallback if
that word is blank. -/
theorem reset_erases_history [Observer σ] [TraceSink τ] (machine machine' : Machine σ τ)
    (hrom : machine.bus.rom = machine'.bus.rom) (hscheme : machine.bus.scheme = machine'.bus.scheme)
    (hsaveRam : machine.bus.saveRam = machine'.bus.saveRam)
    (hhandlers : machine.bus.handlers = machine'.bus.handlers) (hhost : machine.bus.host = machine'.bus.host)
    (hconfig : machine.config = machine'.config)
    (hfallback : machine.cpu.resetFallback = machine'.cpu.resetFallback) :
    let rom := machine.bus.rom
    let fallback := machine.cpu.resetFallback
    let vector :=
      match machine.bus.scheme with
      | .loRom => Word.ofBytes (rom[0x7FFC]?.getD 0xFF) (rom[0x7FFD]?.getD 0xFF)
      | .hiRom => Word.ofBytes (rom[0xFFFC]?.getD 0xFF) (rom[0xFFFD]?.getD 0xFF)
    machine.reset.cpu = machine'.reset.cpu ∧ machine.reset.bus = machine'.reset.bus ∧
    machine.reset.cpu =
      { regs := { pc := if vector = 0x0000 ∨ vector = 0xFFFF then fallback else vector }, resetFallback := fallback } ∧
    machine.reset.bus =
      { machine.bus with
        workRam := .replicate _ 0
        host :=
          if vector = 0x0000 ∨ vector = 0xFFFF then
            Observer.note (.blankResetVector vector fallback) machine.bus.host
          else machine.bus.host } ∧
    ∀ calls : List (MachineCall σ τ),
      let after := MachineCall.applyAll calls machine.reset
      let after' := MachineCall.applyAll calls machine'.reset
      after.1 = after'.1 ∧ after.2.cpu = after'.2.cpu ∧ after.2.bus = after'.2.bus ∧
        after.2.config = after'.2.config := by
  intro rom fallback vector
  have hvector : machine.bus.rom.entry machine.bus.scheme = vector := by
    simp only [vector, rom]
    cases machine.bus.scheme <;> rfl
  have hagrees : Machine.Agrees machine.reset machine'.reset := by
    rw [machine.reset_eq, machine'.reset_eq]
    refine ⟨?_, ?_, hconfig⟩
    · simp only [hrom, hscheme, hfallback]
    · simp only [hrom, hscheme, hsaveRam, hhandlers, hhost, hfallback]
  refine ⟨hagrees.cpu, hagrees.bus, ?_, ?_, ?_⟩
  · rw [machine.reset_eq, ← hvector]
  · rw [machine.reset_eq, ← hvector]
  · intro calls after after'
    obtain ⟨hreplies, hafter⟩ := hagrees.applyAll calls
    exact ⟨hreplies, hafter.cpu, hafter.bus, hafter.config⟩

end Reset

/-- A stopped machine with an empty slot and one that never ran: both start over at the fallback. -/
theorem reset_erases_history_empty :
    let machine : Machine Runner.Console Tally := .new {} { verbose := false }
    let stopped := machine.mapCpu fun cpu => { cpu with runState := .stopped, nmiPending := true, cycles := 9 }
    let machine' := stopped.mapBus fun bus => bus.store 0x42 (.workRam 7)
    machine'.reset.cpu = machine.reset.cpu ∧ machine'.reset.cpu.regs.pc = 0x8000 ∧
      (MachineCall.applyAll [.step, .runFrame true] machine'.reset).1 =
        (MachineCall.applyAll [.step, .runFrame true] machine.reset).1 := by
  intro machine stopped machine'
  obtain ⟨hcpu, -, hstart, -, hcalls⟩ := reset_erases_history machine' machine rfl rfl rfl rfl rfl rfl rfl
  refine ⟨hcpu, ?_, (hcalls _).1⟩
  rw [hstart]
  decide +kernel

end Emu816
