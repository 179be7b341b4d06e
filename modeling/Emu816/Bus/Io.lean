/-!
# Device registers

A device register has no storage of its own. What it answers and what a write to it does is up to callbacks of the
host, which work on a state `σ` of the host.

- `IoHandler`: the callbacks of one register.
- `IoDevice`: a device that serves a range of registers with one shared state.
- `defaultIoRead`: what a register without a callback answers.
-/

namespace Emu816

/-- The callbacks of a device register. -/
structure IoHandler (σ : Type) where
  /-- Answers a read of an offset. -/
  read : Option (UInt16 → σ → UInt8 × σ) := none
  /-- Takes a write to an offset. -/
  write : Option (UInt16 → UInt8 → σ → σ) := none

/-- A device behind a range of registers. -/
structure IoDevice (σ : Type) where
  read : UInt16 → σ → UInt8 × σ
  write : UInt16 → UInt8 → σ → σ

namespace IoHandler

variable {σ : Type}

/-- Callbacks that only answer reads. -/
def reader (read : UInt16 → σ → UInt8 × σ) : IoHandler σ := { read := some read }

/-- Callbacks that only take writes. -/
def writer (write : UInt16 → UInt8 → σ → σ) : IoHandler σ := { write := some write }

/-- Callbacks that lead to a device. -/
def ofDevice (device : IoDevice σ) : IoHandler σ := { read := some device.read, write := some device.write }

/-- Whether reads are answered. -/
def hasRead (handler : IoHandler σ) : Bool := handler.read.isSome

/-- Whether writes are taken. -/
def hasWrite (handler : IoHandler σ) : Bool := handler.write.isSome

/-- Answers a read if there is a callback for it. -/
def respond (handler : IoHandler σ) (offset : UInt16) (host : σ) : Option UInt8 × σ :=
  match handler.read with
  | some read =>
    match read offset host with
    | (value, host) => (some value, host)
  | none => (none, host)

/-- Takes a write if there is a callback for it, and tells whether there is. -/
def accept (handler : IoHandler σ) (offset : UInt16) (value : UInt8) (host : σ) : Bool × σ :=
  match handler.write with
  | some write => (true, write offset value host)
  | none => (false, host)

end IoHandler

/-- What a register without a callback answers. The two status registers read as ready, so that a program that polls
them goes on. -/
def defaultIoRead (offset : UInt16) : UInt8 :=
  if offset = 0x4210 then 0x02 else if offset = 0x4212 then 0x00 else 0xFF

end Emu816
