import Q1n1.Library.Memory

/-! # The console of `iodev.c`

A console write offers its bytes to every device, behind what the device has not taken yet. The
pointers count bytes in a `size_t`. -/

namespace Q1n1.Iodev

def consoleBufferSize : ℕ := 8192

/-- What happens to a device: its read pointer moves, or a UART gets bytes beside the buffer. -/
inductive Entry where
  | took (bytes : List UInt8)
  | dropped (n : ℕ)
  | behind (n : ℕ)
  | straight (bytes : List UInt8)
  deriving DecidableEq

/-- Each entry of the log comes with the write it was made at. -/
structure Device where
  rp : ℕ := 0
  log : List (ℕ × Entry) := []

/-- What a device does with a write: it is not there or cannot write, it is no console, or it
takes at most so many bytes of each block it is offered, and refuses at 0. -/
inductive Answer where
  | unready
  | disabled
  | ready (accepts : List ℕ)

/-- A call of `iodev_console_write`, by a secondary CPU while the MMU is off or by any other. -/
structure Write (ι : Type) where
  secondary : Bool := false
  data : List UInt8
  answers : ι → Answer

structure Console (ι : Type) where
  wp : ℕ := 0
  buf : Memory := fun _ => 0
  devices : ι → Device := fun _ => {}
  writes : ℕ := 0

namespace Device

variable (k : ℕ)

def took (d : Device) (bytes : List UInt8) : Device :=
  { rp := (d.rp + bytes.length) % 2 ^ 64, log := d.log ++ [(k, .took bytes)] }

def catchUp (wp : ℕ) (d : Device) : Device :=
  if wp > consoleBufferSize then
    { rp := max (wp - consoleBufferSize) d.rp
      log := d.log ++ [(k, .behind (wp - consoleBufferSize - d.rp))] }
  else d

/-- Bytes that are in the buffer; nothing is left of the answers when the device refused. -/
def flush (wp : ℕ) (buf : Memory) : List ℕ → Device → Device × Option (List ℕ)
  | [], d => (d, if d.rp < wp then none else some [])
  | a :: accepts, d =>
    if d.rp < wp then
      let bufRp := d.rp % consoleBufferSize
      let ret := min a (min (wp - d.rp) (consoleBufferSize - bufRp))
      if ret = 0 then (d, none) else flush wp buf accepts (d.took k (buf.load bufRp ret))
    else (d, some (a :: accepts))

/-- The bytes of the write itself. -/
def write : List ℕ → List UInt8 → Device → Device
  | [], _, d => d
  | a :: accepts, data, d =>
    let ret := min a data.length
    if ret = 0 then d else write accepts (data.drop ret) (d.took k (data.take ret))

def visit (wp : ℕ) (buf : Memory) (data : List UInt8) (d : Device) : Answer → Device
  | .unready => d
  | .disabled =>
    { rp := (wp + data.length) % 2 ^ 64
      log := d.log ++ [(k, .dropped (wp + data.length - d.rp))] }
  | .ready accepts =>
    match (d.catchUp k wp).flush k wp buf accepts with
    | (d, none) => d
    | (d, some accepts) => d.write k accepts data

/-- `_iodev_console_write_helper`: a prefix and the bytes, and no look at what was accepted. -/
def straight (data : List UInt8) (d : Device) : Answer → Device
  | .ready accepts =>
    if data = [] then d
    else { d with log := d.log ++
      [(k, .straight ([0x2a].take (accepts.getD 0 0) ++ data.take (accepts.getD 1 0)))] }
  | _ => d

end Device

def fill (wp : ℕ) (buf : Memory) (data : List UInt8) : Memory :=
  if data = [] then buf
  else
    let bufWp := wp % consoleBufferSize
    let block := min data.length (consoleBufferSize - bufWp)
    fill ((wp + block) % 2 ^ 64) (buf.store bufWp (data.take block)) (data.drop block)
termination_by data.length
decreasing_by
  have := List.length_pos_iff.mpr ‹_›
  have := Nat.mod_lt wp (show 0 < consoleBufferSize by decide)
  simp only [List.length_drop]
  omega

/-- `iodev_console_write`, not from inside a device operation; `uart` says which devices are the
two UARTs. -/
def Console.write {ι : Type} (uart : ι → Bool) (c : Console ι) (w : Write ι) : Console ι :=
  if w.secondary then
    { c with
      writes := c.writes + 1
      devices := fun i =>
        if uart i then (c.devices i).straight c.writes w.data (w.answers i) else c.devices i }
  else
    { wp := (c.wp + w.data.length) % 2 ^ 64
      buf :=
        let skip := w.data.length - consoleBufferSize
        fill ((c.wp + skip) % 2 ^ 64) c.buf (w.data.drop skip)
      devices := fun i => (c.devices i).visit c.writes c.wp c.buf w.data (w.answers i)
      writes := c.writes + 1 }

def Console.run {ι : Type} (uart : ι → Bool) (writes : List (Write ι)) : Console ι :=
  writes.foldl (Console.write uart) {}

end Q1n1.Iodev
