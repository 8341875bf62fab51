import Mathlib.Tactic.Ring
import Q1n1.Library.CounterRing

/-! # The bulk pipes of the DWC3 device

`platform/uefi/qcom-dwc3.c`: the rings of a pipe, its two bulk endpoints, and how polls, reads
and writes move bytes between them. Beside the driver stands the controller: it moves packets
of the transfers that were started and posts one completion for each.

What the control endpoint does to the pipes is to set `configured` and their `ready` flags,
which is all this model keeps of it; bus resets and disconnects are left out. -/

namespace Q1n1.Dwc3

def xferBytes : ℕ := 16384
def ringBytes : ℕ := 65536
def hsPacket : ℕ := 512
def trbSizeMask : ℕ := 0xffffff

/-- `struct qdwc3_ring`, with 32-bit counters. -/
abbrev Ring := CounterRing ringBytes (2 ^ 32)

inductive Dir where
  | in_ | out
  deriving DecidableEq

/-- `QDWC3_PIPES` pipes. -/
abbrev PipeId := Fin 2

/-- A bulk endpoint: its flags, its transfer buffer and the size field of its TRB. -/
structure Endpoint where
  inProgress : Bool := false
  zlpPending : Bool := false
  buffer : Memory := fun _ => 0
  trbSize : ℕ := 0
  /-- the controller: how much of the transfer it has moved, while it works on one -/
  active : Option ℕ := none

structure Pipe where
  host2device : Ring
  device2host : Ring
  ready : Bool := false
  epIn : Endpoint := {}
  epOut : Endpoint := {}
  droppedRx : ℕ := 0
  -- The rest only records what happened.
  /-- what `qdwc3_write` took -/
  accepted : List UInt8 := []
  /-- what the host got, packet by packet -/
  received : List (List UInt8) := []
  /-- what the host sent, packet by packet -/
  sent : List (List UInt8) := []
  /-- what `qdwc3_read` returned -/
  returned : List UInt8 := []
  /-- a buffer or a TRB was written while the controller worked on it -/
  clobbered : Bool := false

def Pipe.endpoint (p : Pipe) : Dir → Endpoint
  | .in_ => p.epIn
  | .out => p.epOut

def Pipe.setEndpoint (p : Pipe) (e : Endpoint) : Dir → Pipe
  | .in_ => { p with epIn := e }
  | .out => { p with epOut := e }

def Pipe.touch (p : Pipe) (dir : Dir) : Pipe :=
  { p with clobbered := p.clobbered || (p.endpoint dir).active.isSome }

/-- `start_trb`; `ok` is the answer to the start command. -/
def Pipe.startTrb (ok : Bool) (dir : Dir) (length : ℕ) (p : Pipe) : Bool × Pipe :=
  let e := p.endpoint dir
  if e.inProgress then (false, p)
  else
    let e := { e with trbSize := length }
    let p := p.touch dir
    if !ok then (false, p.setEndpoint e dir)
    else (true, p.setEndpoint { e with inProgress := true, active := some 0 } dir)

def Pipe.startBulkOut (configured ok : Bool) (p : Pipe) : Pipe :=
  if !configured || p.epOut.inProgress || ringBytes - p.host2device.used < hsPacket then p
  else (p.startTrb ok .out hsPacket).2

/-- The peek of `start_bulk_in`, into the transfer buffer. -/
def Pipe.fill (p : Pipe) (bytes : List UInt8) : Pipe :=
  { p with epIn := { p.epIn with buffer := p.epIn.buffer.store 0 bytes } }.touch .in_

/-- `start_bulk_in` with the bytes that were peeked; they stay queued until the transfer has
started. -/
def Pipe.sendBytes (ok : Bool) (bytes : List UInt8) (p : Pipe) : Pipe :=
  let p := p.fill bytes
  if bytes = [] ∧ p.epIn.zlpPending = false then p
  else
    match p.startTrb ok .in_ bytes.length with
    | (false, p) => p
    | (true, p) =>
      { p with
        device2host := p.device2host.skip bytes.length
        epIn := { p.epIn with zlpPending := bytes.length ≠ 0 && bytes.length % hsPacket = 0 } }

def Pipe.startBulkIn (configured ok : Bool) (p : Pipe) : Pipe :=
  if !configured || p.epIn.inProgress then p
  else p.sendBytes ok (p.device2host.peek xferBytes)

def Pipe.bulkOutDone (p : Pipe) : Pipe :=
  let remaining := p.epOut.trbSize &&& trbSizeMask
  let received := if remaining ≤ hsPacket then hsPacket - remaining else 0
  let (kept, ring) := p.host2device.write (p.epOut.buffer.load 0 received)
  { p with host2device := ring, droppedRx := p.droppedRx + (received - kept) }

def Pipe.complete (dir : Dir) (p : Pipe) : Pipe :=
  let p := p.setEndpoint { p.endpoint dir with inProgress := false } dir
  match dir with
  | .in_ => p
  | .out => p.bulkOutDone

/-! ## The device -/

/-- What the driver finds in the event buffer. -/
inductive Event where
  | xferComplete (i : PipeId) (dir : Dir)
  | xferNotReady (i : PipeId) (dir : Dir)
  /-- an event of the control endpoint, and how things stand when it has been served -/
  | control (configured : Bool) (ready : PipeId → Bool)
  | other

structure Device where
  configured : Bool := false
  pipe : PipeId → Pipe
  events : List Event := []
  /-- what the controller is going to answer to start commands -/
  commands : List Bool := []

namespace Device

def onPipe (d : Device) (i : PipeId) (f : Pipe → Pipe) : Device :=
  { d with pipe := Function.update d.pipe i (f (d.pipe i)) }

def withCommand (d : Device) (i : PipeId) (f : Bool → Pipe → Pipe) : Device :=
  { d.onPipe i (f (d.commands.headD true)) with commands := d.commands.tail }

def startBulkOut (d : Device) (i : PipeId) : Device :=
  d.withCommand i fun ok => Pipe.startBulkOut d.configured ok

def startBulkIn (d : Device) (i : PipeId) : Device :=
  d.withCommand i fun ok => Pipe.startBulkIn d.configured ok

def handleEvent (d : Device) : Event → Device
  | .xferComplete i dir => d.onPipe i (Pipe.complete dir)
  | .xferNotReady i dir =>
    if ((d.pipe i).endpoint dir).inProgress then d
    else
      match dir with
      | .in_ => d.startBulkIn i
      | .out => d.startBulkOut i
  | .control configured ready =>
    { d with configured := configured, pipe := fun i => { d.pipe i with ready := ready i } }
  | .other => d

def handleEvents : ℕ → Device → Device
  | 0, d => d
  | n + 1, d =>
    match d.events with
    | [] => d
    | e :: rest => handleEvents n (handleEvent { d with events := rest } e)

def poll (d : Device) : Device :=
  (List.finRange 2).foldl (fun d i => (d.startBulkOut i).startBulkIn i)
    (handleEvents d.events.length d)

def read (d : Device) (i : PipeId) (count : ℕ) : Device :=
  d.onPipe i fun p =>
    let (bytes, ring) := p.host2device.read count
    { p with host2device := ring, returned := p.returned ++ bytes }

def write (d : Device) (i : PipeId) (bs : List UInt8) : Device :=
  if (d.pipe i).ready then
    startBulkIn (d.onPipe i fun p =>
      let (n, ring) := p.device2host.write bs
      { p with device2host := ring, accepted := p.accepted ++ bs.take n }) i
  else d

end Device

/-! ## The controller -/

/-- The controller sends the next packet of the transfer to the host; the last one completes
the transfer. -/
def Device.packetIn (d : Device) (i : PipeId) : Device :=
  let e := (d.pipe i).epIn
  match e.active with
  | none => d
  | some moved =>
    let n := min hsPacket (e.trbSize - moved)
    let packet := e.buffer.load moved n
    let done := moved + n = e.trbSize
    let d := d.onPipe i fun p => { p with
      received := p.received ++ [packet]
      epIn := { e with active := if done then none else some (moved + n) } }
    if done then { d with events := d.events ++ [.xferComplete i .in_] } else d

/-- The host sends a packet, which completes the transfer. A pipe without one turns it away. -/
def Device.packetOut (d : Device) (i : PipeId) (packet : List UInt8) : Device :=
  let e := (d.pipe i).epOut
  if e.active.isSome && packet.length ≤ hsPacket then
    let d := d.onPipe i fun p => { p with
      sent := p.sent ++ [packet]
      epOut := { e with
        buffer := e.buffer.store 0 packet
        trbSize := hsPacket - packet.length
        active := none } }
    { d with events := d.events ++ [.xferComplete i .out] }
  else d

inductive Action where
  | poll
  | read (i : PipeId) (count : ℕ)
  | write (i : PipeId) (bs : List UInt8)
  | packetIn (i : PipeId)
  | packetOut (i : PipeId) (packet : List UInt8)
  | notReady (i : PipeId) (dir : Dir)
  | control (configured : Bool) (ready : PipeId → Bool)
  | other

def Device.act (d : Device) : Action → Device
  | .poll => d.poll
  | .read i count => d.read i count
  | .write i bs => d.write i bs
  | .packetIn i => d.packetIn i
  | .packetOut i packet => d.packetOut i packet
  | .notReady i dir => { d with events := d.events ++ [.xferNotReady i dir] }
  | .control configured ready => { d with events := d.events ++ [.control configured ready] }
  | .other => { d with events := d.events ++ [.other] }

def Device.run (d : Device) (actions : List Action) : Device := actions.foldl Device.act d

/-- A device whose rings are empty, with any counters and any answers to start commands. -/
def Device.start (counter : PipeId → Dir → ℕ) (commands : List Bool) : Device where
  pipe i :=
    { host2device := ⟨fun _ => 0, counter i .out % 2 ^ 32, counter i .out % 2 ^ 32⟩
      device2host := ⟨fun _ => 0, counter i .in_ % 2 ^ 32, counter i .in_ % 2 ^ 32⟩ }
  commands := commands

end Q1n1.Dwc3
