import Q1n1.Model.Proxy.Loop

/-! # The USB ports

`platform/uefi/usb-ports.c`: the transport that the request loop runs on, two ports that come
and go, and the selection that keeps a request on one of them. -/

namespace Q1n1.Proxy

/-- `Q1N1_USB_PORTS` ports. -/
abbrev PortId := Fin 2

def firstPort : PortId := ⟨0, Nat.zero_lt_two⟩

/-- One port as the transport sees it. Bytes leave the queue when they are read or dropped. -/
structure Port where
  ready : Bool := false
  queue : List UInt8 := []
  past : List UInt8 := []
  /-- `checksum_state`: data checksums are off -/
  checksumsOff : Bool := false

def Port.arrived (p : Port) : List UInt8 := p.past ++ p.queue

/-- What can happen to a port at any time. A port comes up again by becoming ready. -/
inductive PortEvent where
  | arrive (i : PortId) (bs : List UInt8)
  | ready (i : PortId) (ready : Bool)
  | stop (i : PortId)

/-- What happens before an access to the transport, how many bytes a write finds room for, and
whether the idle timeout has passed. -/
structure Tick where
  events : List PortEvent := []
  room : ℕ := 0
  late : Bool := false

/-- What happened to the checksum modes. -/
inductive ModeEvent where
  | stopped (i : PortId)
  | set (i : PortId) (off : Bool)
  | used (i : PortId) (off : Bool)
  deriving DecidableEq

/-- `struct q1n1_usb_ports`, with the schedule of what is going to happen and a record of the
checksum modes. -/
structure Ports where
  port : PortId → Port
  selected : Option PortId := none
  schedule : List Tick := []
  modes : List ModeEvent := []

namespace Ports

/-- Ports before a session. A mode that a port has kept from the stage before counts as set. -/
def start (port : PortId → Port) (selected : Option PortId) (schedule : List Tick) : Ports where
  port := port
  selected := selected
  schedule := schedule
  modes := (List.finRange 2).map fun i => .set i (port i).checksumsOff

def setPort (s : Ports) (i : PortId) (p : Port) : Ports :=
  { s with port := Function.update s.port i p }

def event (s : Ports) : PortEvent → Ports
  | .arrive i bs => s.setPort i { s.port i with queue := (s.port i).queue ++ bs }
  | .ready i ready => s.setPort i { s.port i with ready := ready }
  -- `stop_port`
  | .stop i =>
    { s.setPort i { past := (s.port i).arrived } with modes := s.modes ++ [.stopped i] }

def tick (s : Ports) : Tick × Ports :=
  match s.schedule with
  | [] => ({}, s)
  | t :: rest => (t, t.events.foldl event { s with schedule := rest })

/-- A port that reads and writes may use. -/
def eligible (s : Ports) (i : PortId) : Bool :=
  (s.selected.isNone || s.selected == some i) && (s.port i).ready

def ready (s : Ports) : Bool × Ports :=
  let s := s.tick.2
  match s.selected with
  | some i => ((s.port i).ready, s)
  | none => ((List.finRange 2).any fun i => (s.port i).ready, s)

/-- `io_read`: the first port that has something. -/
def read (count : ℕ) (s : Ports) : (PortId × List UInt8) × Ports :=
  let s := s.tick.2
  match (List.finRange 2).find? fun i => s.eligible i && (s.port i).queue.take count ≠ [] with
  | none => ((firstPort, []), s)
  | some i =>
    let p := s.port i
    let got := p.queue.take count
    ((i, got), { s.setPort i { p with queue := p.queue.drop count, past := p.past ++ got } with
      selected := some i })

/-- `io_write`: the first port that is up, whether it has room or not. -/
def write (bs : List UInt8) (s : Ports) : (PortId × ℕ) × Ports :=
  let (t, s) := s.tick
  match (List.finRange 2).find? s.eligible with
  | none => ((firstPort, 0), s)
  | some i => ((i, min t.room bs.length), s)

/-- `q1n1_usb_ports_init` fills the table in; there is no `abort`. -/
def io : Io Ports PortId where
  poll s := s.tick.2
  abort s := (false, s)
  ready := ready
  read := read
  write := write
  end_ s := { s with selected := none }
  checksumState s := s.selected.getD firstPort
  checksumsOff i s :=
    ((s.port i).checksumsOff, { s with modes := s.modes ++ [.used i (s.port i).checksumsOff] })
  setChecksumsOff i off s :=
    { s.setPort i { s.port i with checksumsOff := off } with modes := s.modes ++ [.set i off] }
  expired s := (s.tick.1.late, s.tick.2)
  clock s := s.modes.length

end Ports

/-- The mode last set on a port since it came up; ports come up with checksums. -/
def lastMode (modes : List ModeEvent) (i : PortId) : Bool :=
  modes.foldl (fun mode e =>
    match e with
    | .stopped j => if j = i then false else mode
    | .set j off => if j = i then off else mode
    | .used _ _ => mode) false

end Q1n1.Proxy
