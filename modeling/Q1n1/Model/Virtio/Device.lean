import Q1n1.Library.Cut
import Q1n1.Library.Fields

/-! # The virtio register page of the hypervisor (src/hv_virtio.c)

A guest's loads and stores to the page of a device end in `handleVirtio`. Every
access the handler makes to memory is recorded with the place it goes to: the
device record, one of the queue records behind it, the configuration bytes, an
address that a guest supplied, or the link by which the search for the device goes
on. A queue index at or past the number of queues is a place like any other here, as
it is for the pointer arithmetic of the source. -/

namespace Q1n1.Virtio

def magicReg : ℕ := 0x000
def versionReg : ℕ := 0x004
def devidReg : ℕ := 0x008
def featHost : ℕ := 0x010
def featHostSel : ℕ := 0x014
def qsel : ℕ := 0x030
def qmax : ℕ := 0x034
def qsize : ℕ := 0x038
def qready : ℕ := 0x044
def qnotify : ℕ := 0x050
def irqStatus : ℕ := 0x060
def irqAck : ℕ := 0x064
def devStatus : ℕ := 0x070
def qdesc : ℕ := 0x080
def qhostarea : ℕ := 0x0a0

structure Queue where
  idx : ℕ
  max : ℕ
  size : ℕ
  ready : Bool
  desc : ℕ
  availSeen : ℕ
  avail : ℕ
  used : ℕ
  areaRegs : ℕ → ℕ

structure Device where
  base : ℕ
  irq : ℕ
  numQus : ℕ
  devid : ℕ
  feats : ℕ
  config : ℕ → UInt8
  configLen : ℕ
  verbose : Bool
  featHostSel : ℕ
  status : ℕ
  irqstatus : ℕ
  currq : Option ℕ
  qs : ℕ → Queue

inductive Place
  | device
  | queue (i : ℕ)
  | config (i : ℕ)
  | guest (a n : ℕ)
  | link
deriving DecidableEq

/-- What the host is told about one available buffer, where `qu` has 16 bits; `seq`, the ring
position it was taken from, is bookkeeping. -/
structure Notice where
  devbase : ℕ
  qu : ℕ
  idx : ℕ
  descbase : ℕ
  seq : ℕ
deriving DecidableEq

/-- One device while an access to its page is handled. -/
structure State where
  dev : Device
  line : Option Bool
  places : List Place
  notices : List Notice

abbrev M := Cut State

/-! ## Memory accesses -/

def touch (p : Place) : M Unit := Cut.modify fun s => { s with places := s.places ++ [p] }

def device {α : Type} (f : Device → α) : M α := do
  touch .device
  Cut.gets fun s => f s.dev

def setDevice (f : Device → Device) : M Unit := do
  touch .device
  Cut.modify fun s => { s with dev := f s.dev }

def queue {α : Type} (i : ℕ) (f : Queue → α) : M α := do
  touch (.queue i)
  Cut.gets fun s => f (s.dev.qs i)

def Device.setQueue (d : Device) (i : ℕ) (f : Queue → Queue) : Device :=
  { d with qs := fun j => if j = i then f (d.qs i) else d.qs j }

def setQueue (i : ℕ) (f : Queue → Queue) : M Unit := do
  touch (.queue i)
  Cut.modify fun s => { s with dev := s.dev.setQueue i f }

def config (i : ℕ) : M UInt8 := do
  touch (.config i)
  Cut.gets fun s => s.dev.config i

def guest (m : Memory) (a n : ℕ) : M ℕ := do
  touch (.guest (a % 2 ^ 64) n)
  pure (m.field n (a % 2 ^ 64))

/-- Tell the host about a buffer; a verbose device prints the descriptor first. -/
def notifyAvail (m : Memory) (i seq idx : ℕ) : M Unit := do
  let desc ← queue i Queue.desc
  let devbase ← device Device.base
  let qu ← queue i Queue.idx
  let verbose ← device Device.verbose
  if verbose then do
    let _ ← guest m (desc + 16 * idx) 14
    Cut.modify fun s => { s with notices := s.notices ++ [⟨devbase, qu % 2 ^ 16, idx, desc, seq⟩] }
  else
    Cut.modify fun s => { s with notices := s.notices ++ [⟨devbase, qu % 2 ^ 16, idx, desc, seq⟩] }

/-- The loop of `notify_buffers`. Each pass finds the memory as the guest has it by
then; a pass that has not come yet ends the list. -/
def notifyLoop (i avail : ℕ) : List Memory → M Unit
  | [] => Cut.stop
  | m :: later => do
    let idx ← guest m (avail + 2) 2
    let seen ← queue i Queue.availSeen
    if idx ≠ seen then do
      let size ← queue i Queue.size
      let head ← guest m (avail + 4 + 2 * (seen % size)) 2
      notifyAvail m i seen head
      setQueue i fun q => { q with availSeen := (q.availSeen + 1) % 2 ^ 16 }
      notifyLoop i avail later
    else pure ()

/-- The queue's ring pointer is read before the index is checked. -/
def notifyBuffers (passes : List Memory) (qidx : ℕ) : M Unit := do
  let avail ← queue qidx Queue.avail
  let numQus ← device Device.numQus
  if qidx ≥ numQus then pure ()
  else notifyLoop qidx avail passes

/-! ## Registers -/

/-- The conversion of a wider value to `int`. -/
def toInt (v : ℕ) : ℤ := if v % 2 ^ 32 < 2 ^ 31 then v % 2 ^ 32 else v % 2 ^ 32 - 2 ^ 32

/-- The queue record that `&dev->qs[val]` names: records are 136 bytes apart, so
the address repeats with the index modulo `2 ^ 61`. -/
def element (val : ℕ) : ℕ := val % 2 ^ 61

def writeDevice (passes : List Memory) (addr val : ℕ) : M Unit :=
  if addr = devStatus then setDevice fun d => { d with status := val % 2 ^ 32 }
  else if addr = qsel then do
    let numQus ← device Device.numQus
    if toInt val ≤ toInt numQus then
      setDevice fun d => { d with currq := some (element val) }
    else setDevice fun d => { d with currq := none }
  else if addr = qnotify then notifyBuffers passes (val % 2 ^ 32)
  else if addr = featHostSel then setDevice fun d => { d with featHostSel := val % 2 ^ 32 }
  else if addr = irqAck then do
    setDevice fun d => { d with irqstatus := d.irqstatus &&& (0xffffffff ^^^ val % 2 ^ 32) }
    let pending ← device Device.irqstatus
    if pending = 0 then Cut.modify fun s => { s with line := some false }
    else pure ()
  else pure ()

/-- An address register pair: the high half shifted over the low one. -/
def areaAddress (regs : ℕ → ℕ) (i : ℕ) : ℕ := regs (i + 1) * 2 ^ 32 % 2 ^ 64 ||| regs i

def Queue.setArea (q : Queue) (i val : ℕ) : Queue :=
  let regs := fun j => if j = i then val else q.areaRegs j
  { q with
    areaRegs := regs
    desc := areaAddress regs 0
    avail := areaAddress regs 4
    used := areaAddress regs 8 }

def writeQueue (i addr val : ℕ) : M Unit :=
  if addr = qsize then setQueue i fun q => { q with size := val % 2 ^ 32 }
  else if addr = qready then setQueue i fun q => { q with ready := val % 2 = 1 }
  else if qdesc ≤ addr ∧ addr ≤ qhostarea + 4 then
    setQueue i fun q => q.setArea ((addr - qdesc) / 4) val
  else pure ()

def write (passes : List Memory) (addr val : ℕ) : M Unit := do
  writeDevice passes addr val
  let q ← device Device.currq
  match q with
  | none => pure ()
  | some i => writeQueue i addr val

/-- A load; a register that none of the cases names leaves the value as it was. -/
def read (addr val : ℕ) : M ℕ :=
  if addr = magicReg then pure 0x74726976
  else if addr = versionReg then pure 2
  else if addr = devidReg then device Device.devid
  else if addr = devStatus then device Device.status
  else if addr = featHost then do
    let sel ← device Device.featHostSel
    let feats ← device Device.feats
    -- a shift by a register counts modulo the width
    pure (feats >>> (sel * 32 % 64))
  else if addr = irqStatus then device Device.irqstatus
  else if 0x100 ≤ addr then do
    let len ← device Device.configLen
    if addr - 0x100 < len then do
      let byte ← config (addr - 0x100)
      pure byte.toNat
    else pure 0
  else do
    let q ← device Device.currq
    match q with
    | none => pure 0
    | some i =>
      if addr = qmax then queue i Queue.max
      else if addr = qready then do
        let ready ← queue i Queue.ready
        pure ready.toNat
      else pure val

/-! ## Devices on the guest's bus -/

structure Conf where
  base : ℕ
  irq : ℕ
  devid : ℕ
  feats : ℕ
  numQus : ℕ
  config : ℕ → UInt8
  configLen : ℕ
  verbose : Bool

def initialQueue (numQus : ℕ) (beyond : ℕ → Queue) (i : ℕ) : Queue :=
  if i < numQus then ⟨i, 256, 0, false, 0, 0, 0, 0, fun _ => 0⟩ else beyond i

def mapVirtio (conf : Conf) (beyond : ℕ → Queue) : Device where
  base := conf.base
  irq := conf.irq
  numQus := conf.numQus
  devid := conf.devid
  feats := conf.feats ||| 2 ^ 32
  config := conf.config
  configLen := conf.configLen
  verbose := conf.verbose
  featHostSel := 0
  status := 0
  irqstatus := 0
  currq := none
  qs := initialQueue conf.numQus beyond

/-- One access of a guest, with the memory as each pass of a notification finds it. -/
structure Access where
  addr : ℕ
  val : ℕ
  write : Bool
  passes : List Memory

/-- All devices, newest first; places and notices are tagged with the device. -/
structure World where
  devices : List Device
  places : List (ℕ × Place)
  notices : List (ℕ × Notice)

def devByBase (devices : List Device) (base : ℕ) : Option ℕ :=
  devices.findIdx? fun d => d.base = base

/-- What the search reads: the base and the link of every record up to the one found. -/
def World.search (w : World) (base : ℕ) : World :=
  let visited := (devByBase w.devices base).elim w.devices.length (· + 1)
  { w with places := w.places ++ (List.range visited).map fun j => (j, .link) }

/-- The access itself, at offset `addr` of the device's page. -/
def register (a : Access) : M ℕ :=
  if a.write then do
    write a.passes (a.addr % 0x1000) a.val
    pure a.val
  else read (a.addr % 0x1000) a.val

/-- Put a device back after an access, with the places and notices it added. -/
def World.put (w : World) (k : ℕ) (s : State) : World where
  devices := w.devices.set k s.dev
  places := w.places ++ s.places.map fun p => (k, p)
  notices := w.notices ++ s.notices.map fun n => (k, n)

/-- `none` when no device has the page, otherwise the value left to the guest. -/
def handleVirtio (a : Access) : Cut World (Option ℕ) := fun w =>
  let base := a.addr - a.addr % 0x1000
  match devByBase w.devices base with
  | none => (some none, w.search base)
  | some k =>
    match w.devices[k]? with
    | none => (some none, w.search base)
    | some d =>
      let out := register a ⟨d, none, [], []⟩
      (out.1.map some, (w.search base).put k out.2)

def runAccesses : List Access → Cut World Unit
  | [] => pure ()
  | a :: rest => do
    let _ ← handleVirtio a
    runAccesses rest

/-- The devices of these configurations, over any memory behind their records. -/
def attached (confs : List (Conf × (ℕ → Queue))) : World where
  devices := confs.map fun c => mapVirtio c.1 c.2
  places := []
  notices := []

end Q1n1.Virtio
