import Mathlib.Data.Int.Bitwise
import Q1n1.Library.Bytes
import Q1n1.Library.Cut
import Q1n1.Library.Memory

/-! # The NVMe controller seen from the host

`tools/nvme_m3.py`: class `Nvme`, from the queues to the reads. A call of Python code either
returns or raises; what it did before it raised stays done. The proxy answers every access it
is asked for, in any way, and may fail. The fields of `record` and `log`, which no method
reads, and the times in `outstanding` are left out. -/

namespace Q1n1.Nvme

open Bytes

def pageBytes : ℕ := 4096

def adminEntries : ℕ := 32
def ioEntries : ℕ := 64

def adminAllowed : List Int := [0x00, 0x01, 0x02, 0x04, 0x05, 0x06, 0x09, 0x0A]
def setFeaturesAllowed : List Int := [0x07]
def ioAllowed : List Int := [0x02]

def completionReads : ℕ := 8

/-- The namespace identifier of the SSD, in the byte order of Identify. -/
def expectEui64 : List UInt8 := [0x00, 0x25, 0x38, 0xF2, 0x61, 0xC3, 0xC2, 0x91]

/-! ## The window -/

namespace Layout

def asq : ℕ := 0x0000
def acq : ℕ := 0x1000
def iosq : ℕ := 0x2000
def iocq : ℕ := 0x3000
def ident : ℕ := 0x4000
def aux : ℕ := 0x5000
def prp : ℕ := 0x8000

end Layout

/-- Where things are inside the DMA window, as offsets from its base. -/
structure Layout where
  size : ℕ
  data : ℕ
  dataBytes : ℕ
  chunk : ℕ
  slots_le : dataBytes / chunk ≤ 8
  lists_le : Layout.prp + 8 * pageBytes ≤ data
  data_le : data + dataBytes ≤ size

def Layout.slots (l : Layout) : ℕ := l.dataBytes / l.chunk

def m3Layout : Layout where
  size := 4 * 2 ^ 20
  data := 2 * 2 ^ 20
  dataBytes := 2 * 2 ^ 20
  chunk := 256 * 2 ^ 10
  slots_le := by decide
  lists_le := by decide
  data_le := by decide

def adoptLayout : Layout where
  size := 2 ^ 20
  data := 0x10000
  dataBytes := 256 * 2 ^ 10
  chunk := 128 * 2 ^ 10
  slots_le := by decide
  lists_le := by decide
  data_le := by decide

/-! ## Queues -/

inductive QueueId where
  | admin | io
  deriving DecidableEq

def QueueId.number : QueueId → ℕ
  | .admin => 0
  | .io => 1

structure Queue where
  sq : ℕ
  cq : ℕ
  entries : ℕ
  sqDb : ℕ
  cqDb : ℕ
  tail : ℕ := 0
  head : ℕ := 0
  phase : ℕ := 1
  nextCid : ℕ := 1
  outstanding : List ℕ := []

def Queue.new (id : QueueId) (sq cq entries stride bar : ℕ) : Queue where
  sq := sq
  cq := cq
  entries := entries
  sqDb := bar + 0x1000 + 2 * id.number * (4 * 2 ^ stride)
  cqDb := bar + 0x1000 + (2 * id.number + 1) * (4 * 2 ^ stride)

structure Command where
  opcode : ℕ
  cid : ℕ
  nsid : ℕ
  prp1 : ℕ
  prp2 : ℕ
  /-- the command dwords 10 to 15 -/
  cdw : List ℕ
  deriving DecidableEq

/-- `struct.pack('<IIQQQQ6I', …)`. -/
def Command.bytes (c : Command) : List UInt8 :=
  putLe 4 (c.opcode + c.cid * 2 ^ 16) ++ putLe 4 c.nsid ++ putLe 8 0 ++ putLe 8 0 ++
    putLe 8 c.prp1 ++ putLe 8 c.prp2 ++ c.cdw.flatMap (putLe 4)

/-- An unsigned field of so many bytes; anything else does not pack. -/
def pack (bytes : ℕ) (v : Int) : Option ℕ :=
  if 0 ≤ v ∧ v < 256 ^ bytes then some v.toNat else none

def Command.pack (opcode : Int) (cid : ℕ) (nsid prp1 prp2 : Int) (cdw : List Int) :
    Option Command := do
  let opcode ← Nvme.pack 2 opcode
  let nsid ← Nvme.pack 4 nsid
  let prp1 ← Nvme.pack 8 prp1
  let prp2 ← Nvme.pack 8 prp2
  let words ← (cdw ++ List.replicate (6 - cdw.length) 0).mapM (Nvme.pack 4)
  if words.length = 6 then return ⟨opcode, cid, nsid, prp1, prp2, words⟩ else none

/-! ## The host's side -/

/-- What an access through the proxy comes to. A failed write may have reached memory with its
first bytes. -/
inductive Answer where
  | value (v : ℕ)
  | bytes (bs : List UInt8)
  | raises (written : ℕ)

/-- An entry the host puts into a submission queue, with the state it does so in and the memory
behind it. -/
structure Placed where
  queue : QueueId
  command : Command
  lbaBytes : Option ℕ
  writeRanges : List (ℕ × ℕ)
  memory : Memory

/-- The controller object. `memory` is what the host has written, `placed` what it has put into
the queues, and `answers` what the proxy is going to answer; a run that needs more is
looked at until then. -/
structure Host where
  layout : Layout
  bar : ℕ
  window : ℕ
  stride : Option ℕ := none
  admin : Option Queue := none
  io : Option Queue := none
  lbaBytes : Option ℕ := none
  nsze : Option ℕ := none
  maxTransfer : Option ℕ := none
  writeRanges : List (ℕ × ℕ) := []
  memory : Memory := fun _ => 0
  placed : List Placed := []
  answers : List Answer

abbrev Call := Cut Host

/-- `raise`, and every operation that raises. -/
def raise {α : Type} : Call α := Cut.stop

def require (condition : Bool) : Call Unit := if condition then pure () else raise

def when (condition : Bool) (x : Call Unit) : Call Unit := if condition then x else pure ()

/-- An attribute that may not be there yet. -/
def field {α : Type} (f : Host → Option α) : Call α := do
  match f (← Cut.get) with
  | some a => pure a
  | none => raise

/-! ## Accesses -/

def ask : Call Answer := do
  match (← Cut.get).answers with
  | [] => raise
  | a :: rest =>
    Cut.modify fun s => { s with answers := rest }
    return a

def r32 (_address : ℕ) : Call ℕ := do
  match ← ask with
  | .value v => return v % 2 ^ 32
  | _ => raise

def r64 (_address : ℕ) : Call ℕ := do
  match ← ask with
  | .value v => return v % 2 ^ 64
  | _ => raise

def w32 (_address _value : ℕ) : Call Unit := do
  match ← ask with
  | .raises _ => raise
  | _ => pure ()

/-- `read` and `read_live`. -/
def read (_address n : ℕ) : Call (List UInt8) := do
  match ← ask with
  | .bytes bs => if bs.length = n then return bs else raise
  | _ => raise

def write (address : ℕ) (data : List UInt8) : Call Unit := do
  match ← ask with
  | .raises written =>
    Cut.modify fun s => { s with memory := s.memory.store address (data.take written) }
    raise
  | _ => Cut.modify fun s => { s with memory := s.memory.store address data }

def civac (address _n : ℕ) : Call Unit := w32 address 0

def zero (address n : ℕ) : Call Unit := do
  write address (List.replicate n 0)
  civac address n

def late : Call Bool := do
  match ← ask with
  | .value v => return v ≠ 0
  | _ => return false

def reg (off : ℕ) : Call ℕ := do r32 ((← Cut.get).bar + off)

def fetch (off n : ℕ) : Call (List UInt8) := do
  civac ((← Cut.get).window + off) n
  read ((← Cut.get).window + off) n

/-! ## Commands -/

def Host.queue (s : Host) : QueueId → Option Queue
  | .admin => s.admin
  | .io => s.io

def Host.setQueue (s : Host) (q : Queue) : QueueId → Host
  | .admin => { s with admin := some q }
  | .io => { s with io := some q }

def setQueue (id : QueueId) (q : Queue) : Call Unit := Cut.modify fun s => s.setQueue q id

def checkAdminCommand (opcode : Int) (cdw : List Int) : Call Unit := do
  require (opcode ∈ adminAllowed)
  if opcode = 0x09 then
    match cdw with
    | [] => raise
    | feature :: _ => require (feature % 2 ^ 8 ∈ setFeaturesAllowed ∧ feature / 2 ^ 31 = 0)

/-- The checks of an I/O command, a method that a subclass replaces. -/
abbrev IoCheck := (opcode nsid prp1 prp2 : Int) → (cdw : List Int) → Call Unit

/-- `Nvme._check_io_command`. -/
def checkIoReadOnly : IoCheck := fun opcode _ _ _ _ => require (opcode ∈ ioAllowed)

def insertCid (cid : ℕ) (outstanding : List ℕ) : List ℕ :=
  if cid ∈ outstanding then outstanding else cid :: outstanding

/-- The last part of `_submit`: write the entry and move the tail. -/
def enqueue (id : QueueId) (q : Queue) (command : Command) : Call ℕ := do
  let address := q.sq + q.tail * 64
  Cut.modify fun s => { s with
    placed := s.placed ++ [⟨id, command, s.lbaBytes, s.writeRanges,
      s.memory.store address command.bytes⟩] }
  write address command.bytes
  civac address 64
  setQueue id { q with
    nextCid := q.nextCid % 0xFFFF + 1
    tail := (q.tail + 1) % q.entries
    outstanding := insertCid q.nextCid q.outstanding }
  return q.nextCid

section

variable (check : IoCheck)

def submit (id : QueueId) (opcode nsid prp1 prp2 : Int) (cdw : List Int) : Call ℕ := do
  let q ← field (·.queue id)
  match id with
  | .admin => checkAdminCommand opcode cdw
  | .io => check opcode nsid prp1 prp2 cdw
  require (q.outstanding.length < q.entries - 1)
  setQueue id { q with nextCid := q.nextCid % 0xFFFF + 1 }
  match Command.pack opcode q.nextCid nsid prp1 prp2 cdw with
  | none => raise
  | some command => enqueue id q command

def ring (id : QueueId) : Call Unit := do
  let q ← field (·.queue id)
  w32 q.sqDb q.tail

structure Completion where
  cid : ℕ
  status : ℕ
  dw0 : ℕ
  dw2 : ℕ

def entryPhase (entry : List UInt8) : ℕ := getLe 4 (entry.drop 12) / 2 ^ 16 % 2

/-- Read an entry until two reads in a row agree. -/
def reread (address : ℕ) : (reads : ℕ) → List UInt8 → Call (List UInt8)
  | 0, _ => raise
  | reads + 1, entry => do
    civac address 16
    let again ← read address 16
    if again = entry then return entry else reread address reads again

/-- The completion entry at the head; an entry that looks new is reread. -/
def headEntry (q : Queue) : Call (List UInt8) := do
  let address := q.cq + q.head * 16
  civac address 16
  let entry ← read address 16
  if entryPhase entry = q.phase then reread address completionReads entry else return entry

/-- One round of the loop of `_reap`: a completion, or nothing yet. -/
def reapRound (id : QueueId) : Call (Option Completion) := do
  let q ← field (·.queue id)
  let entry ← headEntry q
  if entryPhase entry ≠ q.phase then
    if ← late then
      let _ ← reg 0x1C
      raise
    return none
  else
    let dw3 := getLe 4 (entry.drop 12)
    let cid := dw3 % 2 ^ 16
    let head := (q.head + 1) % q.entries
    setQueue id { q with
      outstanding := q.outstanding.filter (· ≠ cid)
      head := head
      phase := if head = 0 then 1 - q.phase else q.phase }
    w32 q.cqDb head
    return some ⟨cid, dw3 / 2 ^ 17 % 2 ^ 15, getLe 4 entry, getLe 4 (entry.drop 8) % 2 ^ 16⟩

/-- The loop of `_reap`. Every round uses answers up, so that it needs no more rounds than there
are answers. -/
def reapFrom (id : QueueId) (cids : List ℕ) : (rounds : ℕ) → List Completion →
    Call (List Completion)
  | 0, _ => raise
  | rounds + 1, done =>
    if cids.all fun c => done.any (·.cid = c) then pure done
    else do
      match ← reapRound id with
      | none => reapFrom id cids rounds done
      | some c => reapFrom id cids rounds (c :: done)

/-- `_reap`. A later completion with the same identifier replaces an earlier one. -/
def reap (id : QueueId) (cids : List ℕ) : Call (List Completion) := do
  let rounds := (← Cut.get).answers.length + 1
  let done ← reapFrom id cids rounds []
  let found := cids.filterMap fun c => done.find? (·.cid = c)
  require (found.all (·.status = 0))
  return found

def adminCmd (opcode nsid prp1 : Int) (cdw : List Int) : Call Completion := do
  let cid ← submit check .admin opcode nsid prp1 0 cdw
  ring .admin
  match ← reap .admin [cid] with
  | c :: _ => return c
  | [] => raise

/-! ## Bring-up -/

def waitFor (rounds : ℕ) (condition : ℕ → Bool) : Call ℕ := do
  let csts ← reg 0x1C
  if condition csts then return csts
  else if ← late then
    let _ ← reg 0x14
    raise
  else
    match rounds with
    | 0 => raise
    | rounds + 1 => waitFor rounds condition

def wait (condition : ℕ → Bool) : Call ℕ := do
  waitFor (← Cut.get).answers.length condition

def shutdownComplete (csts : ℕ) : Bool := csts / 4 % 4 = 2

def notReady (csts : ℕ) : Bool := csts % 2 = 0

def normalShutdown (bar cc : ℕ) : Call Unit := do
  w32 (bar + 0x14) (cc ||| 2 ^ 14)
  let _ ← wait shutdownComplete

def disable (bar : ℕ) : Call Unit := do
  w32 (bar + 0x14) 0
  let _ ← wait notReady

def takeover : Call Unit := do
  let s ← Cut.get
  let cap ← r64 s.bar
  let _ ← reg 0x08
  let _ ← reg 0x14
  let _ ← reg 0x1C
  let _ ← reg 0x24
  let _ ← r64 (s.bar + 0x28)
  let _ ← r64 (s.bar + 0x30)
  let stride := cap / 2 ^ 32 % 16
  Cut.modify fun s => { s with stride := some stride }
  require (2 ^ (12 + cap / 2 ^ 48 % 16) ≤ pageBytes ∧ cap / 2 ^ 37 % 2 = 1 ∧
    ioEntries ≤ cap % 2 ^ 16 + 1)
  let cc ← reg 0x14
  let csts ← reg 0x1C
  when (cc % 2 = 1) do
    when (csts % 2 = 1 ∧ csts / 2 % 2 = 0) (normalShutdown s.bar cc)
    disable s.bar
  zero s.window s.layout.size
  let q := Queue.new .admin (s.window + Layout.asq) (s.window + Layout.acq) adminEntries
    stride s.bar
  setQueue .admin q
  w32 (s.bar + 0x24) ((adminEntries - 1) * 2 ^ 16 + (adminEntries - 1))
  w32 (s.bar + 0x28) (q.sq % 2 ^ 32)
  w32 (s.bar + 0x2C) (q.sq / 2 ^ 32)
  w32 (s.bar + 0x30) (q.cq % 2 ^ 32)
  w32 (s.bar + 0x34) (q.cq / 2 ^ 32)
  w32 (s.bar + 0x14) (4 * 2 ^ 20 + 6 * 2 ^ 16 + 1)
  let csts ← wait fun csts => csts % 4 ≠ 0
  require (csts / 2 % 2 = 0)

/-- `identify`. The power states of a controller fit the page only up to the 64th. -/
def identify : Call Unit := do
  let s ← Cut.get
  let _ ← adminCmd check 0x06 0 (s.window + Layout.ident) [1]
  let c ← fetch Layout.ident pageBytes
  require (getLe 1 (c.drop 263) < 64)
  let mdts := getLe 1 (c.drop 77)
  let limit := if mdts = 0 then s.layout.chunk else min s.layout.chunk (pageBytes * 2 ^ mdts)
  Cut.modify fun s => { s with maxTransfer := some limit }
  let _ ← adminCmd check 0x06 1 (s.window + Layout.ident) [0]
  let n ← fetch Layout.ident pageBytes
  let flbas := getLe 1 (n.drop 26) % 16
  let format := n.drop (128 + 4 * flbas)
  require ((n.drop 120).take 8 = expectEui64)
  require (flbas ≤ getLe 1 (n.drop 25))
  Cut.modify fun s => { s with
    lbaBytes := some (2 ^ getLe 1 (format.drop 2))
    nsze := some (getLe 8 n) }
  require (getLe 2 format = 0)

def features : Call Unit := do
  let s ← Cut.get
  let _ ← adminCmd check 0x0A 0 (s.window + Layout.aux) [0x0C]
  let _ ← adminCmd check 0x02 0xFFFFFFFF (s.window + Layout.aux) [127 * 2 ^ 16 + 2]
  let _ ← fetch Layout.aux 512

def ioQueues : Call Unit := do
  let s ← Cut.get
  let _ ← adminCmd check 0x09 0 0 [0x07, 0]
  let _ ← adminCmd check 0x05 0 (s.window + Layout.iocq) [(ioEntries - 1) * 2 ^ 16 + 1, 1]
  let _ ← adminCmd check 0x01 0 (s.window + Layout.iosq)
    [(ioEntries - 1) * 2 ^ 16 + 1, 2 ^ 16 + 1]
  let stride ← field (·.stride)
  setQueue .io
    (.new .io (s.window + Layout.iosq) (s.window + Layout.iocq) ioEntries stride s.bar)

def deleteIoQueues : Call Unit := do
  if (← Cut.get).io.isNone then return
  let _ ← adminCmd check 0x00 0 0 [1]
  let _ ← adminCmd check 0x04 0 0 [1]
  Cut.modify fun s => { s with io := none }

def shutdown : Call Unit := do
  let s ← Cut.get
  let cc ← reg 0x14
  when (cc % 2 = 1) do
    normalShutdown s.bar cc
    disable s.bar

/-! ## Reads -/

def pagesOf (bytes : ℕ) : ℕ := (bytes + pageBytes - 1) / pageBytes

/-- The entries of a PRP list for the pages behind the first one. -/
def prpEntries (address pages : ℕ) : List UInt8 :=
  (List.range (pages - 1)).flatMap fun i => putLe 8 (address + pageBytes * (i + 1))

/-- `PRP2` for a transfer to or from `address`; a list is written first where it takes one. -/
def writePrps (address list pages : ℕ) : Call ℕ := do
  if pages = 2 then return address + pageBytes
  else if 2 < pages then
    require (address + pageBytes * (pages - 1) < 2 ^ 64)
    write list (prpEntries address pages)
    civac list (8 * (pages - 1))
    return list
  else return 0

def readCmd (slot : ℕ) (lba count : Int) : Call ℕ := do
  let s ← Cut.get
  let lbaBytes ← field (·.lbaBytes)
  let data := s.window + s.layout.data + slot * s.layout.chunk
  let prp2 ← writePrps data (s.window + Layout.prp + slot * pageBytes)
    (pagesOf (count.toNat * lbaBytes))
  submit check .io 0x02 1 data prp2 [lba % 2 ^ 32, lba / 2 ^ 32, count - 1]

/-- The loop of `read`; it takes no more rounds than there are blocks. -/
def readFrom (per : ℕ) : (rounds lba count : ℕ) → List UInt8 → Call (List UInt8)
  | 0, _, _, out => pure out
  | rounds + 1, lba, count, out =>
    if count = 0 then pure out
    else do
      let n := min per count
      let lbaBytes ← field (·.lbaBytes)
      let cid ← readCmd check 0 lba n
      ring .io
      let _ ← reap .io [cid]
      let bs ← fetch (← Cut.get).layout.data (n * lbaBytes)
      readFrom per rounds (lba + n) (count - n) (out ++ bs)

/-- `read`. -/
def readLbas (lba count : Int) : Call (List UInt8) := do
  let nsze ← field (·.nsze)
  require (0 ≤ lba ∧ 0 < count ∧ lba + count ≤ nsze)
  let maxTransfer ← field (·.maxTransfer)
  let lbaBytes ← field (·.lbaBytes)
  readFrom check (maxTransfer / lbaBytes) count.toNat lba.toNat count.toNat []

/-- The commands of one round of `timed`: their identifiers, and the blocks that are left. -/
def timedSlots (per : ℕ) : List ℕ → (lba left : Int) → Call (List ℕ × Int × Int)
  | [], lba, left => pure ([], lba, left)
  | slot :: slots, lba, left =>
    if left = 0 then pure ([], lba, left)
    else do
      let n := min (per : Int) left
      let cid ← readCmd check slot lba n
      let (cids, lba, left) ← timedSlots per slots (lba + n) (left - n)
      return (cid :: cids, lba, left)

def timedFrom (per slots : ℕ) : (rounds : ℕ) → (lba left : Int) → Call Unit
  | 0, _, _ => raise
  | rounds + 1, lba, left =>
    if left = 0 then pure ()
    else do
      let (cids, lba, left) ← timedSlots check per (List.range slots) lba left
      ring .io
      let _ ← reap .io cids
      timedFrom per slots rounds lba left

/-- `timed`. Every round rings a doorbell, so that it needs no more than there are answers. -/
def timed (lba totalBytes : Int) : Call Unit := do
  let s ← Cut.get
  let maxTransfer ← field (·.maxTransfer)
  let lbaBytes ← field (·.lbaBytes)
  timedFrom check (maxTransfer / lbaBytes) s.layout.slots (s.answers.length + 1) lba
    (totalBytes / lbaBytes)

end

end Q1n1.Nvme
