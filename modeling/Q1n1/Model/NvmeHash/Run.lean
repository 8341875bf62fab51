import Q1n1.Library.Cut
import Q1n1.Model.NvmeHash.Sha256

/-! # The disk hash helper

`nvme-hash.c`: up to eight reads in flight, one per data slot of the window, hashed in the
order of their blocks. What the controller and the clock do is a parameter: the platform
answers every poll and may change memory whenever the helper looks. The telemetry values,
which nothing reads, and the cache maintenance are left out. -/

namespace Q1n1.NvmeHash

open Bytes

def magic : ℕ := 0x31485341484d564e
def page : ℕ := 4096
def entries : ℕ := 64
def dataOff : ℕ := 0x200000
def prpOff : ℕ := 0x8000
def slotCount : ℕ := 8
def slotBytes : ℕ := 0x40000
def stateOff : ℕ := 0x60000
def telemetryOff : ℕ := 0x400
def telemetryBytes : ℕ := 128
def recordBytes : ℕ := 296
def overlayBytes : ℕ := 24

/-- `struct work`, of 64-bit words and the hash in progress. -/
structure Work where
  magic : ℕ
  bar : ℕ
  window : ℕ
  firstLba : ℕ
  blocks : ℕ
  lbaBytes : ℕ
  maxTransfer : ℕ
  nsze : ℕ
  tail : ℕ
  head : ℕ
  phase : ℕ
  nextCid : ℕ
  stride : ℕ
  ioEntries : ℕ
  status : ℕ
  doneBlocks : ℕ
  lastCompletion : ℕ
  commands : ℕ
  overlayTable : ℕ
  overlayCount : ℕ
  sha : State
  digest : List UInt8

structure Overlay where
  diskByte : ℕ
  source : ℕ
  length : ℕ
deriving DecidableEq

structure Slot where
  lba : ℕ := 0
  count : ℕ := 0
  cid : ℕ := 0
  busy : Bool := false
  done : Bool := false
deriving DecidableEq

structure Command where
  opcode : ℕ
  cid : ℕ
  nsid : ℕ
  prp1 : ℕ
  prp2 : ℕ
  slba : ℕ
  nlb : ℕ
deriving DecidableEq

def Command.bytes (c : Command) : List UInt8 :=
  putLe 4 (c.opcode ||| c.cid <<< 16) ++ putLe 4 c.nsid ++ List.replicate 16 0 ++
    putLe 8 c.prp1 ++ putLe 8 c.prp2 ++ putLe 8 c.slba ++ putLe 4 c.nlb ++ List.replicate 12 0

/-- What the helper does outside its record: stores, reads of overlay bytes, and commands
with every data pointer they give the controller. -/
inductive Access where
  | store (address size : ℕ)
  | overlay (address size : ℕ)
  | command (command : Command) (pointers : List ℕ)
deriving DecidableEq

/-- The controller, the clock and the processor the helper runs on. -/
structure Platform (ε : Type) where
  /-- What has happened to the world and to memory by the time of a look at it. -/
  act : ε → Memory → ε × Memory
  /-- A doorbell store of a value. -/
  ring : ε → Memory → (address value : ℕ) → ε
  csts : ε → ℕ
  /-- Whether the deadline has passed. -/
  late : ε → Bool
  currentEl : ℕ
  isar0 : ℕ
  pfr0 : ℕ
  hcr : ℕ
  cptr : ℕ
  /-- What the vector registers hold. -/
  vectors : Arm.Regs

/-- The record, the local variables and what is around them. The record and the overlay table
are kept beside memory: neither is where the helper or the controller stores. -/
structure Machine (ε : Type) where
  /-- The address of the record. -/
  record : ℕ
  w : Work
  table : ℕ → Overlay
  slots : ℕ → Slot := fun _ => {}
  memory : Memory
  world : ε
  accesses : List Access := []

abbrev Run (ε : Type) := Cut (Machine ε)

/-! ## Accesses -/

variable {ε : Type}

def when (c : Prop) [Decidable c] (x : Run ε Unit) : Run ε Unit := if c then x else pure ()

def look (P : Platform ε) : Run ε Unit :=
  Cut.modify fun m =>
    { m with world := (P.act m.world m.memory).1, memory := (P.act m.world m.memory).2 }

def note (a : Access) : Run ε Unit := Cut.modify fun m => { m with accesses := m.accesses ++ [a] }

def store (address : ℕ) (bytes : List UInt8) : Run ε Unit := do
  note (.store address bytes.length)
  Cut.modify fun m => { m with memory := m.memory.store address bytes }

def load32 (P : Platform ε) (address : ℕ) : Run ε ℕ := do
  look P
  return getLe 4 ((← Cut.get).memory.load (address % 2 ^ 64) 4)

def store32 (P : Platform ε) (address value : ℕ) : Run ε Unit := do
  note (.store address 4)
  Cut.modify fun m => { m with world := P.ring m.world m.memory address value }

def setWork (f : Work → Work) : Run ε Unit := Cut.modify fun m => { m with w := f m.w }

def setSlot (i : ℕ) (f : Slot → Slot) : Run ε Unit :=
  Cut.modify fun m => { m with slots := Function.update m.slots i (f (m.slots i)) }

/-- `sha2_path(…) == PATH_SHA2`. The self test hashes one known block. -/
def sha2Path (P : Platform ε) : Bool :=
  let noSha2 := P.isar0 / 2 ^ 12 % 16 = 0
  let noSimd := P.pfr0 / 2 ^ 20 % 16 = 15 ∨ P.pfr0 / 2 ^ 16 % 16 = 15
  let trapped :=
    if P.hcr / 2 ^ 34 % 2 = 1 then P.cptr / 2 ^ 20 % 2 = 0 else P.cptr / 2 ^ 10 % 2 = 1
  let abcBlock := [0x61, 0x62, 0x63, 0x80] ++ List.replicate 59 0 ++ [24]
  let iv := (init ⟨⟨0, 0, 0, 0, 0, 0, 0, 0⟩, 0, fun _ => 0⟩).h
  decide (¬noSha2 ∧ ¬noSimd ∧ P.currentEl = 2 ∧ ¬trapped ∧
    sha2Blocks P.vectors iv abcBlock 1 = ⟨0xba7816bf, 0x8f01cfea, 0x414140de, 0x5dae2223,
      0xb00361a3, 0x96177a9c, 0xb410ff61, 0xf20015ad⟩)

/-! ## Overlays -/

/-- The size of the disk, as the checks compute it. -/
def Work.diskBytes (w : Work) : ℕ := w.nsze * w.lbaBytes % 2 ^ 64

/-- One entry's check of `overlays_valid`. -/
def overlayValid (w : Work) (o : Overlay) : Bool :=
  !(o.length == 0 || o.length > 0x100000 || o.source < (w.window + 0x70000) % 2 ^ 64 ||
    (o.source + o.length) % 2 ^ 64 > (w.window + 0x170000) % 2 ^ 64 ||
    o.diskByte > w.diskBytes || o.length > w.diskBytes - o.diskByte)

def overlaysValid (w : Work) (table : ℕ → Overlay) : Bool :=
  (List.range w.overlayCount).all fun i => overlayValid w (table i)

def copyBytes (m : Memory) (dest src : ℕ) : ℕ → Memory
  | 0 => m
  | n + 1 =>
    let m := copyBytes m dest src n
    m.store (dest + n) [m (src + n)]

def applyOverlay (lba data size : ℕ) (o : Overlay) : Run ε Unit := do
  let w := (← Cut.get).w
  let begin := lba * w.lbaBytes % 2 ^ 64
  let fin := (begin + size) % 2 ^ 64
  let lo := if begin > o.diskByte then begin else o.diskByte
  let top := (o.diskByte + o.length) % 2 ^ 64
  let hi := if fin < top then fin else top
  if lo < hi then
    let dest := (data + (lo - begin)) % 2 ^ 64
    let src := (o.source + (lo - o.diskByte)) % 2 ^ 64
    note (.overlay src (hi - lo))
    note (.store dest (hi - lo))
    Cut.modify fun m => { m with memory := copyBytes m.memory dest src (hi - lo) }
  else pure ()

def applyOverlaysFrom (lba data size : ℕ) : ℕ → ℕ → Run ε Unit
  | 0, _ => pure ()
  | n + 1, i => do
    applyOverlay lba data size ((← Cut.get).table i)
    applyOverlaysFrom lba data size n (i + 1)

def applyOverlays (lba data size : ℕ) : Run ε Unit := do
  applyOverlaysFrom lba data size (← Cut.get).w.overlayCount 0

/-! ## Reads -/

def slotData (w : Work) (slot : ℕ) : ℕ := (w.window + dataOff + slot * slotBytes) % 2 ^ 64

def pagePointers (data pages : ℕ) : List ℕ :=
  (List.range (pages - 1)).map fun i => (data + page * (i + 1)) % 2 ^ 64

def submit (P : Platform ε) (slot sqDb : ℕ) : Run ε Unit := do
  let m ← Cut.get
  let s := m.slots slot
  let data := slotData m.w slot
  let size := s.count * m.w.lbaBytes
  let pages := (size + page - 1) / page
  let list := (m.w.window + prpOff + slot * page) % 2 ^ 64
  let prp2 := if pages = 2 then (data + page) % 2 ^ 64 else if pages > 2 then list else 0
  when (pages > 2) (store list ((pagePointers data pages).flatMap (putLe 8)))
  let sq := (m.w.window + 0x2000 + m.w.tail * 64) % 2 ^ 64
  let cid := m.w.nextCid % 2 ^ 32
  let command : Command := ⟨0x02, cid, 1, data, prp2, s.lba, (s.count - 1) % 2 ^ 32⟩
  store sq command.bytes
  note (.command command (data :: pagePointers data pages))
  setSlot slot fun s => { s with cid := cid, busy := true, done := false }
  setWork fun w => { w with
    tail := (w.tail + 1) % entries
    nextCid := w.nextCid % 65535 + 1 }
  store32 P sqDb (← Cut.get).w.tail

def findSlot (slots : ℕ → Slot) (cid : ℕ) : Option ℕ :=
  (List.range slotCount).reverse.find? fun i =>
    (slots i).busy && !(slots i).done && (slots i).cid == cid

/-- `reap`: 0 none yet, 1 one consumed, else the status. -/
def reap (P : Platform ε) (cqDb : ℕ) : Run ε ℕ := do
  let w := (← Cut.get).w
  let cq := (w.window + 0x3000 + w.head * 16) % 2 ^ 64
  let dw3 ← load32 P (cq + 12)
  if dw3 / 2 ^ 16 % 2 ≠ w.phase then
    look P
    return if P.csts (← Cut.get).world / 2 % 2 = 1 then 2 else 0
  else
    setWork fun w => { w with lastCompletion := dw3 }
    match findSlot (← Cut.get).slots (dw3 % 2 ^ 16) with
    | none => return 4
    | some i =>
      if (← load32 P (cq + 8)) / 2 ^ 16 ≠ 1 then return 4
      else
        let head := (w.head + 1) % entries
        setWork fun w => { w with
          head := head
          phase := if head = 0 then w.phase ^^^ 1 else w.phase }
        store32 P cqDb head
        if dw3 / 2 ^ 17 ≠ 0 then return 5
        else
          setSlot i fun s => { s with done := true }
          return 1

/-- `while (!s->done)`; the platform ends the run when it has nothing more to show. -/
def await (P : Platform ε) (slot cqDb : ℕ) : ℕ → Run ε ℕ
  | 0 => Cut.stop
  | fuel + 1 => do
    if ((← Cut.get).slots slot).done then return 0
    else
      let result ← reap P cqDb
      if result > 1 then return result
      else if result = 0 then
        look P
        if P.late (← Cut.get).world then return 3 else await P slot cqDb fuel
      else await P slot cqDb fuel

/-! ## The call -/

def Work.per (w : Work) : ℕ := w.maxTransfer / w.lbaBytes

/-- Read ahead into every free slot; at most `n` reads. -/
def readAhead (P : Platform ε) (total hashed sqDb : ℕ) : ℕ → ℕ → Run ε ℕ
  | 0, submitted => pure submitted
  | n + 1, submitted => do
    if submitted < total ∧ submitted - hashed < slotCount then
      let w := (← Cut.get).w
      let done := submitted * w.per
      setSlot (submitted % slotCount) fun s => { s with
        lba := (w.firstLba + done) % 2 ^ 64
        count := if w.blocks - done < w.per then w.blocks - done else w.per }
      submit P (submitted % slotCount) sqDb
      readAhead P total hashed sqDb n (submitted + 1)
    else pure submitted

def hashSlot (P : Platform ε) (sha2 : Bool) (slot : ℕ) : Run ε Unit := do
  let m ← Cut.get
  let s := m.slots slot
  let data := slotData m.w slot
  let size := s.count * m.w.lbaBytes
  look P
  applyOverlays s.lba data size
  let bytes := (← Cut.get).memory.load data size
  setWork fun w => { w with sha := shaUpdate P.vectors w.sha bytes sha2 }
  setSlot slot fun s => { s with busy := false }
  setWork fun w => { w with
    doneBlocks := w.doneBlocks + s.count
    commands := (w.commands + 1) % 2 ^ 64 }

/-- The loop over the transfers from `hashed` on, `n` of them; the status. -/
def hashLoop (P : Platform ε) (sha2 : Bool) (total sqDb cqDb fuel : ℕ) :
    ℕ → (hashed submitted : ℕ) → Run ε ℕ
  | 0, _, _ => pure 0
  | n + 1, hashed, submitted => do
    let submitted ← readAhead P total hashed sqDb slotCount submitted
    let status ← await P (hashed % slotCount) cqDb fuel
    if status ≠ 0 then return status
    else
      hashSlot P sha2 (hashed % slotCount)
      hashLoop P sha2 total sqDb cqDb fuel n (hashed + 1) submitted

/-- The checks on the record. -/
def Work.valid (w : Work) : Bool :=
  !(w.magic != NvmeHash.magic || w.ioEntries != entries || w.stride > 15 ||
    w.tail ≥ entries || w.head ≥ entries || w.phase > 1 ||
    w.nextCid == 0 || w.nextCid > 65535 || w.bar == 0 || w.bar % 4096 != 0 ||
    w.window == 0 || w.window % 65536 != 0 ||
    (w.lbaBytes != 512 && w.lbaBytes != 4096) ||
    w.maxTransfer == 0 || w.maxTransfer > 262144 ||
    w.maxTransfer % w.lbaBytes != 0 || w.firstLba > w.nsze ||
    w.blocks > w.nsze - w.firstLba ||
    w.blocks > 64 * 2 ^ 20 / w.lbaBytes || w.overlayCount > 256 ||
    (w.overlayCount != 0 && w.overlayTable != (w.window + 0x61000) % 2 ^ 64))

def Work.sqDb (w : Work) : ℕ := (w.bar + 0x1000 + 2 * (4 * 2 ^ w.stride)) % 2 ^ 64
def Work.cqDb (w : Work) : ℕ := (w.bar + 0x1000 + 3 * (4 * 2 ^ w.stride)) % 2 ^ 64

def finish (status : ℕ) (final : Bool) : Run ε ℕ := do
  when (status = 0 ∧ final) (setWork fun w => { w with
    sha := (NvmeHash.final w.sha).1
    digest := (NvmeHash.final w.sha).2 })
  setWork fun w => { w with status := status }
  let m ← Cut.get
  when (m.record = (m.w.window + stateOff) % 2 ^ 64)
    (note (.store ((m.record + telemetryOff) % 2 ^ 64) telemetryBytes))
  return status

/-- `nvme_hash_run`. Each wait looks at most `fuel` times; a run that needs more is cut. -/
def nvmeHashRun (P : Platform ε) (fuel : ℕ) (reset final : Bool) : Run ε ℕ := do
  setWork fun w => { w with status := 1, doneBlocks := 0 }
  let m ← Cut.get
  let w := m.w
  if !w.valid then return 1
  else if w.blocks ≠ 0 ∧ !overlaysValid w m.table then finish 6 final
  else
    when reset (setWork fun w => { w with sha := init w.sha })
    Cut.modify fun m => { m with slots := fun i => { m.slots i with busy := false, done := false } }
    let total := (w.blocks + w.per - 1) / w.per
    let status ← hashLoop P (sha2Path P) total w.sqDb w.cqDb fuel total 0 0
    finish status final

end Q1n1.NvmeHash
