import Mathlib.Data.List.MinMax
import Q1n1.Model.Nvme.Writable

/-! # The window updater

`tools/nvme_window.py`: `package`, and `run` in the modes that check, apply and restore. The
disk is its bytes. A device command is either done or not, and the updater may stop before
any of them; reads do not change the disk, so that a sequence of reads counts as one command.
SHA-256 and the decoding of the GPT are parameters, and the native hash stands for the
SHA-256 of what it reads. JSON texts appear with what they decode to. -/

namespace Q1n1.Window

open Nvme (checkRanges inRanges)

def mib : ℕ := 2 ^ 20
def headerBytes : ℕ := 4096

/-! ## Packages -/

structure Extent (D : Type) where
  containerOffset : ℕ
  bytes : ℕ
  packOffset : ℕ
  beforeSha : D
  afterSha : D

/-- A GPT entry; GUIDs without case and braces. -/
structure Partition where
  guid : ℕ
  type : ℕ
  offset : ℕ
  bytes : ℕ

structure Manifest (D : Type) where
  schemaKnown : Bool
  blockBytes : ℕ
  payloadBytes : ℕ
  beforePack : D
  afterPack : D
  extents : List (Extent D)
  containerBytes : ℕ
  containerBefore : D
  containerAfter : D
  diskBytes : ℕ
  diskGuid : ℕ
  diskId : ℕ
  partition : Partition
  headerOffset : ℕ
  containerOffset : ℕ
  iscOffset : ℕ
  iscImage : ℕ
  iscRegion : ℕ
  isc : D
  iscZeroTail : D

/-- The files of a package, and the fields of `package.json`. -/
structure Files (D : Type) where
  packageJson : List UInt8
  packagedLocalOnly : Bool
  manifestSha : D
  headerBeforeSha : D
  headerAfterSha : D
  extentCount : ℕ
  manifestJson : List UInt8
  manifest : Manifest D
  before : List UInt8
  after : List UInt8
  headerBefore : List UInt8
  headerAfter : List UInt8

section

variable {D : Type} [DecidableEq D] (sha256 : List UInt8 → D)

def slice (data : List UInt8) (offset n : ℕ) : List UInt8 := (data.drop offset).take n

def checkExtents (containerBytes : ℕ) (before after : List UInt8) :
    (packed end_ : ℕ) → List (Extent D) → Option ℕ
  | packed, _, [] => some packed
  | packed, end_, e :: rest =>
    if end_ ≤ e.containerOffset ∧ 0 < e.bytes ∧ e.containerOffset % 4096 = 0 ∧
        e.bytes % 4096 = 0 ∧ e.containerOffset + e.bytes ≤ containerBytes ∧
        e.packOffset = packed ∧ sha256 (slice before e.packOffset e.bytes) = e.beforeSha ∧
        sha256 (slice after e.packOffset e.bytes) = e.afterSha then
      checkExtents containerBytes before after (packed + e.bytes)
        (e.containerOffset + e.bytes) rest
    else none

/-- `package`: whether the files are accepted under the digest given for `package.json`. -/
def package (pin : D) (f : Files D) : Bool :=
  let m := f.manifest
  sha256 f.packageJson = pin ∧ f.packagedLocalOnly ∧ sha256 f.manifestJson = f.manifestSha ∧
    (m.schemaKnown ∧ m.blockBytes = 4096) ∧
    (0 < f.before.length ∧ f.before.length = f.after.length ∧
      f.after.length = m.payloadBytes ∧ m.payloadBytes ≤ 64 * mib) ∧
    (sha256 f.before = m.beforePack ∧ sha256 f.after = m.afterPack) ∧
    (f.headerBefore.length = f.headerAfter.length ∧ f.headerAfter.length = 4096 ∧
      sha256 f.headerBefore = f.headerBeforeSha ∧ sha256 f.headerAfter = f.headerAfterSha) ∧
    (checkExtents sha256 m.containerBytes f.before f.after 0 0 m.extents = some f.before.length ∧
      m.extents.length = f.extentCount)

end

/-! ## The device -/

structure Gpt where
  valid : Bool
  diskGuid : ℕ
  partitions : List Partition

/-- The namespace as Identify shows it. A transfer is a power of two of at least one page. -/
structure Target where
  lbaBytes : ℕ
  nsze : ℕ
  maxTransfer : ℕ
  id : ℕ
  readGpt : Memory → Gpt
  transfer : ∃ k, 12 ≤ k ∧ maxTransfer = 2 ^ k

/-- The disk, how many commands are still carried out, and the enabled ranges. -/
structure Device where
  disk : Memory
  left : ℕ
  writeRanges : List (ℕ × ℕ) := []

abbrev Op := Cut Device

def require (condition : Bool) : Op Unit := if condition then pure () else Cut.stop

def command (f : Memory → Memory) : Op Unit := do
  match (← Cut.get).left with
  | 0 => Cut.stop
  | left + 1 => Cut.modify fun s => { s with disk := f s.disk, left := left }

section

variable (t : Target)

def nvRead (lba count : ℕ) : Op (List UInt8) := do
  require (0 < count ∧ lba + count ≤ t.nsze)
  command id
  return (← Cut.get).disk.load (lba * t.lbaBytes) (count * t.lbaBytes)

def read (absolute size : ℕ) : Op (List UInt8) := do
  require (absolute % t.lbaBytes = 0 ∧ size % t.lbaBytes = 0)
  nvRead t (absolute / t.lbaBytes) (size / t.lbaBytes)

def writeBlocks : (lba : ℕ) → List (List UInt8) → Op Unit
  | _, [] => pure ()
  | lba, piece :: rest => do
    command fun disk => disk.store (lba * t.lbaBytes) piece
    writeBlocks (lba + piece.length / t.lbaBytes) rest

def nvWrite (lba : ℕ) (data : List UInt8) : Op Unit := do
  require (data ≠ [] ∧ data.length % t.lbaBytes = 0)
  require (inRanges (← Cut.get).writeRanges lba (data.length / t.lbaBytes : ℕ))
  writeBlocks t lba (Bytes.slices (min t.maxTransfer (65536 * t.lbaBytes)) data)

def write (absolute : ℕ) (data : List UInt8) : Op Unit := do
  require (absolute % t.lbaBytes = 0)
  nvWrite t (absolute / t.lbaBytes) data

def flush : Op Unit := do
  require ((← Cut.get).writeRanges ≠ [])
  command id

def enableWrites (ranges : List (ℕ × ℕ)) : Op Unit := do
  require (t.nsze ≠ 0 ∧ t.lbaBytes ≠ 0)
  match checkRanges t.nsze (ranges.map fun (first, count) => (.int first, .int count)) with
  | none => Cut.stop
  | some checked => Cut.modify fun s => { s with writeRanges := checked }

def applyOverlays (disk : Memory) (overlays : List (ℕ × List UInt8)) : Memory :=
  overlays.foldl (fun disk (absolute, data) => disk.store absolute data) disk

end

section

variable {D : Type} [DecidableEq D] (sha256 : List UInt8 → D) (t : Target)

def nativeHash (lba count : ℕ) (overlays : List (ℕ × List UInt8)) : Op D := do
  require (0 < count ∧ lba + count ≤ t.nsze)
  require (overlays.length ≤ 256 ∧ (overlays.map fun o => o.2.length).sum ≤ 2 ^ 20)
  require (overlays.all fun o => o.2 ≠ [] ∧ o.1 + o.2.length ≤ t.nsze * t.lbaBytes)
  command id
  let disk := applyOverlays (← Cut.get).disk overlays
  return sha256 (disk.load (lba * t.lbaBytes) (count * t.lbaBytes))

def hashRange (absolute size : ℕ) (overlays : List (ℕ × List UInt8)) : Op D := do
  require (absolute % t.lbaBytes = 0 ∧ size % t.lbaBytes = 0)
  nativeHash sha256 t (absolute / t.lbaBytes) (size / t.lbaBytes) overlays

/-! ## The run -/

inductive Mode where
  | check | apply | restore
  deriving DecidableEq

variable (f : Files D)

def headerAt : ℕ := f.manifest.partition.offset + f.manifest.headerOffset
def containerAt : ℕ := f.manifest.partition.offset + f.manifest.containerOffset
def iscAt : ℕ := f.manifest.partition.offset + f.manifest.iscOffset

/-- What an extent is to hold, with its place on the disk. -/
def overlaysOf (data : List UInt8) : List (ℕ × List UInt8) :=
  f.manifest.extents.map fun e =>
    (containerAt f + e.containerOffset, slice data e.packOffset e.bytes)

def neighbours (partitions : List Partition) (part : Partition) :
    Option (Partition × Partition) := do
  let left ← (partitions.filter fun v => v.offset + v.bytes ≤ part.offset).argmax (·.offset)
  let right ← (partitions.filter fun v => part.offset + part.bytes ≤ v.offset).argmin (·.offset)
  return (left, right)

/-- Find the partition of the package on the disk, and the regions at its edges. -/
def locate : Op (List (ℕ × ℕ)) := do
  let m := f.manifest
  require ((t.lbaBytes = 512 ∨ t.lbaBytes = 4096) ∧ t.nsze * t.lbaBytes = m.diskBytes)
  require (t.id = m.diskId)
  command id
  let gpt := t.readGpt (← Cut.get).disk
  require (gpt.valid ∧ gpt.diskGuid = m.diskGuid)
  require (gpt.partitions.length = 19)
  match gpt.partitions.filter (·.guid = m.partition.guid) with
  | [part] =>
    require (part.offset = m.partition.offset ∧ part.bytes = m.partition.bytes ∧
      part.type = m.partition.type)
    require (m.headerOffset = 524288 ∧ m.containerOffset = 537919488 ∧
      containerAt f + m.containerBytes + mib < part.offset + part.bytes)
    match neighbours gpt.partitions part with
    | some (left, right) =>
      require (mib ≤ t.nsze * t.lbaBytes ∧ mib ≤ left.offset + left.bytes)
      return [(0, mib), (t.nsze * t.lbaBytes - mib, mib),
        (left.offset + left.bytes - mib, mib), (right.offset, mib)]
    | none => Cut.stop
  | _ => Cut.stop

def edges : List (ℕ × ℕ) → Op (List D)
  | [] => pure []
  | (absolute, size) :: rest => do
    let bytes ← read t absolute size
    return sha256 bytes :: (← edges rest)

def checkIsc : Op Unit := do
  let m := f.manifest
  require ((← hashRange sha256 t (iscAt f) m.iscImage []) = m.isc)
  require (m.iscImage ≤ m.iscRegion)
  require ((← hashRange sha256 t (iscAt f + m.iscImage) (m.iscRegion - m.iscImage) []) =
    m.iscZeroTail)

def acceptedHeaders : Mode → List (List UInt8)
  | .restore => [f.headerBefore, f.headerAfter, List.replicate headerBytes 0]
  | _ => [f.headerBefore]

/-- The data, the digest of the container and the header that a run leaves behind. -/
def goal : Mode → List UInt8 × D × List UInt8
  | .restore => (f.before, f.manifest.containerBefore, f.headerBefore)
  | _ => (f.after, f.manifest.containerAfter, f.headerAfter)

def writeExtents (data : List UInt8) : List (Extent D) → Op Unit
  | [] => pure ()
  | e :: rest => do
    let block := slice data e.packOffset e.bytes
    write t (containerAt f + e.containerOffset) block
    require ((← read t (containerAt f + e.containerOffset) e.bytes) = block)
    writeExtents data rest

/-- Invalidate the header, write the extents, check everything, and publish the header. -/
def update (mode : Mode) (regions : List (ℕ × ℕ)) (originalEdges : List D) : Op Unit := do
  let m := f.manifest
  let (data, wanted, header) := goal f mode
  enableWrites t ((headerAt f / t.lbaBytes, headerBytes / t.lbaBytes) :: m.extents.map fun e =>
    ((containerAt f + e.containerOffset) / t.lbaBytes, e.bytes / t.lbaBytes))
  write t (headerAt f) (List.replicate headerBytes 0)
  flush
  require ((← read t (headerAt f) headerBytes) = List.replicate headerBytes 0)
  writeExtents t f data m.extents
  flush
  require ((← hashRange sha256 t (containerAt f) m.containerBytes []) = wanted)
  checkIsc sha256 t f
  require ((← edges sha256 t regions) = originalEdges)
  write t (headerAt f) header
  flush
  require ((← read t (headerAt f) headerBytes) = header)

def updateIn (regions : List (ℕ × ℕ)) (originalEdges : List D) : Mode → Op Unit
  | .check => pure ()
  | mode => update sha256 t f mode regions originalEdges

/-- `run`, behind `package` and the check of the probe record. -/
def run (mode : Mode) : Op Unit := do
  let m := f.manifest
  let regions ← locate t f
  let originalEdges ← edges sha256 t regions
  require ((← read t (headerAt f) headerBytes) ∈ acceptedHeaders f mode)
  let sample ← read t (containerAt f) (4 * mib)
  require ((← nativeHash sha256 t (containerAt f / t.lbaBytes) (sample.length / t.lbaBytes) []) =
    sha256 sample)
  checkIsc sha256 t f
  let overlays := if mode = .restore then overlaysOf f f.before else []
  require ((← hashRange sha256 t (containerAt f) m.containerBytes overlays) = m.containerBefore)
  updateIn sha256 t f regions originalEdges mode
  Cut.modify fun s => { s with writeRanges := [] }
  require ((← edges sha256 t regions) = originalEdges)

end

end Q1n1.Window
