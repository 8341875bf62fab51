import Mathlib.Data.List.Sort
import Q1n1.Library.Memory
import Q1n1.Model.CallService.Stop

/-! # The GPT survey

`platform/uefi/gpt-survey.c` copies LBA 0, both GPT headers and both entry arrays of a disk into
a record, and `tools/gpt_survey.py` checks and decodes it. -/

namespace Q1n1.Gpt

open Bytes CallService

/-! ## The record -/

def blockBytes : ℕ := 4096
def arrayBytes : ℕ := 65536
def pathBytes : ℕ := 256
def maxDisks : ℕ := 4
def headerWords : ℕ := 25
def diskWords : ℕ := 19

def offPrimary : ℕ := blockBytes
def offBackup : ℕ := 2 * blockBytes
def offPrimaryArray : ℕ := 3 * blockBytes
def offBackupArray : ℕ := 3 * blockBytes + arrayBytes
def offPath : ℕ := 3 * blockBytes + 2 * arrayBytes
def offScalars : ℕ := 3 * blockBytes + 2 * arrayBytes + pathBytes
def offDisks : ℕ := 8 * headerWords
def diskSize : ℕ := offScalars + 8 * diskWords
def recordSize : ℕ := offDisks + maxDisks * diskSize

structure Raw where
  bytes : Memory
  length : ℕ

def Raw.word (raw : Raw) (off : ℕ) : ℕ := getLe 8 (raw.bytes.load off 8)

structure Disk where
  status : ℕ
  flags : ℕ
  blockSize : ℕ
  lastBlock : ℕ
  reads : ℕ
  lba0 : List UInt8
  primary : List UInt8
  backup : List UInt8
  primaryArray : List UInt8
  backupArray : List UInt8

def haveLba0 : ℕ := 1
def havePrimary : ℕ := 2
def havePrimaryArray : ℕ := 4
def haveBackup : ℕ := 8
def haveBackupArray : ℕ := 16
def arrayTooLarge : ℕ := 32
def primaryNotGpt : ℕ := 256
def backupNotGpt : ℕ := 512
def arrayOutOfRange : ℕ := 1024

/-- The words of the record header that `parse_record` compares. -/
def layout : List ℕ :=
  [recordSize, diskSize, maxDisks, 0, offPrimary, offBackup, offPrimaryArray, offBackupArray,
    offPath, offScalars, offDisks]

/-- The disk at `base`, or nothing where its words are implausible. -/
def Raw.disk (raw : Raw) (base : ℕ) : Option Disk :=
  let scalar n := raw.word (base + offScalars + 8 * n)
  let bs := scalar 5
  if bs ∉ [512, 1024, 2048, 4096] ∨ pathBytes < scalar 13 ∨ 5 < scalar 12 then none
  else if arrayBytes < scalar 15 ∨ scalar 15 % bs ≠ 0 then none
  else if arrayBytes < scalar 18 ∨ scalar 18 % bs ≠ 0 then none
  else some {
    status := scalar 0
    flags := scalar 1
    blockSize := bs
    lastBlock := scalar 7
    reads := scalar 12
    lba0 := raw.bytes.load base bs
    primary := raw.bytes.load (base + offPrimary) bs
    backup := raw.bytes.load (base + offBackup) bs
    primaryArray := raw.bytes.load (base + offPrimaryArray) (scalar 15)
    backupArray := raw.bytes.load (base + offBackupArray) (scalar 18) }

def parseRecord (raw : Raw) : Option (List Disk) :=
  let recorded := raw.word (8 * 18)
  if raw.length < offDisks then none
  else if raw.word 0 ≠ 0x31545047314e3151 ∨ raw.word 8 ≠ 1 then none
  else if raw.length ≠ recordSize ∨
      (List.range 11).map (fun n => raw.word (8 * (n + 2))) ≠ layout then
    none
  else if maxDisks < recorded ∨ raw.word (8 * 17) < recorded then none
  else (List.range recorded).mapM fun n => raw.disk (offDisks + n * diskSize)

/-! ## Decoding -/

inductive Copy
  | primary
  | backup
  deriving DecidableEq

/-- The fields compared between the two headers. -/
inductive Field
  | diskGuid
  | firstUsable
  | lastUsable
  | count
  | entrySize
  | arrayCrc
  deriving DecidableEq

inductive Problem
  | notProtectiveMbr
  | noSignature (c : Copy)
  | headerSize (c : Copy) (size : ℕ)
  | headerCrc (c : Copy)
  | entryShape (c : Copy) (size count : ℕ)
  | unavailable (c : Copy)
  | arrayShort (c : Copy) (recorded need : ℕ)
  | arrayCrc (c : Copy)
  | primaryLba (lba : ℕ)
  | primaryAlternate (lba lastBlock : ℕ)
  | primaryUsable
  | backupLbas
  | differ (field : Field)
  | entriesDiffer
  | entryOrder (index : ℕ)
  | entryOutside (index : ℕ)
  | entryDuplicate (index : ℕ)
  | overlap (index next : ℕ)
  | readFailed (status : ℕ)
  | tooLarge
  deriving DecidableEq

structure Header where
  revision : ℕ
  headerSize : ℕ
  headerCrc : ℕ
  myLba : ℕ
  alternateLba : ℕ
  firstUsable : ℕ
  lastUsable : ℕ
  diskGuid : List UInt8
  entriesLba : ℕ
  count : ℕ
  entrySize : ℕ
  arrayCrc : ℕ

def signature : List UInt8 := [0x45, 0x46, 0x49, 0x20, 0x50, 0x41, 0x52, 0x54]

def le (n off : ℕ) (bytes : List UInt8) : ℕ := getLe n (bytes.drop off)

def Header.of (block : List UInt8) : Header where
  revision := le 4 8 block
  headerSize := le 4 12 block
  headerCrc := le 4 16 block
  myLba := le 8 24 block
  alternateLba := le 8 32 block
  firstUsable := le 8 40 block
  lastUsable := le 8 48 block
  diskGuid := (block.drop 56).take 16
  entriesLba := le 8 72 block
  count := le 4 80 block
  entrySize := le 4 84 block
  arrayCrc := le 4 88 block

/-- The header's bytes with its CRC field zero. -/
def unsummed (block : List UInt8) (size : ℕ) : List UInt8 :=
  block.take 16 ++ List.replicate 4 0 ++ (block.take size).drop 20

def header (block : List UInt8) (blockSize : ℕ) (c : Copy) : Option Header × List Problem :=
  if block.take 8 ≠ signature then (none, [.noSignature c])
  else
    let h := Header.of block
    if ¬(92 ≤ h.headerSize ∧ h.headerSize ≤ blockSize) then (some h, [.headerSize c h.headerSize])
    else
      (some h, (if crc32 (unsummed block h.headerSize) = h.headerCrc then [] else [.headerCrc c]) ++
        if h.entrySize < 128 ∨ h.entrySize &&& (h.entrySize - 1) ≠ 0 ∨ h.count = 0 then
          [.entryShape c h.entrySize h.count]
        else [])

/-- The code points of UTF-16 units, a lone surrogate replaced. -/
def utf16 : List ℕ → List ℕ
  | [] => []
  | [u] => [if 0xd800 ≤ u ∧ u < 0xe000 then 0xfffd else u]
  | u :: v :: units =>
    if 0xd800 ≤ u ∧ u < 0xdc00 ∧ 0xdc00 ≤ v ∧ v < 0xe000 then
      (0x10000 + (u - 0xd800) * 0x400 + (v - 0xdc00)) :: utf16 units
    else (if 0xd800 ≤ u ∧ u < 0xe000 then 0xfffd else u) :: utf16 (v :: units)

structure Partition where
  index : ℕ
  type : List UInt8
  guid : List UInt8
  first : ℕ
  last : ℕ
  attributes : ℕ
  name : List ℕ
  deriving DecidableEq

/-- The entry with this index in an array; `none` where it is unused. -/
def partition? (array : List UInt8) (entrySize index : ℕ) : Option Partition :=
  let e := (array.drop (index * entrySize)).take entrySize
  if e.take 16 = List.replicate 16 0 then none
  else some {
    index := index
    type := e.take 16
    guid := (e.drop 16).take 16
    first := le 8 32 e
    last := le 8 40 e
    attributes := le 8 48 e
    name := (utf16 ((List.range 36).map fun i => le 2 (56 + 2 * i) e)).takeWhile (· ≠ 0) }

def partitionsOf (array : List UInt8) (h : Header) : List Partition :=
  (List.range h.count).filterMap (partition? array h.entrySize)

def entries (array : List UInt8) (h : Header) (c : Copy) : Option (List Partition) × List Problem :=
  let need := h.count * h.entrySize
  if array.length < need then (none, [.arrayShort c array.length need])
  else
    (some (partitionsOf array h),
      if crc32 (array.take need) = h.arrayCrc then [] else [.arrayCrc c])

structure Extent where
  first : ℕ
  last : ℕ
  deriving DecidableEq

def gaps (lastUsable : ℕ) : (cursor : ℕ) → List Partition → List Extent
  | cursor, [] => if cursor ≤ lastUsable then [⟨cursor, lastUsable⟩] else []
  | cursor, x :: xs =>
    (if cursor < x.first then [⟨cursor, x.first - 1⟩] else []) ++
      gaps lastUsable (max cursor (x.last + 1)) xs

def mib : ℕ := 2 ^ 20

def Extent.alignedOffset (e : Extent) (blockSize : ℕ) : ℕ :=
  (e.first * blockSize + mib - 1) / mib * mib

def Extent.alignedBytes (e : Extent) (blockSize : ℕ) : ℕ :=
  (e.last + 1) * blockSize / mib * mib - e.alignedOffset blockSize

structure Decoded where
  errors : List Problem
  partitions : List Partition
  unallocated : Option (List Extent)
  deriving DecidableEq

def primaryProblems (lastBlock : ℕ) (p : Header) : List Problem :=
  (if p.myLba ≠ 1 then [.primaryLba p.myLba] else []) ++
  (if p.alternateLba ≠ lastBlock then [.primaryAlternate p.alternateLba lastBlock] else []) ++
  if ¬(2 ≤ p.entriesLba ∧ p.firstUsable ≤ p.lastUsable ∧ p.lastUsable < lastBlock) then
    [.primaryUsable]
  else []

def backupProblems (lastBlock : ℕ) (b : Header) : List Problem :=
  if b.myLba ≠ lastBlock ∨ b.alternateLba ≠ 1 then [.backupLbas] else []

def differences (p b : Header) : List Problem :=
  (if p.diskGuid ≠ b.diskGuid then [.differ .diskGuid] else []) ++
  (if p.firstUsable ≠ b.firstUsable then [.differ .firstUsable] else []) ++
  (if p.lastUsable ≠ b.lastUsable then [.differ .lastUsable] else []) ++
  (if p.count ≠ b.count then [.differ .count] else []) ++
  (if p.entrySize ≠ b.entrySize then [.differ .entrySize] else []) ++
  if p.arrayCrc ≠ b.arrayCrc then [.differ .arrayCrc] else []

def entryProblems (h : Header) : (seen : List (List UInt8)) → List Partition → List Problem
  | _, [] => []
  | seen, x :: xs =>
    (if x.last < x.first then [.entryOrder x.index] else []) ++
    (if x.first < h.firstUsable ∨ h.lastUsable < x.last then [.entryOutside x.index] else []) ++
    (if seen.contains x.guid then [.entryDuplicate x.index] else []) ++
    entryProblems h (x.guid :: seen) xs

def overlaps : List Partition → List Problem
  | a :: c :: xs =>
    (if c.first ≤ a.last then [.overlap a.index c.index] else []) ++ overlaps (c :: xs)
  | _ => []

def sortByFirst (xs : List Partition) : List Partition :=
  xs.insertionSort fun a b => a.first ≤ b.first

def readCopy (block array : List UInt8) (blockSize : ℕ) (c : Copy) :
    Option Header × List Problem × Option (List Partition) × List Problem :=
  let h := if block = [] then (none, []) else header block blockSize c
  let es := match h.1 with
    | some hdr => if array = [] then (none, []) else entries array hdr c
    | none => (none, [])
  (h.1, h.2, es.1, es.2)

def decodeGpt (blockSize lastBlock : ℕ)
    (lba0 primary primaryArray backup backupArray : List UInt8) : Decoded :=
  let p := readCopy primary primaryArray blockSize .primary
  let b := readCopy backup backupArray blockSize .backup
  let parts := sortByFirst (p.2.2.1.getD (b.2.2.1.getD []))
  let hdr := p.1.or b.1
  { errors :=
      (if lba0.length < 512 ∨ (lba0.drop 510).take 2 ≠ [0x55, 0xaa] ∨ lba0.getD 450 0 ≠ 0xee then
        [.notProtectiveMbr] else []) ++
      p.2.1 ++ b.2.1 ++
      (if p.1 = none then [.unavailable .primary] else []) ++
      (if b.1 = none then [.unavailable .backup] else []) ++
      p.2.2.2 ++ b.2.2.2 ++
      p.1.elim [] (primaryProblems lastBlock) ++
      b.1.elim [] (backupProblems lastBlock) ++
      (p.1.elim [] fun p => b.1.elim [] (differences p)) ++
      (p.2.2.1.elim [] fun pp => b.2.2.1.elim [] fun bp =>
        if pp ≠ bp then [.entriesDiffer] else []) ++
      hdr.elim [] (fun h => entryProblems h [] parts ++ overlaps parts)
    partitions := parts
    unallocated := hdr.map fun h => gaps h.lastUsable h.firstUsable parts }

/-- One disk in `decode_record`. -/
def decodeDisk (d : Disk) : Decoded :=
  let decoded := decodeGpt d.blockSize d.lastBlock d.lba0
    (if d.flags &&& havePrimary ≠ 0 then d.primary else []) d.primaryArray
    (if d.flags &&& haveBackup ≠ 0 then d.backup else []) d.backupArray
  { decoded with
    errors := decoded.errors ++ (if d.status ≠ 0 then [.readFailed d.status] else []) ++
      if d.flags &&& arrayTooLarge ≠ 0 then [.tooLarge] else [] }

def decodeRecord (raw : Raw) : Option (List (Disk × Decoded)) :=
  (parseRecord raw).map fun disks => disks.map fun d => (d, decodeDisk d)

/-! ## The firmware side -/

/-- `ReadBlocks` of a disk: the bytes from a block on, or an error status. -/
structure BlockIo where
  read : (lba bytes : ℕ) → Except ℕ (List UInt8)
  length_eq : ∀ lba bytes out, read lba bytes = .ok out → out.length = bytes
  status_ne : ∀ lba bytes status, read lba bytes = .error status → status ≠ 0

def invalidParameter : ℕ := 2 ^ 63 + 2

/-- Where a header says its entry array is, or the flag that says why there is none to read. -/
def arrayExtent (h : List UInt8) (blockSize lastBlock notGpt : ℕ) : Except ℕ (ℕ × ℕ) :=
  let headerSize := le 4 12 h
  let count := le 4 80 h
  let entrySize := le 4 84 h
  let first := le 8 72 h
  let total := count * entrySize
  let rounded := (total + blockSize - 1) / blockSize * blockSize
  if h.take 8 ≠ signature then .error notGpt
  else if headerSize < 92 ∨ blockSize < headerSize ∨ entrySize < 128 ∨ 1024 < entrySize ∨
      entrySize &&& (entrySize - 1) ≠ 0 ∨ count = 0 then
    .error notGpt
  else if arrayBytes < total then .error arrayTooLarge
  else if first < 2 ∨ lastBlock < first ∨ lastBlock - first < rounded / blockSize - 1 then
    .error arrayOutOfRange
  else .ok (first, rounded)

def Disk.block (d : Disk) : Copy → List UInt8
  | .primary => d.primary
  | .backup => d.backup

def Disk.array (d : Disk) : Copy → List UInt8
  | .primary => d.primaryArray
  | .backup => d.backupArray

def Disk.withFlag (d : Disk) (flag : ℕ) : Disk := { d with flags := d.flags ||| flag }

def Disk.withBlock (d : Disk) (c : Copy) (bytes : List UInt8) : Disk :=
  match c with
  | .primary => { d with primary := bytes }
  | .backup => { d with backup := bytes }

def Disk.withArray (d : Disk) (c : Copy) (bytes : List UInt8) : Disk :=
  match c with
  | .primary => { d with primaryArray := bytes }
  | .backup => { d with backupArray := bytes }

/-- The flags of a copy: its header, its array, and that it is no GPT. -/
def Copy.flags : Copy → ℕ × ℕ × ℕ
  | .primary => (havePrimary, havePrimaryArray, primaryNotGpt)
  | .backup => (haveBackup, haveBackupArray, backupNotGpt)

end Q1n1.Gpt
