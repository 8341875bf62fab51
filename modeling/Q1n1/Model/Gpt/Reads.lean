import Q1n1.Model.Gpt.Survey

/-! # The reads of a survey

`survey_disk` with the calls of `read_blocks` that it makes, and `copy_path`. -/

namespace Q1n1.Gpt

open Bytes

def pathTruncated : ℕ := 64
def nvmePath : ℕ := 128

/-- The loop of `copy_path` over the nodes at `path`: what was copied, and the flags. -/
def copyPathFrom (path : ℕ → UInt8) : ℕ → List UInt8 → ℕ → List UInt8 × ℕ
  | 0, out, flags => (out, flags ||| pathTruncated)
  | n + 1, out, flags =>
    let node i := path (out.length + i)
    let length := getLe 2 [node 2, node 3]
    if length < 4 ∨ pathBytes < out.length + length then (out, flags ||| pathTruncated)
    else
      let flags := if node 0 = 3 ∧ node 1 = 0x17 then flags ||| nvmePath else flags
      let out := out ++ (List.range length).map node
      if node 0 = 0x7f ∧ node 1 = 0xff then (out, flags) else copyPathFrom path n out flags

/-- The places of a record that blocks are copied to. -/
inductive Target where
  | lba0
  | header (c : Copy)
  | array (c : Copy)
deriving DecidableEq

def Target.capacity : Target → ℕ
  | .array _ => arrayBytes
  | _ => blockBytes

/-- The flag that says that the place is filled. -/
def Target.flag : Target → ℕ
  | .lba0 => haveLba0
  | .header c => c.flags.1
  | .array c => c.flags.2.1

def Disk.at (d : Disk) : Target → List UInt8
  | .lba0 => d.lba0
  | .header c => d.block c
  | .array c => d.array c

def Disk.put (d : Disk) (data : List UInt8) : Target → Disk
  | .lba0 => { d with lba0 := data }
  | .header c => d.withBlock c data
  | .array c => d.withArray c data

/-- The checks of `read_range`. -/
def Disk.Refuses (d : Disk) (lba bytes : ℕ) (t : Target) : Prop :=
  5 ≤ d.reads ∨ bytes = 0 ∨ t.capacity < bytes ∨ arrayBytes < bytes ∨ bytes % d.blockSize ≠ 0 ∨
    d.lastBlock < lba ∨ d.lastBlock - lba < bytes / d.blockSize - 1

instance (d : Disk) (lba bytes : ℕ) (t : Target) : Decidable (d.Refuses lba bytes t) :=
  inferInstanceAs (Decidable (_ ∨ _))

/-- A call of `read_blocks`, and the place it is for. -/
structure Issued where
  lba : ℕ
  bytes : ℕ
  target : Target
  answer : Except ℕ (List UInt8)

structure Survey where
  disk : Disk
  path : List UInt8
  issued : List Issued := []

namespace Survey

variable (io : BlockIo)

/-- `read_range`, and the flag for what it has read. -/
def read (lba bytes : ℕ) (t : Target) : EStateM ℕ Survey Unit := fun s =>
  let d := s.disk
  if d.Refuses lba bytes t then .error invalidParameter s
  else
    let answer := io.read lba bytes
    let d := { d with reads := d.reads + 1 }
    let issued := s.issued ++ [⟨lba, bytes, t, answer⟩]
    match answer with
    | .error status => .error status { s with disk := d, issued }
    | .ok data => .ok () { s with disk := (d.put data t).withFlag t.flag, issued }

def array (c : Copy) : EStateM ℕ Survey Unit := fun s =>
  let d := s.disk
  match arrayExtent (d.block c) d.blockSize d.lastBlock c.flags.2.2 with
  | .error flag => .ok () { s with disk := d.withFlag flag }
  | .ok (lba, bytes) =>
    read io lba bytes (.array c) { s with disk := d.put (List.replicate bytes 0) (.array c) }

def reads (blockSize lastBlock : ℕ) : EStateM ℕ Survey Unit := do
  read io 0 blockSize .lba0
  read io 1 blockSize (.header .primary)
  array io .primary
  read io lastBlock blockSize (.header .backup)
  array io .backup

/-- `survey_disk`; the device path is there or not. -/
def run (blockSize lastBlock : ℕ) (path : Option (ℕ → UInt8)) : Survey :=
  let (kept, flags) := path.elim ([], 0) fun path => copyPathFrom path 64 [] 0
  let zeros := List.replicate blockSize 0
  let disk : Disk :=
    { status := 0, flags, blockSize, lastBlock, reads := 0, lba0 := zeros, primary := zeros,
      backup := zeros, primaryArray := [], backupArray := [] }
  match reads io blockSize lastBlock { disk, path := kept } with
  | .error status s => { s with disk := { s.disk with status } }
  | .ok _ s => s

end Survey

end Q1n1.Gpt
