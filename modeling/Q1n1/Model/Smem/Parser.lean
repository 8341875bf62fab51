import Mathlib.Tactic.Linarith
import Mathlib.Tactic.Ring

/-! # The shared-memory parser (platform/uefi/smem.c)

Shared memory is written by the coprocessors while it is read. A load therefore
returns what the remote lets it return: a `Bus` answers each load from the loads
made before it, and records the load. Offsets are 32-bit as in the source, and
sums that could wrap do so. -/

namespace Q1n1.Smem

def tocBytes : ℕ := 0x1000
def maxPartitions : ℕ := 84
def ptableHeader : ℕ := 32
def ptableEntry : ℕ := 48
def partitionHeader : ℕ := 32
def privateEntry : ℕ := 16
def privateCanary : ℕ := 0xa5a5
def hostApps : ℕ := 0

def fourcc (a b c d : Char) : ℕ := a.toNat + 2 ^ 8 * b.toNat + 2 ^ 16 * c.toNat + 2 ^ 24 * d.toNat

def wrap32 (n : ℕ) : ℕ := n % 2 ^ 32

def u32 (c : ℤ) : ℕ := (c % 2 ^ 32).toNat

inductive Status
  | einval
  | enotready
  | ecorrupt
  | enoent
deriving DecidableEq

/-! ## Loads -/

structure Load where
  address : ℕ
  width : ℕ
deriving DecidableEq

/-- The memory seen through its loads. `loads` and `turns`, the passes begun of
either walk, are bookkeeping that the parser never reads. -/
structure Bus where
  remote : List Load → Load → UInt32
  loads : List Load
  turns : ℕ

abbrev Parse := EStateM Status Bus

/-- A region as `q1n1_smem_init` accepts it: page aligned, with its table in the last page. -/
structure Region where
  base : ℕ
  size : UInt32
  itemCount : UInt16
  ptableOffset : UInt32
  ptableEntries : ℕ
  page_aligned : base % 0x1000 = 0
  table_end : ptableOffset.toNat + tocBytes = size.toNat
  entries_le : ptableEntries ≤ maxPartitions

def load (l : Load) : Parse ℕ := fun b =>
  .ok (b.remote b.loads l).toNat { b with loads := b.loads ++ [l] }

def turn : Parse Unit := fun b => .ok () { b with turns := b.turns + 1 }

def refuseIf (c : Prop) [Decidable c] (status : Status) : Parse Unit :=
  if c then throw status else pure ()

def Region.rd32 (s : Region) (offset : ℕ) : Parse ℕ := load ⟨s.base + offset, 4⟩

def Region.rd16 (s : Region) (offset : ℕ) : Parse ℕ := do
  let value ← load ⟨s.base + offset, 2⟩
  pure (value % 2 ^ 16)

/-! ## The partition table -/

structure Partition where
  index : ℕ
  offset : ℕ
  size : ℕ
  cacheline : ℕ
  host0 : ℕ
  host1 : ℕ
  freeUncached : ℕ
  freeCached : ℕ
deriving DecidableEq

/-- The fields of a table entry, in the order the source lists them. -/
def readEntry (s : Region) (index : ℕ) : Parse Partition := do
  let e := wrap32 (s.ptableOffset.toNat + ptableHeader + index * ptableEntry)
  let offset ← s.rd32 e
  let size ← s.rd32 (wrap32 (e + 4))
  let host0 ← s.rd16 (wrap32 (e + 12))
  let host1 ← s.rd16 (wrap32 (e + 14))
  let cacheline ← s.rd32 (wrap32 (e + 16))
  pure ⟨index, offset, size, cacheline, host0, host1, 0, 0⟩

/-- What `q1n1_smem_table_entry` says of the fields it read. -/
def entryStatus (s : Region) (p : Partition) : Option Status :=
  if p.offset = 0 ∨ p.size = 0 then some .enoent
  else if p.offset % 0x1000 ≠ 0 ∨ p.size < partitionHeader ∨ p.size % 8 ≠ 0 ∨
      p.offset ≥ s.ptableOffset.toNat ∨ p.size > s.ptableOffset.toNat - p.offset then some .ecorrupt
  else none

def accept (p : Partition) : Option Status → Parse Partition
  | none => pure p
  | some status => throw status

def tableEntry (s : Region) (index : ℕ) : Parse Partition := do
  refuseIf (index ≥ s.ptableEntries) .einval
  let p ← readEntry s index
  accept p (entryStatus s p)

def partitionAt (s : Region) (index : ℕ) : Parse Partition := do
  let p ← tableEntry s index
  refuseIf (p.host0 ≠ hostApps ∧ p.host1 ≠ hostApps) .einval
  let h := p.offset
  let magic ← s.rd32 h
  refuseIf (magic ≠ fourcc '$' 'P' 'R' 'T') .ecorrupt
  let host0 ← s.rd16 (wrap32 (h + 4))
  refuseIf (host0 ≠ p.host0) .ecorrupt
  let host1 ← s.rd16 (wrap32 (h + 6))
  refuseIf (host1 ≠ p.host1) .ecorrupt
  let size ← s.rd32 (wrap32 (h + 8))
  refuseIf (size ≠ p.size) .ecorrupt
  let freeUncached ← s.rd32 (wrap32 (h + 12))
  let freeCached ← s.rd32 (wrap32 (h + 16))
  refuseIf (freeUncached < partitionHeader ∨ freeUncached > p.size ∨ freeCached > p.size ∨
    freeCached < freeUncached) .ecorrupt
  pure { p with freeUncached := freeUncached, freeCached := freeCached }

/-! ## Items -/

structure Item where
  offset : ℕ
  size : ℕ
  cached : Bool
deriving DecidableEq

/-- How the upward walk ends: at the item, or where the entries end with what is
left of the budget. -/
inductive Upward
  | found (item : Item)
  | ended (e budget : ℕ)

/-- The upward walk over the uncached entries, from offset `e`. -/
def uncached (s : Region) (p : Partition) (item : ℕ) : (budget e : ℕ) → Parse Upward
  | 0, e => if e < p.freeUncached then throw .ecorrupt else pure (.ended e 0)
  | budget + 1, e =>
    if e < p.freeUncached then do
      turn
      refuseIf (e > wrap32 (p.size + 2 ^ 32 - privateEntry) ∨ e % 4 ≠ 0) .ecorrupt
      let word0 ← s.rd32 (wrap32 (p.offset + e))
      refuseIf (word0 % 2 ^ 16 ≠ privateCanary) .ecorrupt
      let length ← s.rd32 (wrap32 (p.offset + e + 4))
      let pads ← s.rd32 (wrap32 (p.offset + e + 8))
      let padData := pads % 2 ^ 16
      let data := e + privateEntry + pads / 2 ^ 16
      refuseIf (padData > length ∨ data + length > p.freeUncached) .ecorrupt
      if word0 / 2 ^ 16 = item then do
        refuseIf (data % 4 ≠ 0) .ecorrupt
        pure (.found ⟨wrap32 (p.offset + data), length - padData, false⟩)
      else uncached s p item budget (wrap32 (data + length))
    else pure (.ended e (budget + 1))

/-- The slot of a cached entry's header: its 16 bytes rounded up to the cache line. -/
def slotOf (line : ℕ) : ℕ := (privateEntry + line - 1) &&& (0xffffffff ^^^ (line - 1))

/-- The downward walk over the cached entries, whose headers lie above their data. -/
def cached (s : Region) (p : Partition) (item slot : ℕ) : (budget : ℕ) → (c : ℤ) → Parse Item
  | 0, c =>
    if c > p.freeCached then throw .ecorrupt
    else if c + slot ≠ p.freeCached then throw .ecorrupt
    else throw .enoent
  | budget + 1, c =>
    if c > p.freeCached then do
      turn
      refuseIf (c % 4 ≠ 0) .ecorrupt
      let word0 ← s.rd32 (wrap32 (p.offset + u32 c))
      refuseIf (word0 % 2 ^ 16 ≠ privateCanary) .ecorrupt
      let length ← s.rd32 (wrap32 (p.offset + u32 c + 4))
      let pads ← s.rd32 (wrap32 (p.offset + u32 c + 8))
      let padData := pads % 2 ^ 16
      refuseIf (padData > length ∨ length > c - p.freeCached) .ecorrupt
      if word0 / 2 ^ 16 = item then do
        let data := u32 (c - length)
        refuseIf (data % 4 ≠ 0) .ecorrupt
        pure ⟨wrap32 (p.offset + data), length - padData, true⟩
      else cached s p item slot budget (c - length - slot)
    else if c + slot ≠ p.freeCached then throw .ecorrupt
    else throw .enoent

def get (s : Region) (p : Partition) (item : ℕ) : Parse Item := do
  refuseIf (item ≥ s.itemCount.toNat ∨ item > 0xffff) .einval
  match ← uncached s p item (p.size / privateEntry + 1) partitionHeader with
  | .found x => pure x
  | .ended e budget => do
    refuseIf (e ≠ p.freeUncached) .ecorrupt
    -- a line that is no power of two describes no list
    refuseIf (p.cacheline = 0 ∨ p.cacheline &&& (p.cacheline - 1) ≠ 0 ∨ p.cacheline > 4096) .enoent
    let slot := slotOf p.cacheline
    refuseIf (slot > p.size) .ecorrupt
    cached s p item slot budget (p.size - slot)

end Q1n1.Smem
