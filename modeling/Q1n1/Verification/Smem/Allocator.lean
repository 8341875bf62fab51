import Q1n1.Library.Fields
import Q1n1.Model.Smem.Parser

/-! # A reference allocator

What a partition is for: numbered items, each with a range of its own. Uncached
entries grow up from the partition header, header first; cached entries grow down
from the end, each header in a slot of whole cache lines above its data. The
parser is compared with the partitions this allocator builds. -/

namespace Q1n1.Smem

/-- The fixed part of a partition. -/
structure Shape where
  offset : ℕ
  size : ℕ
  line : ℕ
  host0 : ℕ
  host1 : ℕ
  count : ℕ
  offset_pos : 0 < offset
  page_aligned : offset % 0x1000 = 0
  header_le : partitionHeader ≤ size
  size_aligned : size % 8 = 0
  end_lt : offset + size < 2 ^ 32
  line_two_pow : ∃ k ≤ 12, line = 2 ^ k
  apps : host0 = hostApps ∨ host1 = hostApps
  host0_lt : host0 < 2 ^ 16
  host1_lt : host1 < 2 ^ 16
  count_lt : count < 2 ^ 16

/-- A cached header's slot: its sixteen bytes in whole lines. -/
def Shape.slot (shape : Shape) : ℕ := (privateEntry + shape.line - 1) / shape.line * shape.line

/-- An allocated item: the range handed out, and its length with the padding. -/
structure Allocation where
  item : ℕ
  range : Item
  length : ℕ
deriving DecidableEq

structure Heap (shape : Shape) where
  freeUncached : ℕ
  freeCached : ℕ
  uncached : List Allocation
  cached : List Allocation
  memory : Memory

inductive Request
  | uncached (item size padHdr padData : ℕ)
  | cached (item size padData : ℕ)
  | fill (a : ℕ) (bytes : List UInt8)

namespace Heap

variable {shape : Shape}

def allocations (h : Heap shape) : List Allocation := h.uncached ++ h.cached

def putFree (m : Memory) (shape : Shape) (freeUncached freeCached : ℕ) : Memory :=
  (m.setField 4 (shape.offset + 12) freeUncached).setField 4 (shape.offset + 16) freeCached

def putHeader (m : Memory) (shape : Shape) : Memory :=
  (((m.setField 4 shape.offset (fourcc '$' 'P' 'R' 'T')).setField 2 (shape.offset + 4)
    shape.host0).setField 2 (shape.offset + 6) shape.host1).setField 4 (shape.offset + 8) shape.size

def putEntry (m : Memory) (a item length padData : ℕ) : Memory :=
  (((m.setField 2 a privateCanary).setField 2 (a + 2) item).setField 4 (a + 4) length).setField 2
    (a + 8) padData

def format (shape : Shape) (m : Memory) : Heap shape where
  freeUncached := partitionHeader
  freeCached := shape.size
  uncached := []
  cached := []
  memory := putFree (putHeader m shape) shape partitionHeader shape.size

/-- Items are below the count and allocated once. -/
def fresh (h : Heap shape) (item : ℕ) : Bool :=
  item < shape.count && h.allocations.all (·.item ≠ item)

/-- Place a header and data upwards from the uncached free offset. -/
def addUncached (h : Heap shape) (item size padHdr padData : ℕ) : Heap shape :=
  let e := h.freeUncached
  let data := e + privateEntry + padHdr
  let length := size + padData
  if h.fresh item ∧ padHdr < 2 ^ 16 ∧ padData < 2 ^ 16 ∧ e % 4 = 0 ∧ data % 4 = 0 ∧
      data + length ≤ h.freeCached then
    { h with
      freeUncached := data + length
      uncached := h.uncached ++ [⟨item, ⟨shape.offset + data, size, false⟩, length⟩]
      memory := putFree ((putEntry h.memory (shape.offset + e) item length padData).setField 2
        (shape.offset + e + 10) padHdr) shape (data + length) h.freeCached }
  else h

/-- Place a header and data downwards from the cached free offset. -/
def addCached (h : Heap shape) (item size padData : ℕ) : Heap shape :=
  let length := size + padData
  let header := h.freeCached - shape.slot
  let data := header - length
  if h.fresh item ∧ padData < 2 ^ 16 ∧ data % 4 = 0 ∧
      h.freeUncached + length + shape.slot ≤ h.freeCached then
    { h with
      freeCached := data
      cached := h.cached ++ [⟨item, ⟨shape.offset + data, size, true⟩, length⟩]
      memory := putFree (putEntry h.memory (shape.offset + header) item length padData) shape
        h.freeUncached data }
  else h

/-- The owner of an item writes inside its range. -/
def fill (h : Heap shape) (a : ℕ) (bytes : List UInt8) : Heap shape :=
  if h.allocations.any fun x => x.range.offset ≤ a ∧
      a + bytes.length ≤ x.range.offset + x.range.size then
    { h with memory := h.memory.store a bytes }
  else h

def serve (h : Heap shape) : Request → Heap shape
  | .uncached item size padHdr padData => h.addUncached item size padHdr padData
  | .cached item size padData => h.addCached item size padData
  | .fill a bytes => h.fill a bytes

def built (shape : Shape) (m : Memory) (requests : List Request) : Heap shape :=
  requests.foldl serve (format shape m)

end Heap

end Q1n1.Smem
