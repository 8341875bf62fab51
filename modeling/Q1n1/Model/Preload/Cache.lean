import Q1n1.Library.Memory
import Q1n1.Model.Preload.Manifest

/-! # The resident preload cache

What `resident_cache` of `tools/preload.py` accepts from a booted machine. -/

namespace Q1n1.Preload

open Bytes (getLe)

def cacheMagic : ℕ := 0x31484343314e3151
def entryBytes : ℕ := 312
def cacheBytes : ℕ := headerBytes + maxFiles * entryBytes

/-- The values of `info` that are read, 0 where it has none. -/
structure Info where
  memoryMap : ℕ := 0
  memoryMapSize : ℕ := 0
  memoryMapStride : ℕ := 0
  preloadTable : ℕ := 0
  preloadSize : ℕ := 0
  preloadStatus : ℕ := 0
  preloadVerify : ℕ := 0

/-- A range of the EFI memory map. One that passes the end of memory is refused. -/
structure Region where
  kind : ℕ
  lo : ℕ
  hi : ℕ
  fits : hi ≤ 2 ^ 64

def regionOf (raw : List UInt8) : Option Region :=
  let start := getLe 8 (raw.drop 8)
  let stop := start + getLe 8 (raw.drop 24) * 4096
  if start % 4096 ≠ 0 then none
  else if h : stop ≤ 2 ^ 64 then some ⟨getLe 4 raw, start, stop, h⟩
  else none

def memoryRegions (m : Memory) (info : Info) : Option (List Region) :=
  let size := info.memoryMapSize
  let stride := info.memoryMapStride
  if info.memoryMap = 0 || stride < 40 || 4096 < stride || size = 0 || 2 ^ 20 < size ||
      size % stride ≠ 0 then none
  else
    let raw := m.load info.memoryMap size
    (List.range (size / stride)).mapM fun i => regionOf (raw.drop (i * stride))

/-- The order of Python's pairs. -/
def pairLe (a b : ℕ × ℕ) : Bool := a.1 < b.1 || (a.1 = b.1 && a.2 ≤ b.2)

def coveredFrom (stop : ℕ) : (cursor : ℕ) → List (ℕ × ℕ) → Bool
  | _, [] => false
  | cursor, (lo, hi) :: rest =>
    if lo ≤ cursor ∧ cursor < hi then
      if stop ≤ hi then true else coveredFrom stop hi rest
    else coveredFrom stop cursor rest

def covered (regions : List Region) (kind base size : ℕ) : Bool :=
  if base = 0 || size = 0 || 2 ^ 64 < base + size then false
  else
    let ranges := (regions.filter (·.kind = kind)).map fun r => (r.lo, r.hi)
    coveredFrom (base + size) base (ranges.mergeSort pairLe)

def pageAlign (n : ℕ) : ℕ := (n + 4095) / 4096 * 4096

structure Entry where
  base : ℕ
  allocation : ℕ
  size : ℕ
  sha256 : List UInt8
  path : List UInt8

def entryOf (bytes : List UInt8) : Entry where
  base := getLe 8 bytes
  allocation := getLe 8 (bytes.drop 8)
  size := getLe 8 (bytes.drop 16)
  sha256 := (bytes.drop 24).take 32
  path := (bytes.drop 56).take pathBytes

def Entry.range (e : Entry) : ℕ × ℕ := (e.base, e.base + e.allocation)

def overlap (a b : ℕ × ℕ) : Bool := a.1 < b.2 && b.1 < a.2

/-- The loop over the entries: `n` more from `i`, behind those that gave `total`, `ranges`
and `paths`. A file's index is its place in the result. -/
def cachedFiles (regions : List Region) (raw : List UInt8) : (n i total : ℕ) →
    (ranges : List (ℕ × ℕ)) → (paths : List (List UInt8)) → Option (List Entry)
  | 0, _, _, _, _ => some []
  | n + 1, i, total, ranges, paths =>
    let e := entryOf (raw.drop (headerBytes + i * entryBytes))
    let name := e.path.takeWhile (· ≠ 0)
    if e.base % 4096 ≠ 0 || e.size = 0 || limit - total < e.size ||
        e.allocation ≠ pageAlign e.size || !covered regions 2 e.base e.allocation then none
    else if ranges.any (overlap e.range) then none
    else if name.any (128 ≤ ·) || encodePath (name.map UInt8.toNat) ≠ some e.path ||
        paths.contains (name.map lower) then none
    else ({ e with path := name } :: ·) <$> cachedFiles regions raw n (i + 1) (total + e.size)
      (ranges ++ [e.range]) (name.map lower :: paths)

def residentCache (m : Memory) (info : Info) : Option (List Entry) :=
  let address := info.preloadTable
  let size := info.preloadSize
  if address = 0 && size = 0 then some []
  else if info.preloadStatus ≠ 0 || size ≠ cacheBytes || address % 4096 ≠ 0 then none
  else (memoryRegions m info).bind fun regions =>
    let raw := m.load address size
    if !covered regions 2 address (pageAlign size) then none
    else if info.preloadVerify % 4 ≠ 0 || !covered regions 1 info.preloadVerify 4 then none
    else if getLe 8 raw ≠ cacheMagic || getLe 8 (raw.drop 8) ≠ 1 || countOf raw = 0 ||
        maxFiles < countOf raw || getLe 8 (raw.drop 24) ≠ entryBytes then none
    else cachedFiles regions raw (countOf raw) 0 0 [(address, address + pageAlign size)] []

end Q1n1.Preload
