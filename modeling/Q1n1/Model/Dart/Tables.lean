import Mathlib.Tactic.Linarith
import Mathlib.Tactic.Ring

/-! # DART page tables (src/dart.c)

Two levels of 2048 entries each under up to four roots. The first level and the
tables of the second are kept as entry values; `live` lists the second-level tables
that the heap has handed out. Addresses are 64-bit and wrap. -/

namespace Q1n1.Dart

inductive DartType
  | t8020
  | t8110
  | t6000
deriving DecidableEq

def pageSize : ℕ := 2 ^ 14

def ptrErr : ℕ := 2 ^ 63

namespace DartType

/-- The lowest bit of an entry's offset field, which ends at bit 39. -/
def offsetLow : DartType → ℕ
  | t8020 => 14
  | t8110 => 10
  | t6000 => 10

def pteFlags : DartType → ℕ
  | t8020 => 0xfff * 2 ^ 40 ||| 2 ||| 1
  | t8110 => 0xfff * 2 ^ 40 ||| 1
  | t6000 => 0xfff * 2 ^ 40 ||| 1

def ttbrCount : DartType → ℕ
  | t8020 => 4
  | t8110 => 1
  | t6000 => 4

def offsetGet (t : DartType) (pte : ℕ) : ℕ := pte / 2 ^ t.offsetLow % 2 ^ (40 - t.offsetLow)

def offsetPrep (t : DartType) (v : ℕ) : ℕ := v % 2 ^ (40 - t.offsetLow) * 2 ^ t.offsetLow

/-- The physical addresses that an entry can hold are those below this. -/
def physEnd (t : DartType) : ℕ := 2 ^ (14 + (40 - t.offsetLow))

def target (t : DartType) (pte : ℕ) : ℕ := t.offsetGet pte * pageSize

end DartType

/-- Where `memalign` finds a table, having found so many before. It does not fail while fewer
tables are live than the four first levels have entries, and what it hands out is aligned, apart
from the live tables and within reach of an entry. -/
structure Memalign (t : DartType) where
  next : (found : ℕ) → (live : List ℕ) → ℕ
  fresh : ∀ found live, live.length < 2 ^ 13 → next found live ∉ live
  aligned : ∀ found live, next found live % pageSize = 0
  reachable : ∀ found live, next found live < t.physEnd

structure Tables where
  l1 : ℕ → ℕ → ℕ
  tables : ℕ → ℕ → ℕ
  live : List ℕ := []
  found : ℕ := 0

/-- The tables after `dart_init` without page tables to keep. -/
def init : Tables := { l1 := fun _ _ => 0, tables := fun _ _ => 0 }

def valid (pte : ℕ) : Bool := pte % 2 = 1

def Tables.setL1 (d : Tables) (ttbr index pte : ℕ) : Tables :=
  { d with l1 := fun t i => if t = ttbr ∧ i = index then pte else d.l1 t i }

def Tables.setTable (d : Tables) (tbl : ℕ) (entries : ℕ → ℕ) : Tables :=
  { d with tables := fun a => if a = tbl then entries else d.tables a }

def Tables.setPte (d : Tables) (tbl index pte : ℕ) : Tables :=
  d.setTable tbl fun j => if j = index then pte else d.tables tbl j

section

variable {t : DartType} (heap : Memalign t)

/-- The second-level table of `idx`, whose upper bits select the root; a missing one is
allocated. -/
def getL2 (d : Tables) (idx : ℕ) : ℕ × Tables :=
  let ttbr := idx / 2 ^ 11
  let i := idx % 2 ^ 11
  if valid (d.l1 ttbr i) then (t.target (d.l1 ttbr i), d)
  else
    let tbl := heap.next d.found d.live
    (tbl, { (d.setTable tbl fun _ => 0).setL1 ttbr i (t.offsetPrep (tbl / pageSize) ||| 1) with
      live := tbl :: d.live
      found := d.found + 1 })

/-- `false` when the page has a valid entry already. -/
def mapPage (d : Tables) (iova paddr flags : ℕ) : Bool × Tables :=
  let (l2, d) := getL2 heap d (iova / 2 ^ 25 % 2 ^ 13)
  let l2Index := iova / 2 ^ 14 % 2 ^ 11
  if valid (d.tables l2 l2Index) then (false, d)
  else (true, d.setPte l2 l2Index (t.offsetPrep (paddr / pageSize) ||| t.pteFlags ||| flags))

/-- The check uses the root of the address, the table that is cleared does not. -/
def unmapPage (d : Tables) (iova : ℕ) : Tables :=
  let ttbr := iova / 2 ^ 36 % 2 ^ 2
  let l1Index := iova / 2 ^ 25 % 2 ^ 11
  let l2Index := iova / 2 ^ 14 % 2 ^ 11
  if valid (d.l1 ttbr l1Index) then
    let (l2, d) := getL2 heap d l1Index
    d.setPte l2 l2Index 0
  else d

def unmapPages : (pages : ℕ) → (iova : ℕ) → Tables → Tables
  | 0, _, d => d
  | n + 1, iova, d => unmapPages n ((iova + pageSize) % 2 ^ 64) (unmapPage heap d iova)

def unmap (d : Tables) (iova len : ℕ) : Tables :=
  if len % pageSize ≠ 0 then d
  else if iova % pageSize ≠ 0 then d
  else unmapPages heap (len / pageSize) iova d

/-- The loop of `dart_map_flags`, with `k` pages mapped so far. -/
def mapPages (iova paddr flags : ℕ) : (pages k : ℕ) → Tables → Bool × Tables
  | 0, _, d => (true, d)
  | n + 1, k, d =>
    let (ok, d) := mapPage heap d ((iova + k * pageSize) % 2 ^ 64)
      ((paddr + k * pageSize) % 2 ^ 64) flags
    if ok then mapPages iova paddr flags n (k + 1) d
    else (false, unmap heap d iova (k * pageSize))

def mapFlags (d : Tables) (iova paddr len flags : ℕ) : Bool × Tables :=
  if len % pageSize ≠ 0 then (false, d)
  else if paddr % pageSize ≠ 0 then (false, d)
  else if iova % pageSize ≠ 0 then (false, d)
  else mapPages heap iova paddr flags (len / pageSize) 0 d

def map (d : Tables) (iova paddr len : ℕ) : Bool × Tables := mapFlags heap d iova paddr len 0

/-- An address at the start of a second-level table frees it when it is empty. As in
`unmapPage`, the table looked at is that of the first root. -/
def freeL2 (d : Tables) (iova : ℕ) : Tables :=
  if iova % 2 ^ 25 ≠ 0 then d
  else
    let ttbr := iova / 2 ^ 36 % 2 ^ 2
    let l1Index := iova / 2 ^ 25 % 2 ^ 11
    if valid (d.l1 ttbr l1Index) then
      let (l2, d) := getL2 heap d l1Index
      if (List.range 2048).any fun i => valid (d.tables l2 i) then d
      else { d.setL1 ttbr l1Index 0 with live := d.live.erase l2 }
    else d

end

/-! ## Lookups -/

variable (t : DartType)

/-- `0` stands for `NULL`. -/
def translate (d : Tables) (iova : ℕ) : ℕ :=
  let ttbr := iova / 2 ^ 36 % 2 ^ 2
  let l1Index := iova / 2 ^ 25 % 2 ^ 11
  if ttbr ≥ t.ttbrCount then 0
  else if valid (d.l1 ttbr l1Index) then
    let l2Index := iova / 2 ^ 14 % 2 ^ 11
    let pte := d.tables (t.target (d.l1 ttbr l1Index)) l2Index
    if valid pte then t.target pte + iova % pageSize else 0
  else 0

/-- The loops of `dart_search`; the two inner ones stop before the last entry. -/
def found (d : Tables) (paddr : ℕ) : Option ℕ :=
  (List.range t.ttbrCount).findSome? fun ttbr =>
    (List.range 0x7ff).findSome? fun l1Index =>
      if valid (d.l1 ttbr l1Index) then
        (List.range 0x7ff).findSome? fun l2Index =>
          let pte := d.tables (t.target (d.l1 ttbr l1Index)) l2Index
          if valid pte ∧ t.target pte = paddr then
            some (ttbr * 2 ^ 36 + l1Index * 2 ^ 25 + l2Index * 2 ^ 14)
          else none
      else none

def search (d : Tables) (paddr : ℕ) : ℕ := (found t d paddr).getD ptrErr

/-- How far past `iova` the pages stay unmapped, up to `len`. -/
def gap (d : Tables) (iova len : ℕ) : (pages size : ℕ) → ℕ
  | 0, size => size
  | n + 1, size =>
    if size < len then
      if translate t d ((iova + size) % 2 ^ 64) ≠ 0 then size
      else gap d iova len n (size + pageSize)
    else size

def findFrom (d : Tables) (len : ℕ) : (fuel iova : ℕ) → ℕ
  | 0, _ => ptrErr
  | fuel + 1, iova =>
    if (iova + len) % 2 ^ 64 ≤ 2 ^ 36 then
      if translate t d iova = 0 then
        let size := gap t d iova len (len / pageSize) pageSize
        if size = len then iova
        else findFrom d len fuel ((iova + size + pageSize) % 2 ^ 64)
      else findFrom d len fuel ((iova + pageSize) % 2 ^ 64)
    else ptrErr

/-- Every pass moves on by a page at least, so this many passes reach the end. -/
def findIova (d : Tables) (start : ℤ) (len : ℕ) : ℕ :=
  if len % pageSize ≠ 0 then 2 ^ 64 - 1
  else if start < 0 ∨ start % pageSize ≠ 0 then 2 ^ 64 - 1
  else findFrom t d len (2 ^ 22 + 2) start.toNat

end Q1n1.Dart
