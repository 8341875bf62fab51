import Mathlib.Data.Nat.Bitwise
import Q1n1.Library.Bytes
import Q1n1.Library.Memory

/-! # Page tables of the GPU

`PageTables` and `walk` of `tools/a16gpu_stage3.py`, the mappings built there for the GMU and
the CP, and `build_cb0_tables` of `tools/a16gpu_p6p7.py`. Python integers are natural numbers. -/

namespace Q1n1.Adreno

open Bytes (putLe getLe)

/-! ## Descriptors -/

def pteTypeTable : ℕ := 3
def pteTypePage : ℕ := 3
def pteApUnpriv : ℕ := 1 <<< 6
def pteApRdonly : ℕ := 1 <<< 7
def pteShOs : ℕ := 2 <<< 8
def pteAf : ℕ := 1 <<< 10
def pteNg : ℕ := 1 <<< 11
def pteAttrNc : ℕ := 0 <<< 2

/-- `PTE_ADDR_MASK`: bits 12 to 47. -/
def pteAddrMask : ℕ := 0xfffffffff000

def cbT0sz : ℕ := 32
def cbT0szWide : ℕ := 30

/-! ## The tables -/

/-- Why a call raised. The last two are raised by Python itself. -/
inductive Refusal
  | exhausted
  | overlap
  | badMapping (va pa size : ℕ)
  | mappedTwice (va : ℕ)
  | outsideFramebuffer (first last : ℕ)
  | spanTooLarge
  | keyError
  | structError
  deriving DecidableEq

/-- `PageTables`; a table is a byte array under its physical address. -/
structure PageTables where
  base : ℕ
  poolOffset : ℕ
  poolSize : ℕ
  used : ℕ
  tables : ℕ → Option Memory
  root : ℕ

namespace PageTables

def alloc (t : PageTables) : Except Refusal (ℕ × PageTables) :=
  if t.poolSize < t.used + 4096 then .error .exhausted
  else
    let phys := t.base + t.poolOffset + t.used
    .ok (phys, { t with
      used := t.used + 4096
      tables := Function.update t.tables phys (some fun _ => 0) })

def create (base poolOffset poolSize : ℕ) : Except Refusal PageTables := do
  let (root, t) ← alloc
    { base, poolOffset, poolSize, used := 0, tables := fun _ => none, root := 0 }
  pure { t with root }

def entry (t : PageTables) (table index : ℕ) : Except Refusal ℕ :=
  match t.tables table with
  | none => .error .keyError
  | some bytes => .ok (getLe 8 (bytes.load (8 * index) 8))

def set (t : PageTables) (table index value : ℕ) : Except Refusal PageTables :=
  match t.tables table with
  | none => .error .keyError
  | some bytes =>
    if value < 2 ^ 64 then
      .ok { t with
        tables := Function.update t.tables table (some (bytes.store (8 * index) (putLe 8 value))) }
    else .error .structError

def next (t : PageTables) (table index : ℕ) : Except Refusal (ℕ × PageTables) := do
  let entry ← t.entry table index
  if entry &&& 3 = pteTypeTable then pure (entry &&& pteAddrMask, t)
  else if entry ≠ 0 then throw .overlap
  else
    let (child, t) ← t.alloc
    pure (child, ← t.set table index (child ||| pteTypeTable))

/-- One round of the loop of `map`. -/
def mapPage (t : PageTables) (v frame attrs : ℕ) : Except Refusal PageTables := do
  let (l2, t) ← t.next t.root (v >>> 30 &&& 3)
  let (l3, t) ← t.next l2 (v >>> 21 &&& 0x1ff)
  if (← t.entry l3 (v >>> 12 &&& 0x1ff)) ≠ 0 then throw (.mappedTwice v)
  t.set l3 (v >>> 12 &&& 0x1ff) (frame ||| attrs ||| pteTypePage)

structure Mapping where
  va : ℕ
  pa : ℕ
  size : ℕ
  attrs : ℕ

def map (t : PageTables) (c : Mapping) : Except Refusal PageTables :=
  if c.va % 4096 ≠ 0 ∨ c.pa % 4096 ≠ 0 ∨ c.size % 4096 ≠ 0 ∨ 1 <<< cbT0sz < c.va + c.size then
    .error (.badMapping c.va c.pa c.size)
  else
    (List.range (c.size / 4096)).foldlM
      (fun t k => t.mapPage (c.va + 4096 * k) (c.pa + 4096 * k) c.attrs) t

def mapAll (t : PageTables) (calls : List Mapping) : Except Refusal PageTables :=
  calls.foldlM map t

/-- The bytes of `image`, which lie at `base + poolOffset`. -/
def image (t : PageTables) : List UInt8 :=
  (List.range (t.used / 4096)).flatMap fun n =>
    ((t.tables (t.base + t.poolOffset + 4096 * n)).getD fun _ => 0).load 0 4096

end PageTables

def walk (readU64 : ℕ → ℕ) (ttbr va t0sz : ℕ) : Option (ℕ × ℕ) :=
  if va >>> (64 - t0sz) ≠ 0 then none
  else
    let table := ttbr &&& pteAddrMask
    let entry := readU64 (table + 8 * (va >>> 30 &&& (1 <<< (34 - t0sz) - 1)))
    if entry &&& 3 ≠ pteTypeTable then none
    else
      let table := entry &&& pteAddrMask
      let entry := readU64 (table + 8 * (va >>> 21 &&& 0x1ff))
      if entry &&& 3 ≠ pteTypeTable then none
      else
        let table := entry &&& pteAddrMask
        let leaf := readU64 (table + 8 * (va >>> 12 &&& 0x1ff))
        if leaf &&& 3 ≠ pteTypePage then none
        else some (leaf &&& pteAddrMask ||| va &&& 0xfff, leaf)

def readU64 (memory : Memory) (phys : ℕ) : ℕ := getLe 8 (memory.load phys 8)

def ttbrFor (t : PageTables) (cb : ℕ) : ℕ := t.root ||| cb <<< 48

/-! ## The arena -/

inductive Region
  | tables | gmuDummy | gmuDebug | gmuLog | gmuHfi | cpSqe | cpRb | cpMemptrs | gmuIcache
  | p67Ib | p67Misc | p6Src | p6Dst | p7Code | p7Data | p7Tex | p7Rt

def arenaSize : ℕ := 32 <<< 20

/-- Offset and size of a region in `ARENA_LAYOUT`. -/
def region : Region → ℕ × ℕ
  | .tables => (0x0000000, 0x0100000)
  | .gmuDummy => (0x0104000, 0x4000)
  | .gmuDebug => (0x0108000, 0x7000)
  | .gmuLog => (0x0110000, 0x4000)
  | .gmuHfi => (0x0114000, 0x4000)
  | .cpSqe => (0x0120000, 0x0020000)
  | .cpRb => (0x0140000, 0x0008000)
  | .cpMemptrs => (0x0148000, 0x0001000)
  | .gmuIcache => (0x0200000, 0x1000000 - 0x4000)
  | .p67Ib => (0x1200000, 0x0010000)
  | .p67Misc => (0x1210000, 0x0001000)
  | .p6Src => (0x1220000, 0x0040000)
  | .p6Dst => (0x1260000, 0x0048000)
  | .p7Code => (0x12b0000, 0x0002000)
  | .p7Data => (0x12b2000, 0x0001000)
  | .p7Tex => (0x12b4000, 0x0004000)
  | .p7Rt => (0x12b8000, 0x0008000)

def privRw : ℕ := pteNg ||| pteAf ||| pteShOs ||| pteAttrNc
def unprivRw : ℕ := privRw ||| pteApUnpriv
def unprivRo : ℕ := unprivRw ||| pteApRdonly

open PageTables (Mapping)

def regionMapping (base : ℕ) (name : Region) (va attrs : ℕ) : Mapping where
  va := va
  pa := base + (region name).1
  size := (region name).2
  attrs := attrs

def gmuMappings (base : ℕ) : List Mapping :=
  [regionMapping base .gmuIcache 0x00004000 privRw, regionMapping base .gmuDummy 0x60000000 privRw,
    regionMapping base .gmuDebug 0x60400000 privRw,
    regionMapping base .gmuLog 0x60004000 unprivRw,
    regionMapping base .gmuHfi 0x60008000 unprivRw]

/-- The CP's buffers, each with its address and permission on CB0. -/
def cpBuffers : List (Region × ℕ × ℕ) :=
  [(.cpSqe, 0x10000000, unprivRo), (.cpRb, 0x10100000, unprivRo),
    (.cpMemptrs, 0x10200000, unprivRw)]

def gpuMappings (base : ℕ) : List Mapping :=
  cpBuffers.map fun r => regionMapping base r.1 r.2.1 r.2.2

inductive Which
  | gmu | gpu
  deriving DecidableEq

def buildTables (base : ℕ) (which : Which) (probe : Bool) : Except Refusal PageTables := do
  let pool := region .tables
  let half := pool.2 / 2
  let t ← PageTables.create base (pool.1 + (if which = .gpu then half else 0)) half
  t.mapAll
    (if probe then []
      else match which with
        | .gmu => gmuMappings base
        | .gpu => gpuMappings base)

/-! ## The render window and the framebuffer -/

def p67ArenaWindow : ℕ × ℕ := (0x1200000, 0x00c0000)
def p67Va : ℕ := 0x11000000
def fbVa : ℕ := 0x20000000
def fbVaLimit : ℕ := 0x08000000

def renderRegions : List (Region × ℕ) :=
  [(.p67Ib, unprivRo), (.p67Misc, unprivRo), (.p6Src, unprivRo), (.p6Dst, unprivRw),
    (.p7Code, unprivRo), (.p7Data, unprivRo), (.p7Tex, unprivRo), (.p7Rt, unprivRw)]

/-- `region_va` at offset 0. -/
def regionVa (name : Region) : ℕ := p67Va + ((region name).1 - p67ArenaWindow.1)

def renderMappings (base : ℕ) : List Mapping :=
  renderRegions.map fun r => regionMapping base r.1 (regionVa r.1) r.2

/-- What `fb_window_span` uses of the framebuffer. -/
structure Framebuffer where
  base : ℕ
  size : ℕ
  pitch : ℕ

structure Rect where
  x : ℕ
  y : ℕ
  w : ℕ
  h : ℕ

structure FbSpan where
  pa : ℕ
  size : ℕ
  va : ℕ
  rectOffset : ℕ
  deriving DecidableEq

/-- `x & ~0xFFF`. -/
def pageDown (x : ℕ) : ℕ := x - x % 4096

def fbWindowSpan (fb : Framebuffer) (rect : Rect) : Except Refusal FbSpan :=
  let first := fb.base + rect.y * fb.pitch
  let last := fb.base + (rect.y + rect.h) * fb.pitch
  let start := pageDown first
  let stop := pageDown (last + 0xfff)
  if start < fb.base ∨ fb.base + pageDown fb.size < stop then
    .error (.outsideFramebuffer start stop)
  else if fbVaLimit < stop - start then .error .spanTooLarge
  else .ok { pa := start, size := stop - start, va := fbVa, rectOffset := first - start }

def buildCb0Tables (base : ℕ) (fbSpan : Option FbSpan) : Except Refusal PageTables := do
  let t ← buildTables base .gpu false
  let t ← t.mapAll (renderMappings base)
  match fbSpan with
  | none => pure t
  | some span => t.map { va := span.va, pa := span.pa, size := span.size, attrs := unprivRw }

end Q1n1.Adreno
