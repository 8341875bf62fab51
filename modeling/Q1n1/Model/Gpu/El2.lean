import Mathlib.Data.List.Basic

/-! # The GPU arena and the guarded GPU calls

`platform/uefi/gpu-el2.c`: which memory the GPU may use, and the two calls into the secure
monitor that a host may ask for. Whatever reaches the outside is recorded as an effect. -/

namespace Q1n1.Gpu

def arenaBytes : UInt64 := 0x2000000
def releaseKey : UInt64 := 0x455341454c455247
def page : UInt64 := 4096
def defaultAlign : UInt64 := 0x200000
def efiConventional : UInt32 := 7

def initRegs : UInt64 := 0x42002801
def initArginfo : UInt64 := 1
def reqMask : UInt64 := 0x0f
def cpAperture : UInt64 := 0x42000c1b
def cpApertureArginfo : UInt64 := 4
def cpApertureCb0 : UInt64 := 0xffff0000
def cpApertureFill : UInt64 := 0xffffffff
def interrupted : UInt64 := 1
def waitqSleep : UInt64 := 2
/-- `-12`, as a register holds it. -/
def smcEbusy : UInt64 := 0xfffffffffffffff4
def maxResumes : ℕ := 1024
def busyRetries : ℕ := 20
def busyWaitUs : UInt64 := 30000

inductive Status where
  | ok | einval | enomap | enospace | econflict | eattr | erefused | eundef | ewaitq | ebusy
  | eintr | ekey
  deriving DecidableEq

def Status.code : Status → UInt64
  | .ok => 0
  | .einval => -1
  | .enomap => -2
  | .enospace => -3
  | .econflict => -4
  | .eattr => -5
  | .erefused => -6
  | .eundef => -7
  | .ewaitq => -8
  | .ebusy => -9
  | .eintr => -10
  | .ekey => -11

inductive Source where
  | none | efi | claimed | other (flags : UInt64)
  deriving DecidableEq

def Source.flags : Source → UInt64
  | .none => 0
  | .efi => 1
  | .claimed => 2
  | .other flags => flags

def Source.ofFlags (flags : UInt64) : Source :=
  if flags = 0 then .none else if flags = 1 then .efi else if flags = 2 then .claimed
  else .other flags

structure Regs where
  x0 : UInt64
  x1 : UInt64
  x2 : UInt64
  x3 : UInt64
  x4 : UInt64
  x5 : UInt64
  x6 : UInt64
  x7 : UInt64

/-- `struct q1n1_gpu_state`, without its fixed head. -/
structure State where
  arenaBase : UInt64 := 0
  arenaSize : UInt64 := 0
  arenaSource : Source := .none
  arenaAttr : UInt32 := 0
  claims : UInt64 := 0
  claimStatus : UInt64 := 0
  smcCalls : UInt64 := 0
  smcRefused : UInt64 := 0
  smcOk : UInt64 := 0
  smcStatus : UInt64 := 0
  smcArgs : UInt64 × UInt64 × UInt64 × UInt64 := (0, 0, 0, 0)
  smcRes : UInt64 × UInt64 × UInt64 × UInt64 := (0, 0, 0, 0)
  smcInterrupted : UInt64 := 0
  smcBusy : UInt64 := 0
  smcUndefined : UInt64 := 0

/-- `struct q1n1_gpu_platform`: what there is of it, and what it answers. -/
structure Platform where
  memoryMap : UInt64
  memoryMapSize : UInt64
  memoryMapStride : UInt64
  memory : UInt64 → UInt8
  exclude : List (UInt64 × UInt64)
  attr : Option (UInt64 → Option UInt32)
  hasDelay : Bool
  hasSmc : Bool
  hasStore32 : Bool
  hasZero : Bool
  hasBootBase : Bool
  hasBootSize : Bool
  hasBootFlags : Bool
  /-- where the state record lies -/
  record : UInt64

/-- What reaches the outside. The reply to an SMC is missing when the instruction trapped. -/
inductive Effect where
  | smc (regs : Regs) (reply : Option Regs)
  | delay (microseconds : UInt64)
  | zero (phys size : UInt64)
  | store32 (phys : UInt64) (value : UInt32)

/-- The module's state, the bootinfo fields, and the monitor with its future replies. -/
structure World where
  state : State := {}
  bootBase : UInt64
  bootSize : UInt64
  bootFlags : UInt64
  replies : ℕ → Option Regs
  issued : ℕ := 0
  effects : List Effect := []

def World.update (w : World) (f : State → State) : World := { w with state := f w.state }

def World.emit (w : World) (e : Effect) : World := { w with effects := w.effects ++ [e] }

/-! ## The arena -/

def rd64 (memory : UInt64 → UInt8) (address : UInt64) : UInt64 :=
  (List.range 8).foldl (fun v n => v ||| (memory (address + n.toUInt64)).toUInt64 <<<
    (8 * n.toUInt64)) 0

def rd32 (memory : UInt64 → UInt8) (address : UInt64) : UInt32 :=
  (List.range 4).foldl (fun v n => v ||| (memory (address + n.toUInt64)).toUInt32 <<<
    (8 * n.toUInt32)) 0

def overlaps (a aSize b bSize : UInt64) : Bool :=
  aSize ≠ 0 && bSize ≠ 0 && a < b + bSize && b < a + aSize

/-- The first excluded range that a window hits; a range at address 0 counts as none. -/
def clash (exclude : List (UInt64 × UInt64)) (candidate size : UInt64) : UInt64 :=
  match exclude.find? fun e => overlaps candidate size e.1 e.2 with
  | some e => e.1
  | none => 0

/-- The walk down from the top of one descriptor, past the excluded ranges that are hit. -/
def walk (exclude : List (UInt64 × UInt64)) (start end_ size align : UInt64)
    (candidate : UInt64) : Option UInt64 :=
  if start ≤ candidate ∧ candidate + size ≤ end_ then
    let hit := clash exclude candidate size
    if hit = 0 then some candidate
    else if hit < size then none
    else
      let next := (hit - size) &&& ~~~(align - 1)
      if next < candidate then walk exclude start end_ size align next else none
  else none
termination_by candidate.toNat
decreasing_by exact UInt64.lt_iff_toNat_lt.mp ‹_›

def offer (p : Platform) (size limit align d : UInt64) : Option UInt64 :=
  if rd32 p.memory d ≠ efiConventional then none
  else
    let start := rd64 p.memory (d + 8)
    let pages := rd64 p.memory (d + 24)
    if 0x1000000000 < pages || start &&& (page - 1) ≠ 0 then none
    else
      let end_ := start + pages * page
      let end_ := if limit ≠ 0 && limit < end_ then limit else end_
      if end_ ≤ start || end_ - start < size then none
      else walk p.exclude start end_ size align ((end_ - size) &&& ~~~(align - 1))

def pickFrom (p : Platform) (size limit align : UInt64) :
    ℕ → UInt64 → Option UInt64 → Option UInt64
  | 0, _, best => best
  | n + 1, d, best =>
    let best := match offer p size limit align d, best with
      | none, best => best
      | some candidate, none => some candidate
      | some candidate, some b => some (if b < candidate then candidate else b)
    pickFrom p size limit align n (d + p.memoryMapStride) best

def pick (p : Platform) (size limit align : UInt64) : Except Status UInt64 :=
  if p.memoryMap = 0 || p.memoryMapSize = 0 || p.memoryMapStride < 40 ||
      65536 < p.memoryMapSize / p.memoryMapStride then .error .enomap
  else if size = 0 || size &&& (page - 1) ≠ 0 || align = 0 || align &&& (align - 1) ≠ 0 ||
      align < page then .error .einval
  else
    match pickFrom p size limit align (p.memoryMapSize / p.memoryMapStride).toNat p.memoryMap
        none with
    | none => .error .enospace
    | some base => .ok base

def publish (p : Platform) (w : World) : World :=
  { w with
    bootBase := if p.hasBootBase then w.state.arenaBase else w.bootBase
    bootSize := if p.hasBootSize then w.state.arenaSize else w.bootSize
    bootFlags := if p.hasBootFlags then w.state.arenaSource.flags else w.bootFlags }

/-- `q1n1_gpu_init`: a chainloaded stage inherits the arena through bootinfo. -/
def init (p : Platform) (w : World) : World :=
  publish p <|
    if p.hasBootBase && p.hasBootSize && w.bootBase ≠ 0 && w.bootSize ≠ 0 then
      w.update fun s => { s with
        arenaBase := w.bootBase
        arenaSize := w.bootSize
        arenaSource := if p.hasBootFlags && w.bootFlags ≠ 0 then .ofFlags w.bootFlags else .efi }
    else w

/-- The first and the last page of a claim are Normal memory. -/
def normal (attr : UInt64 → Option UInt32) (base size : UInt64) : Option UInt32 := do
  let first ← attr base
  let last ← attr (base + size - page)
  if first &&& 0xf0 = 0 || last &&& 0xf0 = 0 then none else some first

def World.adopt (w : World) (p : Platform) (base size : UInt64) (attr : UInt32) : World :=
  let w := if p.hasZero then w.emit (.zero base size) else w
  publish p <| w.update fun s => { s with
    arenaBase := base
    arenaSize := size
    arenaSource := .claimed
    arenaAttr := attr }

def claim (p : Platform) (size limit align : UInt64) (w : World) : Status × World :=
  let w := w.update fun s => { s with claims := s.claims + 1 }
  let size := if size = 0 then arenaBytes else size
  let align := if align = 0 then defaultAlign else align
  if w.state.arenaBase ≠ 0 then
    (if size ≤ w.state.arenaSize then .ok else .econflict, w)
  else
    match pick p size limit align with
    | .error status => (status, w)
    | .ok base =>
      match p.attr with
      | none => (.ok, w.adopt p base size w.state.arenaAttr)
      | some attr =>
        match normal attr base size with
        | none => (.eattr, w)
        | some first => (.ok, w.adopt p base size first)

def smcAllowed (fid x1 x2 x3 : UInt64) : Bool :=
  if fid = initRegs then x1 = initArginfo && x2 ≠ 0 && x2 &&& ~~~reqMask = 0 && x3 = 0
  else if fid = cpAperture then
    x1 = cpApertureArginfo && x2 = cpApertureCb0 && x3 = cpApertureFill
  else false

def smcRegs (fid x1 x2 x3 : UInt64) : Regs :=
  let fill := if fid = cpAperture then cpApertureFill else 0
  ⟨fid, x1, x2, x3, fill, fill, 0, 0⟩

def World.issue (w : World) (r : Regs) : Option Regs × World :=
  let reply := w.replies w.issued
  (reply, { w with issued := w.issued + 1 }.emit (.smc r reply))

def smcLoop (p : Platform) (call r : Regs) (resumes busy : ℕ) (w : World) : Status × World :=
  match w.issue r with
  | (none, w) => (.eundef, w.update fun s => { s with smcUndefined := s.smcUndefined + 1 })
  | (some reply, w) =>
    let w := w.update fun s => { s with smcRes := (reply.x0, reply.x1, reply.x2, reply.x3) }
    if reply.x0 = interrupted then
      let w := w.update fun s => { s with smcInterrupted := s.smcInterrupted + 1 }
      if maxResumes < resumes + 1 then (.eintr, w)
      else smcLoop p call { r with x0 := interrupted, x6 := reply.x6 } (resumes + 1) busy w
    else if reply.x0 = waitqSleep then (.ewaitq, w)
    else if reply.x0 = smcEbusy then
      let w := w.update fun s => { s with smcBusy := s.smcBusy + 1 }
      if busyRetries < busy + 1 then (.ebusy, w)
      else
        smcLoop p call call resumes (busy + 1)
          (if p.hasDelay then w.emit (.delay busyWaitUs) else w)
    else
      (.ok, w.update fun s => { s with smcOk := if reply.x0 = 0 then s.smcOk + 1 else s.smcOk })
termination_by (maxResumes - resumes) + (busyRetries - busy)

def smc (p : Platform) (fid x1 x2 x3 : UInt64) (w : World) : Status × World :=
  let w := w.update fun s => { s with smcArgs := (fid, x1, x2, x3) }
  if smcAllowed fid x1 x2 x3 then
    if p.hasSmc then
      smcLoop p (smcRegs fid x1 x2 x3) (smcRegs fid x1 x2 x3) 0 0
        (w.update fun s => { s with smcCalls := s.smcCalls + 1 })
    else (.einval, w)
  else (.erefused, w.update fun s => { s with smcRefused := s.smcRefused + 1 })

/-! ## The entry -/

structure Call where
  op : UInt64
  a1 : UInt64
  a2 : UInt64
  a3 : UInt64
  a4 : UInt64

def store32 (p : Platform) (a1 a2 : UInt64) (w : World) : Status × World :=
  if !p.hasStore32 || w.state.arenaBase = 0 || w.state.arenaSize < 4 || a1 &&& 3 ≠ 0 ||
      a1 < w.state.arenaBase || w.state.arenaSize - 4 < a1 - w.state.arenaBase ||
      0xffffffff < a2 then (.einval, w)
  else (.ok, w.emit (.store32 a1 a2.toUInt32))

def release (p : Platform) (a1 : UInt64) (w : World) : Status × World :=
  if a1 ≠ releaseKey || w.state.arenaSource ≠ .claimed then (.ekey, w)
  else
    (.ok, publish p <| w.update fun s => { s with
      arenaBase := 0
      arenaSize := 0
      arenaSource := .none
      arenaAttr := 0 })

def call (p : Platform) (c : Call) (w : World) : UInt64 × World :=
  if c.op = 0 then (p.record, w)
  else if c.op = 1 then
    let (status, w) := claim p c.a1 c.a2 c.a3 w
    (status.code, w.update fun s => { s with claimStatus := status.code })
  else if c.op = 2 then
    let (status, w) := smc p c.a1 c.a2 c.a3 c.a4 w
    (status.code, w.update fun s => { s with smcStatus := status.code })
  else if c.op = 3 then
    let (status, w) := release p c.a1 w
    (status.code, w)
  else if c.op = 4 then
    let (status, w) := store32 p c.a1 c.a2 w
    (status.code, w)
  else (Status.einval.code, w)

def run (p : Platform) (w : World) (calls : List Call) : World :=
  calls.foldl (fun w c => (call p c w).2) w

/-- A stage that starts with some bootinfo, in front of some monitor. -/
def start (p : Platform) (bootBase bootSize bootFlags : UInt64) (replies : ℕ → Option Regs) :
    World :=
  init p { bootBase, bootSize, bootFlags, replies }

end Q1n1.Gpu
