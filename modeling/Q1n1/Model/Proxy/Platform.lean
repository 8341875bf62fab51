import Q1n1.Library.Memory
import Q1n1.Model.Proxy.Wire

/-! # The machine the proxy works on

`platform/uefi/q1n1-proxy.c` and `proxy-asm.S`: guarded accesses to target memory, and the
SError record. What memory holds, where it faults and when an SError shows is a parameter. -/

namespace Q1n1.Proxy

def guardOff : ℕ := 0
def guardSkip : ℕ := 1
def guardMark : ℕ := 2
def guardReturn : ℕ := 3
def guardMarker : ℕ := 0xacce5515abad1dea

def sSerror : Int := -0x53

/-- `struct q1n1_serror_state`, without the magic. -/
structure SError where
  mechanism : ℕ := 0
  flags : ℕ := 0
  checks : ℕ := 0
  before : ℕ := 0
  during : ℕ := 0
  refused : ℕ := 0
  unconsumed : ℕ := 0
  lastSyndrome : ℕ := 0
  lastWhen : ℕ := 0
  lastOpcode : ℕ := 0
  lastAddress : ℕ := 0

def serrorBytes : ℕ := 96

/-- Target memory. The SError record is plain memory, so accesses may reach it too. -/
structure Ram (M : Type) where
  mem : M
  serror : SError := {}

/-- What a guarded load leaves in its register, and whether it faulted. -/
structure Access where
  value : ℕ
  faulted : Bool

structure SerrorPoll where
  found : Bool
  syndrome : ℕ
  stillPending : Bool

inductive CacheOp where
  | icIalluis | icIallu | icIvau | dcIvac | dcZva | dcCvac | dcCvau | dcCivac
  deriving DecidableEq

/-- Everything outside the proxy. A call returns and does not use the link; a fault in it is
not guarded and opens an exception session, which the request loop models. Cache maintenance
completes. -/
structure Platform (M : Type) where
  load : (width address : ℕ) → Ram M → Access × Ram M
  /-- whether the store faulted -/
  store : (width address value : ℕ) → Ram M → Bool × Ram M
  call : (entry : ℕ) → (args : List ℕ) → Ram M → ℕ × Ram M
  cache : CacheOp → (address size : ℕ) → Ram M → Ram M
  serrorPoll : Ram M → SerrorPoll × Ram M
  serrorMechanism : ℕ
  serrorRecord : ℕ
  bootargs : ℕ
  base : ℕ
  fbConsole : Bool → Ram M → ℕ × Ram M
  /-- how often `delay` gets to poll -/
  delayPolls : (microseconds : ℕ) → Ram M → ℕ × Ram M

/-- The proxy's own state besides the loop: the exception guard and count, the bounce buffer
and what P_VECTOR asked for. -/
structure World (M : Type) where
  ram : Ram M
  excGuard : ℕ := guardOff
  excCount : ℕ := 0
  bounce : Memory := fun _ => 0
  nextStage : ℕ × ℕ := (0, 0)

section

variable {M : Type} (P : Platform M)

def setGuard (guard : ℕ) : StateM (World M) Unit := modify fun w => { w with excGuard := guard }

def clearExcCount : StateM (World M) Unit := modify fun w => { w with excCount := 0 }

def countFault : StateM (World M) Unit := modify fun w => { w with excCount := w.excCount + 1 }

/-- What the exception vector does to a leaf routine under `Q1N1_GUARD_RETURN`. -/
def faultReturn : StateM (World M) Unit :=
  modify fun w => { w with excCount := w.excCount + 1, excGuard := guardOff }

def onRam {α : Type} (f : Ram M → α × Ram M) : StateM (World M) α := fun w =>
  ((f w.ram).1, { w with ram := (f w.ram).2 })

def loadMarked (width address : ℕ) : StateM (World M) ℕ := do
  let a ← onRam (P.load width address)
  if a.faulted then countFault
  return a.value

def storeSkipped (width address value : ℕ) : StateM (World M) Unit := do
  let faulted ← onRam (P.store width address (value % 256 ^ width))
  if faulted then countFault

/-- `q1n1_checksum_block` over target memory. -/
def checksumMemory : (address size sum : ℕ) → StateM (World M) ℕ
  | _, 0, sum => pure sum
  | address, size + 1, sum => do
    let a ← onRam (P.load 1 address)
    if a.faulted then
      faultReturn
      return guardMarker % 2 ^ 32
    else
      checksumMemory ((address + 1) % 2 ^ 64) size (checksumByte sum (UInt8.ofNat a.value))

def copyToBounce : (address at_ size : ℕ) → StateM (World M) Unit
  | _, _, 0 => pure ()
  | address, at_, size + 1 => do
    let a ← onRam (P.load 1 address)
    if a.faulted then faultReturn
    else
      modify fun w => { w with bounce := w.bounce.store at_ [UInt8.ofNat a.value] }
      copyToBounce ((address + 1) % 2 ^ 64) (at_ + 1) size

def copyFromBounce : (address at_ size : ℕ) → StateM (World M) Unit
  | _, _, 0 => pure ()
  | address, at_, size + 1 => do
    let w ← get
    let faulted ← onRam (P.store 1 address (w.bounce at_).toNat)
    if faulted then faultReturn
    else copyFromBounce ((address + 1) % 2 ^ 64) (at_ + 1) size

/-- `q1n1_memcpy64` and its narrower siblings: so many units of `width` bytes. -/
def memcpy (width : ℕ) : (dst src units : ℕ) → StateM (World M) Unit
  | _, _, 0 => pure ()
  | dst, src, units + 1 => do
    let a ← onRam (P.load width src)
    if a.faulted then faultReturn
    else
      let faulted ← onRam (P.store width dst (a.value % 256 ^ width))
      if faulted then faultReturn
      else memcpy width ((dst + width) % 2 ^ 64) ((src + width) % 2 ^ 64) units

def memset (width : ℕ) : (dst value units : ℕ) → StateM (World M) Unit
  | _, _, 0 => pure ()
  | dst, value, units + 1 => do
    let faulted ← onRam (P.store width dst (value % 256 ^ width))
    if faulted then faultReturn
    else memset width ((dst + width) % 2 ^ 64) value units

/-! ## SErrors -/

inductive When where
  | before | during
  deriving DecidableEq

def When.code : When → ℕ
  | .before => 1
  | .during => 2

def onSerror (f : SError → SError) : StateM (World M) Unit :=
  modify fun w => { w with ram := { w.ram with serror := f w.ram.serror } }

def serrorCheck (at_ : When) (opcode address : ℕ) : StateM (World M) Bool := do
  onSerror fun e => { e with
    mechanism := P.serrorMechanism
    checks := if at_ = .before then e.checks + 1 else e.checks }
  let poll ← onRam P.serrorPoll
  onSerror fun e =>
    { e with unconsumed := if poll.stillPending then e.unconsumed + 1 else e.unconsumed }
  if !poll.found then return poll.stillPending
  onSerror fun e => { e with
    before := if at_ = .before then e.before + 1 else e.before
    during := if at_ = .during then e.during + 1 else e.during
    lastSyndrome := poll.syndrome
    lastWhen := at_.code
    lastOpcode := opcode
    lastAddress := address }
  return true

/-- `serror_strict`: whether the low flag bit is set. -/
def serrorStrict : StateM (World M) Bool := fun w => (w.ram.serror.flags % 2 = 1, w)

def serrorBars (at_ : When) (opcode address : ℕ) : StateM (World M) Bool := do
  if ← serrorCheck P at_ opcode address then serrorStrict else return false

def refuse : StateM (World M) Unit := onSerror fun e => { e with refused := e.refused + 1 }

/-- `serror_record_read`: a read wholly inside the record. -/
def serrorRecordRead (address size : ℕ) : Bool :=
  size ≠ 0 && size ≤ serrorBytes && P.serrorRecord ≤ address &&
    address - P.serrorRecord ≤ serrorBytes - size

end

end Q1n1.Proxy
