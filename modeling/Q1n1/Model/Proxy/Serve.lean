import Q1n1.Model.Proxy.Platform

/-! # Serving one request

`platform/uefi/q1n1-proxy.c`: `send_reply`, `proxy_request`, `memory_read`, `memory_write` and
the body of the request loop. A request is served by a program that only waits for bytes and
hands bytes over; the loop of the next module runs it over a transport. -/

namespace Q1n1.Proxy

open Bytes

/-- How serving goes on when it is through. -/
inductive After (W : Type) where
  | next (w : W)
  | announced (w : W)
  | leave (value : ℕ) (w : W)
  | reboot

/-- A program over the transport. `readFull` yields nothing when the port goes away or stalls,
and `writeFull` says whether everything went out. `call` is where uploaded code runs. -/
inductive Prog (W : Type) where
  | finish (after : After W)
  | readFull (n : ℕ) (k : Option (List UInt8) → Prog W)
  | writeFull (bs : List UInt8) (k : Bool → Prog W)
  | poll (k : Prog W)
  | checksumsOff (k : Bool → Prog W)
  | setChecksumsOff (off : Bool) (k : Prog W)
  | call (w : W) (k : W → Prog W)

/-- A program under construction: its state, and what is to be done with its result. -/
def Serve (W α : Type) : Type := W → (α → W → Prog W) → Prog W

instance {W : Type} : Monad (Serve W) where
  pure a := fun w k => k a w
  bind x f := fun w k => x w fun a w => f a w k

section

variable {W : Type}

def Serve.of {α : Type} (x : StateM W α) : Serve W α := fun w k => k (x w).1 (x w).2

def readFull (n : ℕ) : Serve W (Option (List UInt8)) := fun w k => .readFull n fun got => k got w

def writeFull (bs : List UInt8) : Serve W Bool := fun w k => .writeFull bs fun ok => k ok w

def pollOnce : Serve W Unit := fun w k => .poll (k () w)

def checksumsOff : Serve W Bool := fun w k => .checksumsOff fun off => k off w

def setChecksumsOff (off : Bool) : Serve W Unit := fun w k => .setChecksumsOff off (k () w)

def enterCall : Serve W Unit := fun w k => .call w (k ())

def sendReply (type : ℕ) (status : Int) (data : List UInt8) : Serve W Bool :=
  writeFull (replyBytes type status data)

def pollTimes : ℕ → Serve W Unit
  | 0 => pure ()
  | n + 1 => do
    pollOnce
    pollTimes n

end

/-! ## Opcodes -/

inductive Width where
  | w64 | w32 | w16 | w8
  deriving DecidableEq

def Width.bytes : Width → ℕ
  | .w64 => 8
  | .w32 => 4
  | .w16 => 2
  | .w8 => 1

inductive Opcode where
  | nop | exit | call | getBootargs | getBase | udelay | setExcGuard | getExcCount | vector | reboot
  | write (w : Width) | read (w : Width) | set (w : Width) | clear (w : Width) | mask (w : Width)
  | writeread (w : Width) | memcpy (w : Width) | memset (w : Width)
  | cache (op : CacheOp) | fbInit | fbShutdown | serror | unknown
  deriving DecidableEq

def opcodes : List (ℕ × Opcode) :=
  [(0x000, .nop), (0x001, .exit), (0x002, .call), (0x003, .getBootargs), (0x004, .getBase),
   (0x006, .udelay), (0x007, .setExcGuard), (0x008, .getExcCount), (0x00b, .vector),
   (0x010, .reboot),
   (0x100, .write .w64), (0x101, .write .w32), (0x102, .write .w16), (0x103, .write .w8),
   (0x104, .read .w64), (0x105, .read .w32), (0x106, .read .w16), (0x107, .read .w8),
   (0x108, .set .w64), (0x109, .set .w32), (0x10a, .set .w16), (0x10b, .set .w8),
   (0x10c, .clear .w64), (0x10d, .clear .w32), (0x10e, .clear .w16), (0x10f, .clear .w8),
   (0x110, .mask .w64), (0x111, .mask .w32), (0x112, .mask .w16), (0x113, .mask .w8),
   (0x114, .writeread .w64), (0x115, .writeread .w32), (0x116, .writeread .w16),
   (0x117, .writeread .w8),
   (0x200, .memcpy .w64), (0x201, .memcpy .w32), (0x202, .memcpy .w16), (0x203, .memcpy .w8),
   (0x204, .memset .w64), (0x205, .memset .w32), (0x206, .memset .w16), (0x207, .memset .w8),
   (0x300, .cache .icIalluis), (0x301, .cache .icIallu), (0x302, .cache .icIvau),
   (0x303, .cache .dcIvac), (0x307, .cache .dcZva), (0x308, .cache .dcCvac),
   (0x309, .cache .dcCvau), (0x30a, .cache .dcCivac),
   (0xd00, .fbInit), (0xd01, .fbShutdown), (0x5131, .serror)]

def Opcode.ofNat (op : ℕ) : Opcode := (opcodes.lookup op).getD .unknown

def touchesTarget (op : ℕ) : Bool :=
  (0x100 ≤ op && op ≤ 0x117) || (0x200 ≤ op && op ≤ 0x207) || op == 0x002

structure Done where
  status : Int := 0
  value : ℕ := 0
  guard : ℕ
  stop : Option ℕ := none

section

variable {M : Type} (P : Platform M)

/-- Load, change and store back under `Q1N1_GUARD_MARK`. -/
def modifyMarked (w : Width) (address : ℕ) (f : ℕ → ℕ) : StateM (World M) ℕ := do
  setGuard guardMark
  let value := f ((← loadMarked P w.bytes address) % 256 ^ w.bytes) % 256 ^ w.bytes
  storeSkipped P w.bytes address value
  return value

/-- `P_Q1N1_SERROR`: query, reset or set the flags of the record. -/
def serrorRequest (command flags guard : ℕ) : StateM (World M) Done := do
  match command with
  | 0 => pure ()
  | 1 => onSerror fun e => { mechanism := e.mechanism, flags := e.flags }
  | 2 => onSerror fun e => { e with flags := flags % 2 }
  | _ => return { status := -1, guard := guard }
  onSerror fun e => { e with mechanism := P.serrorMechanism }
  return { value := P.serrorRecord, guard := guard }

/-- The accesses of the switch; `a` are the arguments. -/
def access (a : ℕ → ℕ) (guard : ℕ) : Opcode → StateM (World M) Done
  | .write w => do
    setGuard guardSkip
    storeSkipped P w.bytes (a 0) (a 1)
    return { guard := guard }
  | .read w => do
    setGuard guardMark
    return { value := ← loadMarked P w.bytes (a 0), guard := guard }
  | .set w => return { value := ← modifyMarked P w (a 0) (· ||| a 1), guard := guard }
  | .clear w =>
    return { value := ← modifyMarked P w (a 0) fun v => v - (v &&& a 1), guard := guard }
  | .mask w =>
    return { value := ← modifyMarked P w (a 0) fun v => (v - (v &&& a 1)) ||| a 2, guard := guard }
  | .writeread w => do
    setGuard guardMark
    storeSkipped P w.bytes (a 0) (a 1)
    return { value := ← loadMarked P w.bytes (a 0), guard := guard }
  | .memcpy w => do
    setGuard guardReturn
    memcpy P w.bytes (a 0) (a 1) (a 2 / w.bytes)
    return { guard := guard }
  | .memset w => do
    setGuard guardReturn
    memset P w.bytes (a 0) (a 1) (a 2 / w.bytes)
    return { guard := guard }
  | .call => return { value := ← onRam (P.call (a 0) [a 1, a 2, a 3, a 4, a 5]), guard := guard }
  | .getBootargs => return { value := P.bootargs, guard := guard }
  | .getBase => return { value := P.base, guard := guard }
  | .fbInit => return { value := ← onRam (P.fbConsole true), guard := guard }
  | .fbShutdown =>
    if a 0 ≠ 0 then return { status := -1, guard := guard }
    else return { value := ← onRam (P.fbConsole false), guard := guard }
  | .setExcGuard => do
    clearExcCount
    return { guard := a 0 }
  | .getExcCount => do
    let count := (← get).excCount
    clearExcCount
    return { value := count, guard := guard }
  | .serror => serrorRequest P (a 0) (a 1) guard
  | .cache op => do
    onRam fun r => ((), P.cache op (a 0) (a 1) r)
    return { guard := guard }
  | .exit => return { guard := guard, stop := some (if a 0 = 0 then 1 else a 0) }
  | .vector => do
    modify fun w => { w with nextStage := (a 0, a 1) }
    return { guard := guard, stop := some 2 }
  | .unknown => return { status := -1, guard := guard }
  | .nop | .udelay | .reboot => return { guard := guard }

def perform (op : Opcode) (a : ℕ → ℕ) (guard : ℕ) : Serve (World M) Done :=
  match op with
  | .udelay => do
    pollTimes (← Serve.of (onRam (P.delayPolls (a 0))))
    return { guard := guard }
  | .reboot => fun _ _ => .finish .reboot
  | .call => do
    enterCall
    Serve.of (access P a guard .call)
  | op => Serve.of (access P a guard op)

/-- `proxy_request`: the data of the reply, and the exit value when the session ends. -/
def proxyRequest (request : List UInt8) : Serve (World M) (List UInt8 × Option ℕ) := do
  let op := getLe 8 request
  let a := fun n => getLe 8 (request.drop (8 + 8 * n))
  let bracket := touchesTarget op
  let guard := (← Serve.of get).excGuard
  let refused ← if bracket then Serve.of (serrorBars P .before op (a 0)) else pure false
  if refused then Serve.of refuse
  let done ← if refused then pure { status := sSerror, guard := guard }
    else perform P (.ofNat op) a guard
  Serve.of (setGuard done.guard)
  let barred ← if bracket && !refused then Serve.of (serrorBars P .during op (a 0)) else pure false
  let status := if barred then sSerror else done.status
  return (putLe 8 op ++ putLe 8 (status % 2 ^ 64).toNat ++ putLe 8 done.value, done.stop)

/-! ## Bulk data -/

def chunk (size done : ℕ) : ℕ := min (size - done) bounceBytes

theorem chunk_pos {size done : ℕ} (h : done < size) : 0 < chunk size done := by
  rw [chunk, bounceBytes]
  omega

def memoryReadFrom (address size : ℕ) (record : Bool) (done : ℕ) : Serve (World M) Bool :=
  if h : done < size then do
    let n := chunk size done
    Serve.of (setGuard guardReturn)
    Serve.of (copyToBounce P ((address + done) % 2 ^ 64) 0 n)
    Serve.of (setGuard guardOff)
    if !record then
      let _ ← Serve.of (serrorCheck P .during reqMemread ((address + done) % 2 ^ 64))
    let w ← Serve.of get
    if ← writeFull (w.bounce.load 0 n) then memoryReadFrom address size record (done + n)
    else return false
  else return true
termination_by size - done
decreasing_by
  have := chunk_pos h
  omega

def memoryRead (type address size : ℕ) : Serve (World M) Unit := do
  Serve.of clearExcCount
  let record := serrorRecordRead P address size
  if ← (if record then pure false else Serve.of (serrorBars P .before reqMemread address)) then
    Serve.of refuse
    let _ ← sendReply type stXfrerr []
  else
    Serve.of (setGuard guardReturn)
    let sum ← Serve.of (checksumMemory P address size checksumInit)
    Serve.of (setGuard guardOff)
    let serror ← if record then pure false else Serve.of (serrorBars P .during reqMemread address)
    if (← Serve.of get).excCount ≠ 0 || serror then
      let _ ← sendReply type stXfrerr []
    else
      let sum := if ← checksumsOff then checksumSentinel else sum ^^^ checksumFinal
      if ← sendReply type stOk (putLe 4 sum) then
        if ← memoryReadFrom P address size record 0 then
          if ← checksumsOff then
            let _ ← writeFull (putLe 4 dataEndSentinel)

/-- The loop of `memory_write`: the sum over the data and whether an SError showed, or nothing
when the host stalled. -/
def memoryWriteFrom (address size : ℕ) (refused : Bool) (done sum : ℕ) (serror : Bool) :
    Serve (World M) (Option (ℕ × Bool)) :=
  if h : done < size then do
    let n := chunk size done
    match ← readFull n with
    | none => return none
    | some bs =>
      Serve.of (modify fun w => { w with bounce := w.bounce.store 0 bs })
      let sum := checksumBlock sum bs
      let serror ←
        if (← Serve.of get).excCount = 0 ∧ refused = false ∧ serror = false then do
          Serve.of (setGuard guardReturn)
          Serve.of (copyFromBounce P ((address + done) % 2 ^ 64) 0 n)
          Serve.of (setGuard guardOff)
          Serve.of (serrorBars P .during reqMemwrite ((address + done) % 2 ^ 64))
        else pure serror
      memoryWriteFrom address size refused (done + n) sum serror
  else return some (sum, serror)
termination_by size - done
decreasing_by
  have := chunk_pos h
  omega

/-- `memory_write`. A refused or failed write still drains its data. -/
def memoryWrite (type address size expected : ℕ) : Serve (World M) Unit := do
  Serve.of clearExcCount
  let refused ← Serve.of (serrorBars P .before reqMemwrite address)
  if refused then Serve.of refuse
  match ← memoryWriteFrom P address size refused 0 checksumInit false with
  | none => return
  | some (sum, serror) =>
    let failed := (← Serve.of get).excCount ≠ 0 || refused || serror
    let off ← checksumsOff
    let sum := if off then checksumSentinel else sum ^^^ checksumFinal
    let ended ← if off then readFull 4 else pure (some (putLe 4 dataEndSentinel))
    let ok := !failed && sum == expected && (ended.map (getLe 4) == some dataEndSentinel)
    let _ ← sendReply type (if ok then stOk else stXfrerr) (putLe 4 sum)

/-- What the loop does with the 64 bytes of a request; the exit value when the session ends. -/
def serve (request : List UInt8) : Serve (World M) (Option ℕ) := do
  let type := getLe 4 request
  if checksum (request.take (reqSize - 4)) ≠ getLe 4 (request.drop (reqSize - 4)) then
    let _ ← sendReply type stCsumerr []
    return none
  else if type = reqNop then
    let features := disableDataCsums (getLe 8 (request.drop 4))
    setChecksumsOff (features ≠ 0)
    let _ ← sendReply type stOk (putLe 8 features)
    return none
  else if type = reqProxy then
    let (data, stop) ← proxyRequest P ((request.drop 4).take cmdLen)
    let _ ← sendReply type stOk data
    return stop
  else if type = reqMemread then
    if getLe 8 (request.drop 12) ≠ 0 then
      memoryRead P type (getLe 8 (request.drop 4)) (getLe 8 (request.drop 12))
    else
      let _ ← sendReply type stOk []
    return none
  else if type = reqMemwrite then
    memoryWrite P type (getLe 8 (request.drop 4)) (getLe 8 (request.drop 12))
      (getLe 4 (request.drop 20))
    return none
  else
    let _ ← sendReply type stBadcmd []
    return none

/-- From the four bytes the scan found on. -/
def serveFrom (window : ℕ) (w : World M) : Prog (World M) :=
  .readFull (reqSize - 4) fun
    | none => .finish (.next w)
    | some body => serve P (putLe 4 window ++ body) w fun stop w =>
      match stop with
      | some value => .finish (.leave value w)
      | none => .finish (.next w)

/-- The announcement the host gets when it opens the port. -/
def bootBytes (reason code info : ℕ) : List UInt8 :=
  replyBytes reqBoot stOk (putLe 4 reason ++ putLe 4 code ++ putLe 8 info)

def announce (reason code info : ℕ) (w : World M) : Prog (World M) :=
  .writeFull (bootBytes reason code info) fun _ => .finish (.announced w)

end

end Q1n1.Proxy
