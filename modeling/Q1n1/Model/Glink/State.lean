import Q1n1.Library.Cut
import Q1n1.Model.Glink.Wire

/-! # GLINK session state, and the world around it

`platform/uefi/glink-smem.h`. The link is one processor's view of two FIFOs and
four index words in shared memory. The remote processor, the clock and the
doorbell act between any two of our accesses to them: a `Turn` is what they did
since the last one, and a link carries the turns that are still to come. -/

namespace Q1n1.Glink

inductive Status where
  | ok | einval | enoent | ecorrupt | ebusy | estate | eproto | etimedout | enospc
  | edoorbell | eclosed | efailed
  deriving DecidableEq

inductive SessionState where
  | down | started | failed | released
  deriving DecidableEq

inductive RestartMode where
  | linux | drain | resync
  deriving DecidableEq

def localIntents : ℕ := 4
def intentBytes : ℕ := 2048
def ssrIntentBytes : ℕ := 64
def nameBytes : ℕ := 32
def ssrLcid : ℕ := 2

/-- `"glink_ssr"`. -/
def ssrName : List UInt8 := [0x67, 0x6c, 0x69, 0x6e, 0x6b, 0x5f, 0x73, 0x73, 0x72]

structure Intent where
  id : ℕ := 0
  size : ℕ := 0
  used : Bool := false
  valid : Bool := false

/-- One channel. `name` holds the characters before the terminating NUL. -/
structure Channel where
  name : List UInt8 := []
  lcid : ℕ := 0
  rcid : ℕ := 0
  wanted : Bool := false
  ackSent : Bool := false
  openSent : Bool := false
  openAcked : Bool := false
  remoteOpened : Bool := false
  intentsSent : Bool := false
  closeSent : Bool := false
  intentReqPending : Bool := false
  intentReqGranted : Bool := false
  localCount : ℕ := 0
  localSize : ℕ := 0
  localIntent : Fin 4 → Intent := fun _ => {}
  remoteIntent : Fin 8 → Intent := fun _ => {}

/-- The client's channel is 0 and `glink_ssr` is 1. -/
abbrev ChannelIx := Fin 2
abbrev Channels := ChannelIx → Channel
def chClient : ChannelIx := 0
def chSsr : ChannelIx := 1

/-- The session record a later stage continues, less the SMEM coordinates and the
doorbell address, which no function below reads. -/
structure Session where
  txLength : ℕ
  rxLength : ℕ
  state : SessionState := .down
  txHead : ℕ := 0
  rxTail : ℕ := 0
  features : ℕ := 0
  versionAcked : Bool := false
  remoteVersion : Bool := false
  versionResends : ℕ := 0
  nextLiid : ℕ := 0
  mode : RestartMode := .linux
  startedUs : ℕ := 0
  ch : Channels := fun _ => {}
  startWords : List ℕ := []
  cleanupSent : Bool := false
  cleanupDone : Bool := false
  releaseWordsZero : Bool := false
  releasePads : ℕ := 0
  restarts : ℕ := 0
  txFrames : ℕ := 0
  rxFrames : ℕ := 0
  doorbells : ℕ := 0
  messages : ℕ := 0
  dropped : ℕ := 0
  foreignOpens : ℕ := 0
  protocolErrors : ℕ := 0
  scrubbed : ℕ := 0
  releases : ℕ := 0
  servicePolls : ℕ := 0
  serviceFrames : ℕ := 0
  versionZeroAcks : ℕ := 0
  remoteCloses : ℕ := 0
  lastError : Status := .ok
  lastCommand : ℕ := 0

inductive Buffer where
  | client (slot : Fin 4)
  | ssr
  deriving DecidableEq

/-- What the outside did since our last access: the two words the remote owns, the
bytes it stored in its FIFO, the time, and whether a doorbell rung now faults. -/
structure Turn where
  txTail : ℕ
  rxHead : ℕ
  rx : List (ℕ × UInt8) := []
  now : ℕ := 0
  doorbellFaults : Bool := false

/-- The message a blocked `send` has chosen an intent for. -/
structure Sending where
  c : ChannelIx
  slot : Fin 8
  id : ℕ
  length : ℕ

/-- What happened on the link, in order. A frame is logged with the channel table
as it stood when the frame was published or handed to `dispatch`. -/
inductive Event where
  | sent (frame : List UInt8) (ch : Channels)
  | dispatched (frame : List UInt8) (ch : Channels) (sending : Option Sending)
  | opening (c : ChannelIx)
  | closing (c : ChannelIx)
  | offered (c : ChannelIx) (id size : ℕ)
  | returned (c : ChannelIx) (id : ℕ)
  | kept (c : ChannelIx) (slot : Fin 4)
  | refused (c : ChannelIx) (slot : Fin 4)
  | cleared (c : ChannelIx) (slot : Fin 4)
  | delivered (c : ChannelIx) (slot : Fin 4) (message : List UInt8)

/-- The link, the shared memory it works on and the turns still to come. -/
structure Link where
  s : Session
  txTail : ℕ := 0
  txHead : ℕ := 0
  rxTail : ℕ := 0
  rxHead : ℕ := 0
  tx : Memory := fun _ => 0
  rx : Memory := fun _ => 0
  servicing : ℕ := 0
  releasing : Bool := false
  filled : ChannelIx → Fin 4 → ℕ := fun _ _ => 0
  buffer : Buffer → Memory := fun _ _ => 0
  clock : ℕ := 0
  doorbellFaults : Bool := false
  turns : List Turn := []
  -- The rest only records what happened; no function of the code reads it.
  /-- the length of the frame being handled -/
  current : Option ℕ := none
  /-- the message whose frame is still to be published -/
  sending : Option Sending := none
  trace : List Event := []
  /-- what the remote put before its head -/
  arrived : List UInt8 := []
  /-- the frames the remote read, and whether it ever stopped inside one -/
  taken : List (List UInt8) := []
  torn : Bool := false
  /-- the remote's tail left what we published -/
  txUnruly : Bool := false
  /-- the remote's head or a byte it stored left what we have read -/
  rxUnruly : Bool := false
  /-- a frame was written over bytes the remote had not read -/
  trampled : Bool := false
  /-- the remote's tail went back, out of what was left for it to read -/
  txRetreated : Bool := false
  /-- a write found too little room and waited -/
  waited : Bool := false

abbrev M := Cut Link

/-- The remote's tail stays within what we published. -/
def Link.lawfulTail (g : Link) (t : Turn) : Bool :=
  indexOk t.txTail g.s.txLength &&
    decide (Ring.dist g.s.txLength g.txTail t.txTail ≤ Ring.used g.s.txLength g.txTail g.txHead)

def Link.forwardTail (g : Link) (t : Turn) : Bool :=
  decide (t.txTail < g.s.txLength) &&
    decide (Ring.dist g.s.txLength g.txTail t.txTail ≤ Ring.used g.s.txLength g.txTail g.txHead)

/-- The remote's head, and the bytes it stores, stay within what we have read. -/
def Link.lawfulHead (g : Link) (t : Turn) : Bool :=
  indexOk t.rxHead g.s.rxLength && decide (Ring.used g.s.rxLength g.rxTail g.rxHead
      ≤ Ring.used g.s.rxLength g.rxTail t.rxHead) &&
    t.rx.all fun w =>
      decide (w.1 < g.s.rxLength) &&
        decide (Ring.used g.s.rxLength g.rxTail g.rxHead ≤ Ring.dist g.s.rxLength g.rxTail w.1)

/-- The bytes our FIFO held between the remote's tail and where a turn moves it. -/
def Link.readBy (g : Link) (t : Turn) : List UInt8 :=
  Ring.copyOut g.s.txLength g.tx g.txTail (Ring.dist g.s.txLength g.txTail t.txTail)

def Link.rxAfter (g : Link) (t : Turn) : Memory :=
  t.rx.foldl (fun m w => Function.update m w.1 w.2) g.rx

def Link.turn (g : Link) (t : Turn) (rest : List Turn) : Link :=
  { g with
    txTail := t.txTail
    rxHead := t.rxHead
    rx := g.rxAfter t
    clock := t.now
    doorbellFaults := t.doorbellFaults
    turns := rest
    arrived := g.arrived ++ Ring.copyOut g.s.rxLength (g.rxAfter t) g.rxHead
        (Ring.dist g.s.rxLength g.rxHead t.rxHead)
    taken := g.taken ++ (readFrames g.s.txLength (g.readBy t).length (g.readBy t)).getD []
    torn := g.torn || (readFrames g.s.txLength (g.readBy t).length (g.readBy t)).isNone
    txUnruly := g.txUnruly || !g.lawfulTail t
    rxUnruly := g.rxUnruly || !g.lawfulHead t
    txRetreated := g.txRetreated || !g.forwardTail t }

/-- Wait for the world's turn; the schedule may end here. -/
def turn : M Unit := fun g =>
  match g.turns with
  | [] => (none, g)
  | t :: rest => (some (), g.turn t rest)

def Link.log (g : Link) (e : Event) : Link := { g with trace := g.trace ++ [e] }

def now : M ℕ := do
  turn
  Cut.gets Link.clock

def relax : M Unit := turn

def Link.fail (g : Link) (error : Status) (command : ℕ) : Link :=
  { g with s := { g.s with
      state := .failed
      lastError := error
      lastCommand := command
      protocolErrors :=
        if error = .eproto then g.s.protocolErrors + 1 else g.s.protocolErrors } }

def fail (error : Status) (command : ℕ) : M Status := do
  Cut.modify (·.fail error command)
  return error

/-! ## Channels -/

/-- The first channel the remote has open under this id of its own. -/
def byRcid (ch : Channels) (rcid : ℕ) : Option ChannelIx :=
  if (ch 0).remoteOpened ∧ (ch 0).rcid = rcid then some 0
  else if (ch 1).remoteOpened ∧ (ch 1).rcid = rcid then some 1
  else none

def byLcid (ch : Channels) (lcid : ℕ) : Option ChannelIx :=
  if (ch 0).lcid ≠ 0 ∧ (ch 0).lcid = lcid then some 0
  else if (ch 1).lcid ≠ 0 ∧ (ch 1).lcid = lcid then some 1
  else none

def Link.setCh (g : Link) (c : ChannelIx) (ch : Channel) : Link :=
  { g with s := { g.s with ch := Function.update g.s.ch c ch } }

def modifyCh (c : ChannelIx) (f : Channel → Channel) : M Unit :=
  Cut.modify fun g => g.setCh c (f (g.s.ch c))

def modifyS (f : Session → Session) : M Unit := Cut.modify fun g => { g with s := f g.s }

/-- Where a local intent's bytes land, and how many it can hold here. -/
def localBuffer (c : ChannelIx) (slot : Fin 4) : Option (Buffer × ℕ) :=
  if c = chClient then some (.client slot, intentBytes)
  else if slot = 0 then some (.ssr, ssrIntentBytes)
  else none

def resetChannel (ch : Channel) : Channel :=
  { ch with
    rcid := 0
    ackSent := false
    openSent := false
    openAcked := false
    remoteOpened := false
    intentsSent := false
    closeSent := false
    intentReqPending := false
    intentReqGranted := false
    localIntent := fun i => { ch.localIntent i with valid := false }
    remoteIntent := fun i => { ch.remoteIntent i with valid := false } }

def Link.clearFilled (g : Link) (c : ChannelIx) : Link :=
  { g with
    filled := Function.update g.filled c fun _ => 0
    trace := g.trace ++ (List.finRange 4).map (Event.cleared c) }

def Link.resetChannel (g : Link) (c : ChannelIx) : Link :=
  ((g.setCh c (Glink.resetChannel (g.s.ch c))).clearFilled c).log (.closing c)

end Q1n1.Glink
