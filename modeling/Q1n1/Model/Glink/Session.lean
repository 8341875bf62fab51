import Q1n1.Model.Glink.Handlers

/-! # Polling, sending, restarting and releasing a session

`platform/uefi/glink-smem.c`, the public functions. -/

namespace Q1n1.Glink

def framesPerPoll : ℕ := 256
def serviceTxRoom : ℕ := 64
def releaseConfirmUs : ℕ := 1000
def releasePadConfirmUs : ℕ := 50000

/-! ## Polling -/

/-- Whether a frame may be handled now: a background poll wants room for every reply
first. `none` when the remote's tail is no index. -/
def serviceRoom : M (Option Bool) := do
  let g ← Cut.get
  if g.servicing = 0 then return some true
  else do
    let room ← txAvail
    return room.map fun room => decide (serviceTxRoom ≤ room)

/-- The first bytes of the next frame, zero-filled to 16. -/
def Link.rxHeader (g : Link) (avail : ℕ) : List UInt8 :=
  if avail < 16 then g.rxPeek 0 8 ++ List.replicate 8 0 else g.rxPeek 0 16

def Link.take (g : Link) (frame : ℕ) : Link :=
  { g with
    current := some frame
    trace := g.trace ++ [.dispatched (g.rxPeek 0 frame) g.s.ch g.sending] }

def Link.spent (g : Link) (frame : ℕ) : Link :=
  let g' := g.rxAdvance frame
  { g' with current := none, s := { g'.s with rxFrames := g'.s.rxFrames + 1 } }

/-- Dispatch one whole frame, then release its space. -/
def takeFrame (h : List UInt8) (frame : ℕ) : M (Except Status Unit) := do
  Cut.modify (·.take frame)
  let status ← dispatch h
  if status ≠ .ok then return .error status
  else do
    let g ← Cut.get
    if g.s.state = .failed then return .error g.s.lastError
    else do
      Cut.modify (·.spent frame)
      return .ok ()

/-- Whether a frame asks for the doorbell once it is read. -/
def isReadNotif (h : List UInt8) : Bool :=
  decide (headerCmd h = Command.readNotif.code)

/-- Handle at most `limit` more frames; counts them and notes a wanted doorbell. -/
def pollFrames (handled : ℕ) (kick : Bool) : ℕ → M (Except Status (ℕ × Bool))
  | 0 => return .ok (handled, kick)
  | limit + 1 => do
    let avail ← rxAvail
    match avail with
    | none => do
      let e ← fail .ecorrupt 0xffff
      return .error e
    | some avail =>
      if avail < 8 then return .ok (handled, kick)
      else do
        let room ← serviceRoom
        match room with
        | none => do
          let e ← fail .ecorrupt 0xffff
          return .error e
        | some false => return .ok (handled, kick)
        | some true => do
          let g ← Cut.get
          let h := g.rxHeader avail
          match frameLength g.s.rxLength h avail with
          | .bad => do
            let e ← fail .eproto (headerCmd h)
            return .error e
          | .incomplete => return .ok (handled, kick)
          | .whole frame => do
            let taken ← takeFrame h frame
            match taken with
            | .error e => return .error e
            | .ok _ => pollFrames (handled + 1) (kick || isReadNotif h) limit

def pollLimit (g : Link) : ℕ := if 0 < g.servicing then g.servicing else framesPerPoll

def poll : M (Except Status ℕ) := do
  let g ← Cut.get
  if g.s.state = .failed then return .error .efailed
  else if g.s.state ≠ .started then return .error .estate
  else if g.rxTail ≠ g.s.rxTail then do
    let e ← fail .estate 0xffff
    return .error e
  else do
    let polled ← pollFrames 0 false (pollLimit g)
    match polled with
    | .error e => return .error e
    | .ok (handled, kick) =>
      if kick then do
        let status ← ring
        if status = .ok then return .ok handled else return .error status
      else return .ok handled

def setServicing (n : ℕ) : M Unit := Cut.modify fun g => { g with servicing := n }

/-- The periodic tick's poll: at most `maxFrames` frames, and never a wait. -/
def service (maxFrames : ℕ) : M (Except Status ℕ) := do
  let g ← Cut.get
  if g.s.state ≠ .started then return .ok 0
  else do
    setServicing (if maxFrames = 0 then 1 else min maxFrames framesPerPoll)
    let handled ← poll
    setServicing 0
    modifyS fun s => { s with
      servicePolls := s.servicePolls + 1
      serviceFrames := s.serviceFrames +
        match handled with
        | .ok n => n
        | .error _ => 0 }
    return handled

/-! ## Sending -/

def Channel.ready (ch : Channel) : Bool :=
  ch.openAcked && ch.remoteOpened && ch.intentsSent && !ch.closeSent

def Link.channelReady (g : Link) (c : ChannelIx) : Bool :=
  decide (g.s.state = .started) && (g.s.ch c).ready

/-- Poll and drive until the channel is ready or the deadline has passed. -/
def waitChannelFor (c : ChannelIx) (deadline : ℕ) : ℕ → M Status
  | 0 => Cut.stop
  | bound + 1 => do
    let polled ← poll
    match polled with
    | .error e => return e
    | .ok _ => do
      let status ← drive c
      if status ≠ .ok then return status
      else do
        let g ← Cut.get
        if g.channelReady c then return .ok
        else do
          let time ← now
          if deadline < time then return .etimedout
          else do
            relax
            waitChannelFor c deadline bound

def waitChannel (c : ChannelIx) (deadline : ℕ) : M Status := do
  let g ← Cut.get
  waitChannelFor c deadline (g.turns.length + 1)

def waitReady (deadline : ℕ) : M Status := waitChannel chClient deadline

/-- Whether an intent can carry `length` bytes and beats the best one so far. -/
def betterIntent (ch : Channel) (length : ℕ) (best : Option (Fin 8)) (i : Fin 8) : Bool :=
  (ch.remoteIntent i).valid && !(ch.remoteIntent i).used &&
    decide (length ≤ (ch.remoteIntent i).size) &&
    match best with
    | none => true
    | some b => decide ((ch.remoteIntent i).size < (ch.remoteIntent b).size)

/-- The smallest usable intent, the first of them. -/
def chooseIntent (ch : Channel) (length : ℕ) : Option (Fin 8) :=
  (List.finRange 8).foldl
    (fun best i => if betterIntent ch length best i then some i else best) none

def requestIntent (c : ChannelIx) (length : ℕ) : M Status := do
  let g ← Cut.get
  if (g.s.ch c).intentReqPending then return .ok
  else do
    modifyCh c fun ch => { ch with intentReqPending := true }
    control .rxIntentReq (g.s.ch c).lcid length

/-- Poll until an intent fits, asking the remote for one. -/
def awaitIntent (c : ChannelIx) (length deadline : ℕ) : ℕ → M (Except Status (Fin 8))
  | 0 => Cut.stop
  | bound + 1 => do
    let polled ← poll
    match polled with
    | .error e => return .error e
    | .ok _ => do
      let g ← Cut.get
      if g.channelReady c = false then return .error .eclosed
      else
        match chooseIntent (g.s.ch c) length with
        | some slot => return .ok slot
        | none => do
          let status ← requestIntent c length
          if status ≠ .ok then return .error status
          else do
            let time ← now
            if deadline < time then do
              modifyCh c fun ch => { ch with intentReqPending := false }
              return .error .etimedout
            else do
              relax
              awaitIntent c length deadline bound

def Channel.setUsed (ch : Channel) (slot : Fin 8) (used : Bool) : Channel :=
  { ch with
    remoteIntent := Function.update ch.remoteIntent slot
      { ch.remoteIntent slot with used := used } }

def Link.pick (g : Link) (c : ChannelIx) (slot : Fin 8) (length : ℕ) : Link :=
  { g.setCh c ((g.s.ch c).setUsed slot true) with
    sending := some ⟨c, slot, ((g.s.ch c).remoteIntent slot).id, length⟩ }

/-- The message was not written: its intent is free again. -/
def Link.abandon (g : Link) (c : ChannelIx) (slot : Fin 8) : Link :=
  { g.setCh c ((g.s.ch c).setUsed slot false) with sending := none }

def dataHeader (lcid id length : ℕ) : List UInt8 :=
  header .txData lcid id ++ put32 length ++ put32 0

/-- Write the frame under the intent chosen, draining the RX FIFO while ours is full. -/
def transmit (c : ChannelIx) (slot : Fin 8) (data : List UInt8) (deadline : ℕ) : M Status := do
  let g ← Cut.get
  let ch := g.s.ch c
  Cut.modify (·.pick c slot data.length)
  let status ← writeFrame (dataHeader ch.lcid (ch.remoteIntent slot).id data.length) data
    deadline (some poll)
  if status ≠ .ok then do
    Cut.modify (·.abandon c slot)
    return status
  else return status

def send (c : ChannelIx) (data : List UInt8) (deadline : ℕ) : M Status := do
  let g ← Cut.get
  if data = [] then return .einval
  else if g.channelReady c = false then
    if g.s.state = .failed then return .efailed else return .eclosed
  else if g.s.txLength ≤ data.length + 16 then return .enospc
  else do
    let chosen ← awaitIntent c data.length deadline (g.turns.length + 1)
    match chosen with
    | .error e => return e
    | .ok slot => transmit c slot data deadline

def pause (deadline : ℕ) : ℕ → M Unit
  | 0 => Cut.stop
  | bound + 1 => do
    let time ← now
    if time < deadline then do
      relax
      pause deadline bound
    else return ()

def readWords : M (List ℕ) := do
  turn
  let w0 ← Cut.gets Link.txTail
  let w1 ← Cut.gets Link.txHead
  let w2 ← Cut.gets Link.rxTail
  turn
  let w3 ← Cut.gets Link.rxHead
  return [w0, w1, w2, w3]

/-- Two readings of the four words, `delay` apart. -/
def sample (delay : ℕ) : M (Except Status (List ℕ)) := do
  let first ← readWords
  let time ← now
  let g ← Cut.get
  pause (time + delay) (g.turns.length + 1)
  let words ← readWords
  let g ← Cut.get
  if indexOk (words.getD 0 0) g.s.txLength && indexOk (words.getD 1 0) g.s.txLength &&
      indexOk (words.getD 2 0) g.s.rxLength && indexOk (words.getD 3 0) g.s.rxLength then
    if first = words then return .ok words else return .error .ebusy
  else return .error .ecorrupt

/-- Reset the session over the words sampled, our two words set per mode. -/
def Link.restart (g : Link) (name : List UInt8) (lcid : ℕ) (mode : RestartMode)
    (words : List ℕ) : Link :=
  let rxTail := if mode = .linux then 0 else words.getD 3 0
  let txHead := if mode = .resync then words.getD 0 0 else 0
  let client : Channel :=
    { name := name, lcid := lcid, wanted := true, localCount := localIntents,
      localSize := intentBytes }
  let ssr : Channel :=
    { name := ssrName, lcid := ssrLcid, wanted := false, localCount := 1,
      localSize := ssrIntentBytes }
  { g with
    s := { g.s with
      startWords := words
      restarts := g.s.restarts + 1
      state := .started
      lastError := .ok
      lastCommand := 0
      features := featureIntentReuse
      versionAcked := false
      remoteVersion := false
      versionResends := 0
      cleanupSent := false
      cleanupDone := false
      releaseWordsZero := false
      nextLiid := 1
      mode := mode
      ch := fun c => if c = chClient then client else ssr
      rxTail := rxTail
      txHead := txHead }
    filled := fun _ _ => 0
    rxTail := rxTail
    txHead := txHead
    current := none
    sending := none
    trace := []
    arrived := Ring.copyOut g.s.rxLength g.rx rxTail (Ring.used g.s.rxLength rxTail g.rxHead)
    taken := []
    torn := false
    txUnruly := !indexOk g.txTail g.s.txLength
    rxUnruly := !indexOk g.rxHead g.s.rxLength
    trampled := false
    txRetreated := !decide (g.txTail < g.s.txLength)
    waited := false }

def restart (name : List UInt8) (lcid : ℕ) (mode : RestartMode) : M Status := do
  if lcid = 0 ∨ 0xffff < lcid ∨ lcid = ssrLcid ∨ nameBytes ≤ name.length ∨ name = [] then
    return .einval
  else do
    let sampled ← sample 2000
    match sampled with
    | .error e => return e
    | .ok words => do
      Cut.modify (·.restart name lcid mode words)
      let time ← now
      modifyS fun s => { s with startedUs := time }
      sendVersion

/-! ## Releasing -/

def check : M Status := do
  let g ← Cut.get
  if g.s.state = .failed then return .efailed
  else if g.s.state ≠ .started then return .estate
  else if g.txHead ≠ g.s.txHead ∨ g.rxTail ≠ g.s.rxTail then return .estate
  else do
    turn
    let t ← Cut.gets Link.txTail
    turn
    let h ← Cut.gets Link.rxHead
    if indexOk t g.s.txLength && indexOk h g.s.rxLength && indexOk g.txHead g.s.txLength &&
        indexOk g.rxTail g.s.rxLength then return .ok
    else return .ecorrupt

/-- The firmware's DO_CLEANUP("apss"), byte for byte. -/
def cleanupMessage : List UInt8 :=
  List.replicate 12 0 ++ put32 5 ++ [0x61, 0x70, 0x73, 0x73] ++ List.replicate 28 0

def readTxTail : M ℕ := do
  turn
  Cut.gets Link.txTail

def readRxHead : M ℕ := do
  turn
  Cut.gets Link.rxHead

/-- Let the remote read up to our head. -/
def awaitCaughtUp (deadline : ℕ) : ℕ → M Status
  | 0 => Cut.stop
  | bound + 1 => do
    let tail ← readTxTail
    let g ← Cut.get
    if tail = g.s.txHead then return .ok
    else do
      let polled ← poll
      match polled with
      | .error e => return e
      | .ok _ => do
        let time ← now
        if deadline < time then return .etimedout
        else do
          relax
          awaitCaughtUp deadline bound

/-- The remote's tail must not already be 0 when the cleanup is sent. -/
def leaveZero (deadline : ℕ) : M Status := do
  let tail ← readTxTail
  if tail ≠ 0 then return .ok
  else do
    let g ← Cut.get
    andThen (if g.s.txHead = 0 then control .version 0 0 else pure .ok) do
      let g ← Cut.get
      awaitCaughtUp deadline (g.turns.length + 1)

def setReleasing (on : Bool) : M Unit := Cut.modify fun g => { g with releasing := on }

/-- Wait for the remote to zero its two words. A tail of 0 counts only once it has
moved since we sent, and only while our head is not 0. -/
def awaitZeroWords (deadline tailAtSend : ℕ) (consumed padded : Bool) : ℕ → M Status
  | 0 => Cut.stop
  | bound + 1 => do
    let w0 ← readTxTail
    let w3 ← readRxHead
    let g ← Cut.get
    let consumed := consumed || decide (w0 ≠ tailAtSend) || g.s.cleanupDone
    let padded := padded && decide (w0 = 0)
    if consumed ∧ w0 = 0 ∧ w3 = 0 ∧ g.s.txHead = 0 then do
      let status ← control .version 0 0
      if status ≠ .ok then return status
      else do
        modifyS fun s => { s with releasePads := s.releasePads + 1 }
        again deadline tailAtSend consumed true bound
    else if consumed ∧ w0 = 0 ∧ w3 = 0 then do
      let time ← now
      let g ← Cut.get
      pause (time + if padded then releasePadConfirmUs else releaseConfirmUs)
        (g.turns.length + 1)
      let t ← readTxTail
      if t ≠ 0 then again deadline tailAtSend consumed padded bound
      else do
        let h ← readRxHead
        if h = 0 then return .ok else again deadline tailAtSend consumed padded bound
    else do
      let polled ← poll
      match polled with
      | .error e => return e
      | .ok _ => again deadline tailAtSend consumed padded bound
where
  again (deadline tailAtSend : ℕ) (consumed padded : Bool) (bound : ℕ) : M Status := do
    let time ← now
    if deadline < time then fail .etimedout 0xfffe
    else do
      relax
      awaitZeroWords deadline tailAtSend consumed padded bound

/-- Our half: nothing of ours left to replay, then our two words to 0. -/
def Link.finishRelease (g : Link) : Link :=
  let g := { g with
    tx := fun a => if a < g.s.txLength then 0 else g.tx a
    txHead := 0
    rxTail := 0
    s := { g.s with txHead := 0, rxTail := 0 } }
  let g := (g.resetChannel chClient).resetChannel chSsr
  let g := g.setCh chSsr { g.s.ch chSsr with wanted := false }
  { g with s := { g.s with
      releaseWordsZero := true
      releases := g.s.releases + 1
      state := .released } }

/-- The remote's half of the release. -/
def awaitRemote (deadline tailAtSend : ℕ) : M Status := do
  setReleasing true
  let g ← Cut.get
  let status ← awaitZeroWords deadline tailAtSend false false (g.turns.length + 1)
  setReleasing false
  return status

/-- Leave the remote as the firmware leaves it. -/
def release (deadline : ℕ) : M Status :=
  andThen check do
    modifyS fun s => { s with
      cleanupSent := false, cleanupDone := false, releaseWordsZero := false }
    modifyCh chSsr fun ch => { ch with wanted := true }
    andThen (waitChannel chSsr deadline) <| andThen (leaveZero deadline) do
      let tailAtSend ← readTxTail
      andThen (send chSsr cleanupMessage deadline) do
        modifyS fun s => { s with cleanupSent := true }
        andThen (awaitRemote deadline tailAtSend) do
          Cut.modify Link.finishRelease
          return .ok

/-- `n` words zeroed from `at_` on, going round at the end of the FIFO. -/
def scrubWords (length : ℕ) : (n at_ : ℕ) → Memory → Memory
  | 0, _, fifo => fifo
  | n + 1, at_, fifo =>
    scrubWords length n (if at_ + 4 = length then 0 else at_ + 4)
      (fifo.store (at_ / 4 * 4) (List.replicate 4 0))

/-- `q1n1_glink_scrub`. -/
def Link.scrub (g : Link) : Status × Link :=
  let length := g.s.txLength
  if !indexOk g.txTail length || !indexOk g.s.txHead length || g.txHead ≠ g.s.txHead then
    (.estate, g)
  else
    let free := if g.s.txHead < g.txTail then g.txTail - g.s.txHead
      else length - g.s.txHead + g.txTail
    (.ok, { g with
      tx := scrubWords length ((free + 3) / 4) g.s.txHead g.tx
      s := { g.s with scrubbed := g.s.scrubbed + 1 } })

/-- A call a client of the session makes. -/
inductive Op where
  | poll
  | service (maxFrames : ℕ)
  | drive (c : ChannelIx)
  | waitReady (deadline : ℕ)
  | send (c : ChannelIx) (data : List UInt8) (deadline : ℕ)
  | release (deadline : ℕ)

def Op.run : Op → M Unit
  | .poll => do
    let _ ← Glink.poll
    return ()
  | .service maxFrames => do
    let _ ← Glink.service maxFrames
    return ()
  | .drive c => do
    let _ ← Glink.drive c
    return ()
  | .waitReady deadline => do
    let _ ← Glink.waitReady deadline
    return ()
  | .send c data deadline => do
    let _ ← Glink.send c data deadline
    return ()
  | .release deadline => do
    let _ ← Glink.release deadline
    return ()

/-- A sequence of calls. It ends early when the schedule ends inside one of them. -/
def runOps : List Op → M Unit
  | [] => return ()
  | op :: ops => do
    op.run
    runOps ops

end Q1n1.Glink
