import Q1n1.Model.Glink.Fifo

/-! # Driving a channel forward, and the handlers of received frames

`platform/uefi/glink-smem.c`, from `drive` to `dispatch`. -/

namespace Q1n1.Glink

def openFallbackUs : ℕ := 100000
def versionResendsMax : ℕ := 4
def featureIntentReuse : ℕ := 1

def drop : M Status := do
  modifyS fun s => { s with dropped := s.dropped + 1 }
  return .ok

def andThen (first : M Status) (rest : M Status) : M Status := do
  let status ← first
  if status = .ok then rest else return status

/-! ## Driving -/

def advertiseFrom (c : ChannelIx) : List (Fin 4) → M Status
  | [] => return .ok
  | slot :: rest => andThen (advertise c slot) (advertiseFrom c rest)

def localSlots (ch : Channel) : List (Fin 4) :=
  (List.finRange 4).filter fun i => decide (i.val < ch.localCount)

def driveAck (c : ChannelIx) : M Status := do
  let g ← Cut.get
  let ch := g.s.ch c
  if ch.remoteOpened ∧ ch.ackSent = false then
    andThen (control .openAck ch.rcid 0) do
      modifyCh c fun ch => { ch with ackSent := true }
      return .ok
  else return .ok

def driveOpen (c : ChannelIx) : M Status := do
  let g ← Cut.get
  let ch := g.s.ch c
  if ch.openSent then return .ok
  else if g.s.versionAcked ∨ g.s.remoteVersion ∨ ch.remoteOpened then sendOpen c
  else do
    let time ← now
    if openFallbackUs < (time + 2 ^ 64 - g.s.startedUs) % 2 ^ 64 then sendOpen c
    else return .ok

def driveIntents (c : ChannelIx) : M Status := do
  let g ← Cut.get
  let ch := g.s.ch c
  if ch.openAcked ∧ ch.remoteOpened ∧ ch.intentsSent = false then
    andThen (advertiseFrom c (localSlots ch)) do
      modifyCh c fun ch => { ch with intentsSent := true }
      return .ok
  else return .ok

/-- Bring a wanted channel forward one step: acknowledge the remote's OPEN, send
ours, then offer our intents. -/
def drive (c : ChannelIx) : M Status := do
  let g ← Cut.get
  let ch := g.s.ch c
  if ch.wanted = false ∨ ch.closeSent ∨ g.s.state ≠ .started then return .ok
  else andThen (driveAck c) (andThen (driveOpen c) (driveIntents c))

/-! ## OPEN and CLOSE -/

/-- Whether the name in an OPEN, its NUL included, is this channel's. -/
def Channel.hasName (ch : Channel) (name : List UInt8) : Bool :=
  let mine := min nameBytes ch.name.length
  decide (mine ≠ 0) && decide (name = ch.name.take mine ++ [0])

def byName (ch : Channels) (name : List UInt8) : Option ChannelIx :=
  if (ch chClient).hasName name then some chClient
  else if (ch chSsr).hasName name then some chSsr
  else none

/-- The channel an OPEN names, if its name is short enough to be one of ours. -/
def openMatch (ch : Channels) (nameLength : ℕ) (name : List UInt8) : Option ChannelIx :=
  if nameLength ≤ nameBytes then byName ch name else none

def Channel.reopen (ch : Channel) : Channel :=
  { ch with
    remoteIntent := fun i => { ch.remoteIntent i with valid := false }
    ackSent := false }

def Channel.recordOpen (ch : Channel) (rcid : ℕ) : Channel :=
  { ch with rcid := rcid, remoteOpened := true }

def Channel.setCloseSent (ch : Channel) : Channel := { ch with closeSent := true }

/-- Whatever the remote offered or half-sent under an earlier open is gone. -/
def Link.reopen (g : Link) (c : ChannelIx) : Link :=
  (g.setCh c (g.s.ch c).reopen).clearFilled c

def Link.recordOpen (g : Link) (c : ChannelIx) (rcid : ℕ) : Link :=
  (g.setCh c ((g.s.ch c).recordOpen rcid)).log (.opening c)

def Link.handleOpen (g : Link) (c : ChannelIx) (rcid : ℕ) : Link :=
  if (g.s.ch c).remoteOpened then (g.reopen c).recordOpen c rcid else g.recordOpen c rcid

def handleOpen (rcid nameLength : ℕ) : M Status := do
  let g ← Cut.get
  match openMatch g.s.ch nameLength (g.rxPeek 8 nameLength) with
  | none => do
    modifyS fun s => { s with foreignOpens := s.foreignOpens + 1 }
    return .ok
  | some c => do
    Cut.modify (·.handleOpen c rcid)
    if (g.s.ch c).wanted = false then return .ok
    else
      andThen (control .openAck rcid 0) do
        modifyCh c fun ch => { ch with ackSent := true }
        let g ← Cut.get
        if (g.s.ch c).openSent = false ∧ (g.s.ch c).closeSent = false then sendOpen c
        else return .ok

def handleClose (rcid : ℕ) : M Status := do
  let g ← Cut.get
  match byRcid g.s.ch rcid with
  | none => return .ok
  | some c => do
    modifyS fun s => { s with remoteCloses := s.remoteCloses + 1 }
    andThen (control .closeAck rcid 0) do
      let g ← Cut.get
      let ours := (g.s.ch c).openSent
      Cut.modify (·.resetChannel c)
      if ours then
        andThen (control .close (g.s.ch c).lcid 0) do
          modifyCh c Channel.setCloseSent
          return .ok
      else return .ok

/-! ## Intents -/

/-- The slot an offered intent goes to: the one that holds its id, else a free one. -/
def offerSlot (ch : Channel) (id : ℕ) : Option (Fin 8) :=
  match (List.finRange 8).reverse.find? fun i =>
      (ch.remoteIntent i).valid && decide ((ch.remoteIntent i).id = id) with
  | some i => some i
  | none => (List.finRange 8).find? fun i => !(ch.remoteIntent i).valid

def Channel.offer (ch : Channel) (slot : Fin 8) (id size : ℕ) : Channel :=
  { ch with
    remoteIntent := Function.update ch.remoteIntent slot
      { id := id, size := size, used := false, valid := true }
    intentReqPending := false }

def Link.offer (g : Link) (c : ChannelIx) (id size : ℕ) : Link :=
  match offerSlot (g.s.ch c) id with
  | none => { g with s := { g.s with dropped := g.s.dropped + 1 } }.log (.offered c id size)
  | some slot => (g.setCh c ((g.s.ch c).offer slot id size)).log (.offered c id size)

/-- The `{size, id}` pairs of an INTENT from the `n`th on. -/
def handleIntentFrom (c : Option ChannelIx) (n : ℕ) : ℕ → M Status
  | 0 => return .ok
  | count + 1 => do
    let g ← Cut.get
    let pair := g.rxPeek (8 + 8 * n) 8
    match c with
    | none => do
      let _ ← drop
      handleIntentFrom c (n + 1) count
    | some c => do
      Cut.modify (·.offer c (get32 (pair.drop 4)) (get32 pair))
      handleIntentFrom (some c) (n + 1) count

def handleIntent (rcid count : ℕ) : M Status := do
  let g ← Cut.get
  handleIntentFrom (byRcid g.s.ch rcid) 0 count

def remoteSlot (ch : Channel) (id : ℕ) : Option (Fin 8) :=
  (List.finRange 8).find? fun i =>
    (ch.remoteIntent i).valid && decide ((ch.remoteIntent i).id = id)

def Channel.rxDone (ch : Channel) (slot : Fin 8) (reuse : Bool) : Channel :=
  { ch with
    remoteIntent := Function.update ch.remoteIntent slot
      { ch.remoteIntent slot with
        used := false
        valid := if reuse then (ch.remoteIntent slot).valid else false } }

def Link.noteReturn (g : Link) (c : ChannelIx) (id : ℕ) (reuse : Bool) : Link :=
  if reuse then g.log (.returned c id) else g

def Link.rxDone (g : Link) (c : ChannelIx) (slot : Fin 8) (id : ℕ) (reuse : Bool) : Link :=
  (g.setCh c ((g.s.ch c).rxDone slot reuse)).noteReturn c id reuse

def handleRxDone (rcid id : ℕ) (reuse : Bool) : M Status := do
  let g ← Cut.get
  match byRcid g.s.ch rcid with
  | none => drop
  | some c =>
    match remoteSlot (g.s.ch c) id with
    | none => do
      Cut.modify (·.noteReturn c id reuse)
      drop
    | some slot => do
      Cut.modify (·.rxDone c slot id reuse)
      return .ok

def freeSlot (ch : Channel) : Option (Fin 4) :=
  (localSlots ch).find? fun i => !(ch.localIntent i).valid

/-- Grant when a slot is free and big enough, decline otherwise, but always answer. -/
def handleIntentRequest (rcid size : ℕ) : M Status := do
  let g ← Cut.get
  match byRcid g.s.ch rcid with
  | none => drop
  | some c =>
    let ch := g.s.ch c
    if ch.openAcked = false then drop
    else
      match if size ≤ ch.localSize then freeSlot ch else none with
      | none => control .rxIntentReqAck ch.lcid 0
      | some slot =>
        andThen (advertise c slot) (control .rxIntentReqAck ch.lcid 1)

/-! ## Data -/

def localSlot (ch : Channel) (id : ℕ) : Option (Fin 4) :=
  (localSlots ch).reverse.find? fun i =>
    (ch.localIntent i).valid && decide ((ch.localIntent i).id = id)

def deliverSsr (s : Session) (data : List UInt8) : Session :=
  if 12 ≤ data.length ∧ get32 data = 0 ∧ get32 (data.drop 4) = 1 ∧ get32 (data.drop 8) = 0 then
    { s with cleanupDone := true }
  else { s with dropped := s.dropped + 1 }

def Link.setFilled (g : Link) (c : ChannelIx) (slot : Fin 4) (n : ℕ) : Link :=
  { g with filled := Function.update g.filled c (Function.update (g.filled c) slot n) }

/-- The bytes already held for the message a data frame belongs to. -/
def Link.heldFor (g : Link) (c : ChannelIx) (slot : Fin 4) (first : Bool) : ℕ :=
  if first then 0 else g.filled c slot

/-- The buffer a data frame's payload goes to, when the whole message fits in it and
in the intent. -/
def Link.dataBuffer (g : Link) (c : ChannelIx) (slot : Fin 4) (total : ℕ) : Option Buffer :=
  match localBuffer c slot with
  | none => none
  | some (b, capacity) =>
    if ((g.s.ch c).localIntent slot).size < total ∨ capacity < total then none else some b

def Link.refuse (g : Link) (c : ChannelIx) (slot : Fin 4) : Link :=
  ({ g.setFilled c slot 0 with s := { g.s with dropped := g.s.dropped + 1 } }).log
    (.refused c slot)

def Link.keep (g : Link) (c : ChannelIx) (slot : Fin 4) (b : Buffer) (first : Bool)
    (payload : List UInt8) : Link :=
  { g.setFilled c slot (g.heldFor c slot first + payload.length) with
    buffer := Function.update g.buffer b
      ((g.buffer b).store (g.heldFor c slot first) payload) }

def Channel.giveBack (ch : Channel) (slot : Fin 4) : Channel :=
  { ch with
    localIntent := Function.update ch.localIntent slot
      { ch.localIntent slot with used := false } }

def Link.deliver (g : Link) (c : ChannelIx) (slot : Fin 4) (b : Buffer) : Link :=
  let message := (g.buffer b).load 0 (g.filled c slot)
  let s := { g.s with messages := g.s.messages + 1 }
  let s := if c = chSsr then deliverSsr s message else s
  (({ g with s := s }.setCh c ((g.s.ch c).giveBack slot)).setFilled c slot 0).log
    (.delivered c slot message)

def Channel.retire (ch : Channel) (slot : Fin 4) : Channel :=
  { ch with
    localIntent := Function.update ch.localIntent slot
      { ch.localIntent slot with valid := false } }

/-- Give the intent back, or replace it when the remote does not reuse intents. -/
def returnIntent (c : ChannelIx) (slot : Fin 4) : M Status := do
  let g ← Cut.get
  let ch := g.s.ch c
  let id := (ch.localIntent slot).id
  if g.s.features % 2 = featureIntentReuse then control .rxDoneWReuse ch.lcid id
  else do
    let status ← control .rxDone ch.lcid id
    modifyCh c (·.retire slot)
    if status = .ok then advertise c slot else return status

def handleData (rcid id : ℕ) (first : Bool) : M Status := do
  let g ← Cut.get
  let h := g.rxPeek 0 16
  let chunk := get32 (h.drop 8)
  let left := get32 (h.drop 12)
  match byRcid g.s.ch rcid with
  | none => drop
  | some c =>
    match localSlot (g.s.ch c) id with
    | none => drop
    | some slot =>
      let payload := g.rxPeek 16 chunk
      match g.dataBuffer c slot (g.heldFor c slot first + chunk + left) with
      | none => do
        Cut.modify (·.refuse c slot)
        return .ok
      | some b =>
        if left ≠ 0 then do
          Cut.modify fun g => (g.keep c slot b first payload).log (.kept c slot)
          return .ok
        else do
          Cut.modify fun g => (g.keep c slot b first payload).deliver c slot b
          returnIntent c slot

/-! ## Dispatch -/

def handleVersion (p1 p2 : ℕ) : M Status :=
  if p1 = 0 then return .ok
  else do
    modifyS fun s => { s with features := s.features &&& p2, remoteVersion := true }
    let g ← Cut.get
    control .versionAck 1 g.s.features

def handleVersionAck (p1 p2 : ℕ) : M Status := do
  let g ← Cut.get
  if p1 = 0 then do
    modifyS fun s => { s with versionZeroAcks := s.versionZeroAcks + 1 }
    return .ok
  else if p2 = g.s.features then do
    modifyS fun s => { s with versionAcked := true }
    return .ok
  else do
    modifyS fun s => { s with versionResends := s.versionResends + 1 }
    if versionResendsMax < g.s.versionResends + 1 then fail .eproto Command.versionAck.code
    else do
      modifyS fun s => { s with features := s.features &&& p2 }
      sendVersion

def handleOpenAck (p1 : ℕ) : M Status := do
  let g ← Cut.get
  match byLcid g.s.ch p1 with
  | none => drop
  | some c =>
    if (g.s.ch c).openSent then do
      modifyCh c fun ch => { ch with openAcked := true }
      return .ok
    else drop

def Channel.ackClose (ch : Channel) : Channel :=
  { ch with closeSent := false, openSent := false, openAcked := false, intentsSent := false }

def handleCloseAck (p1 : ℕ) : M Status := do
  let g ← Cut.get
  match byLcid g.s.ch p1 with
  | none => return .ok
  | some c =>
    if (g.s.ch c).closeSent then do
      modifyCh c Channel.ackClose
      return .ok
    else return .ok

def handleIntentReqAck (p1 p2 : ℕ) : M Status := do
  let g ← Cut.get
  match byRcid g.s.ch p1 with
  | none => return .ok
  | some c => do
    modifyCh c fun ch => { ch with
      intentReqPending := false, intentReqGranted := decide (p2 ≠ 0) }
    return .ok

def dispatch (h : List UInt8) : M Status :=
  let p1 := headerP1 h
  let p2 := headerP2 h
  match Command.ofCode? (headerCmd h) with
  | none => fail .eproto (headerCmd h)
  | some .version => handleVersion p1 p2
  | some .versionAck => handleVersionAck p1 p2
  | some .open => handleOpen p1 (p2 % 65536)
  | some .openAck => handleOpenAck p1
  | some .close => handleClose p1
  | some .closeAck => handleCloseAck p1
  | some .signals => return .ok
  | some .intent => handleIntent p1 p2
  | some .rxDone => handleRxDone p1 p2 false
  | some .rxDoneWReuse => handleRxDone p1 p2 true
  | some .rxIntentReq => handleIntentRequest p1 p2
  | some .rxIntentReqAck => handleIntentReqAck p1 p2
  | some .txData => handleData p1 p2 true
  | some .txDataCont => handleData p1 p2 false
  | some .readNotif => return .ok

end Q1n1.Glink
