import Q1n1.Model.Glink.State

/-! # The two FIFOs and the frames we write

`platform/uefi/glink-smem.c`, from `index_ok` to `advertise`. -/

namespace Q1n1.Glink

def txReserve : ℕ := 16
def controlWaitUs : ℕ := 50000

/-- Bytes to read, or `none` when the remote's head is no index. During a release, a
head back at 0 under our non-zero tail is the remote resetting its words. -/
def Link.rxAvail (g : Link) : Option ℕ :=
  if indexOk g.rxHead g.s.rxLength = false then none
  else if g.releasing ∧ g.rxHead = 0 ∧ g.s.rxTail ≠ 0 then some 0
  else if g.s.rxTail ≤ g.rxHead then some (g.rxHead - g.s.rxTail)
  else some (g.s.rxLength - g.s.rxTail + g.rxHead)

def rxAvail : M (Option ℕ) := do
  turn
  Cut.gets Link.rxAvail

def Link.rxPeek (g : Link) (offset count : ℕ) : List UInt8 :=
  Ring.copyOut g.s.rxLength g.rx ((g.s.rxTail + offset) % g.s.rxLength) count

def Link.rxAdvance (g : Link) (count : ℕ) : Link :=
  let tail := g.s.rxTail + count
  let tail := if g.s.rxLength ≤ tail then tail - g.s.rxLength else tail
  { g with rxTail := tail, s := { g.s with rxTail := tail } }

/-- Bytes we may write, or `none` when the remote's tail is no index. -/
def Link.txAvail (g : Link) : Option ℕ :=
  if indexOk g.txTail g.s.txLength = false then none
  else
    let avail :=
      if g.txTail ≤ g.s.txHead then g.s.txLength - g.s.txHead + g.txTail
      else g.txTail - g.s.txHead
    if avail < txReserve then some 0 else some (avail - txReserve)

def txAvail : M (Option ℕ) := do
  turn
  Cut.gets Link.txAvail

/-- Ring the remote; the doorbell write may fault. -/
def ring : M Status := do
  modifyS fun s => { s with doorbells := s.doorbells + 1 }
  turn
  let faults ← Cut.gets Link.doorbellFaults
  if faults then fail .edoorbell 0xffff else return .ok

def roundHead (length i : ℕ) : ℕ :=
  if length ≤ align8 i then align8 i - length else align8 i

/-- Whether writing `size` bytes at our head runs into bytes still to be read. -/
def Link.tramples (g : Link) (size : ℕ) : Bool :=
  (List.range size).any fun i =>
    decide (Ring.dist g.s.txLength g.txTail ((g.s.txHead + i) % g.s.txLength)
      < Ring.used g.s.txLength g.txTail g.s.txHead)

/-- One frame, header then payload, the head rounded up to 8 and published. -/
def Link.publish (g : Link) (hdr data : List UInt8) : Link :=
  let t := Ring.copyIn g.s.txLength g.tx g.s.txHead hdr
  let u := Ring.copyIn g.s.txLength t.1 t.2 data
  let head := roundHead g.s.txLength u.2
  { g with
    tx := u.1
    txHead := head
    s := { g.s with txHead := head, txFrames := g.s.txFrames + 1 }
    trace := g.trace ++ [.sent (hdr ++ data) g.s.ch]
    sending := if isData hdr then none else g.sending
    trampled := g.trampled || g.tramples (hdr ++ data).length }

/-- What a blocked write does between two looks at the FIFO. -/
abbrev Drain := Option (M (Except Status ℕ))

def Link.wait (g : Link) : Link := { g with waited := true }

/-- Wait until `size` bytes fit. Every round takes at least one turn, so a bound of
one more than the turns left is never reached before the schedule ends. -/
def awaitSpace (size command deadline : ℕ) (drain : Drain) : ℕ → M (Except Status Unit)
  | 0 => Cut.stop
  | bound + 1 => do
    let avail ← txAvail
    match avail with
    | none => do
      let e ← fail .ecorrupt command
      return .error e
    | some avail =>
      if size ≤ avail then return .ok ()
      else do
        Cut.modify Link.wait
        let time ← now
        if deadline < time then return .error .etimedout
        else
          match drain with
          | none => do
            relax
            awaitSpace size command deadline drain bound
          | some poll => do
            let handled ← poll
            match handled with
            | .error e => return .error e
            | .ok _ => do
              relax
              awaitSpace size command deadline drain bound

def writeFrame (hdr data : List UInt8) (deadline : ℕ) (drain : Drain) : M Status := do
  let g ← Cut.get
  if g.s.txLength ≤ hdr.length + data.length then fail .enospc (get16 hdr)
  else do
    let space ←
      awaitSpace (hdr.length + data.length) (get16 hdr) deadline drain (g.turns.length + 1)
    match space with
    | .error e => return e
    | .ok _ => do
      Cut.modify (·.publish hdr data)
      ring

/-- A frame from inside the RX handler: bounded, and a FIFO that stays full means
the remote stopped reading. -/
def reply (cmd : Command) (frame : List UInt8) : M Status := do
  let time ← now
  let status ← writeFrame frame [] (time + controlWaitUs) none
  if status = .etimedout then fail .enospc cmd.code else return status

def control (cmd : Command) (p1 p2 : ℕ) : M Status := reply cmd (header cmd p1 p2)

def sendVersion : M Status := do
  let g ← Cut.get
  control .version 1 g.s.features

/-- The OPEN frame of a channel; the name length includes the NUL. -/
def openFrame (ch : Channel) : List UInt8 :=
  let n := min (nameBytes - 1) ch.name.length
  header .open ch.lcid (n + 1) ++ ch.name.take n ++ List.replicate (align8 (n + 1) - n) 0

def sendOpen (c : ChannelIx) : M Status := do
  let g ← Cut.get
  let status ← reply .open (openFrame (g.s.ch c))
  if status = .ok then do
    modifyCh c fun ch => { ch with openSent := true }
    return status
  else return status

def Channel.advertised (ch : Channel) (slot : Fin 4) (id : ℕ) : Channel :=
  { ch with
    localIntent := Function.update ch.localIntent slot
      { id := id, size := ch.localSize, used := false, valid := true } }

/-- `next_liid++`, skipping 0 when the counter wraps. -/
def nextLiid (n : ℕ) : ℕ := if (n + 1) % 2 ^ 32 = 0 then 1 else (n + 1) % 2 ^ 32

def Link.advertise (g : Link) (c : ChannelIx) (slot : Fin 4) : Link :=
  { g with
    s := { g.s with
      nextLiid := nextLiid g.s.nextLiid
      ch := Function.update g.s.ch c ((g.s.ch c).advertised slot g.s.nextLiid) }
    filled := Function.update g.filled c (Function.update (g.filled c) slot 0)
    trace := g.trace ++ [.cleared c slot] }

def advertise (c : ChannelIx) (slot : Fin 4) : M Status := do
  Cut.modify (·.advertise c slot)
  let g ← Cut.get
  let ch := g.s.ch c
  reply .intent
    (header .intent ch.lcid 1 ++ put32 (ch.localIntent slot).size
      ++ put32 (ch.localIntent slot).id)

end Q1n1.Glink
