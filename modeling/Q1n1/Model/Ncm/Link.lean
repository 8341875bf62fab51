import Q1n1.Model.Ncm.Block

/-! # Sending frames over one NCM link

`platform/uefi/ncm.c`: `ncm_send`, `ncm_send_side`, `ncm_queue` and `ncm_flush`. The
controller decides how each transfer ends, and a call takes that as an argument. -/

namespace Q1n1.Ncm

def batchDatagrams : ℕ := 40

structure Stats where
  blocksOut : ℕ := 0
  framesOut : ℕ := 0
  bytesOut : ℕ := 0
  oversize : ℕ := 0
  sendFailures : ℕ := 0

/-- The batch of a link; `entries` is `index[]` and `length[]` up to `count`. -/
structure Batch where
  buffer : Memory
  size : ℕ
  maxDatagrams : ℕ
  entries : List (ℕ × ℕ) := []
  end_ : ℕ := 0
  bytes : ℕ := 0

/-- The side buffer of a link, and whether a transfer still owns it. -/
structure Side where
  buffer : Memory
  size : ℕ
  inflight : Bool := false

/-- Which call made a block. -/
inductive Origin where
  | single (shortEnd : Bool) (frame : List UInt8)
  | batch (frames : List (List UInt8))
  deriving DecidableEq

/-- A block handed to the controller, and whether its transfer was reported as done. -/
structure Emitted where
  origin : Origin
  block : List UInt8
  done : Bool

structure Link where
  p : Params
  attached : Bool := true
  sequence : ℕ := 0
  outBuffer : Memory := fun _ => 0
  batch : Option Batch := none
  side : Option Side := none
  stats : Stats := {}
  -- The rest only records what happened.
  emitted : List Emitted := []
  /-- the frames in the batch, and those of earlier batches with how each transfer ended -/
  queued : List (List UInt8) := []
  flushed : List (Bool × List (List UInt8)) := []

def Link.emit (n : Link) (origin : Origin) (m : Memory) (total : ℕ) (done : Bool) : Link :=
  { n with emitted := n.emitted ++ [⟨origin, m.load 0 total, done⟩] }

/-- `side_retire`: a completed transfer proves the side transfer before it finished. -/
def Link.sideRetire (n : Link) : Link :=
  { n with side := n.side.map fun s => { s with inflight := false } }

def Link.sent (n : Link) (frames bytes : ℕ) : Link :=
  { n with stats := { n.stats with
      blocksOut := n.stats.blocksOut + 1
      framesOut := n.stats.framesOut + frames
      bytesOut := n.stats.bytesOut + bytes } }

def Link.sendFailed (n : Link) : Link :=
  { n with stats := { n.stats with sendFailures := n.stats.sendFailures + 1 } }

def Link.oversize (n : Link) : Link :=
  { n with stats := { n.stats with oversize := n.stats.oversize + 1 } }

/-- The checks of `frame_ntb`: its result when it writes nothing. -/
def Link.frameRefused (n : Link) (capacity length : ℕ) (shortEnd : Bool) : Option (Int × Link) :=
  if n.attached = false ∨ length = 0 ∨ maxFrame < length then some (-1, n)
  else if n.p.ntbOutMax < frameTotal n.p length shortEnd ∨
      capacity < frameTotal n.p length shortEnd then
    some (-2, n.oversize)
  else none

/-- `frame_ntb` numbers every block it writes. -/
def Link.nextSequence (n : Link) : Link := { n with sequence := (n.sequence + 1) % 2 ^ 32 }

/-- `ncm_send`; `done` is whether the transfer completed. -/
def Link.send (n : Link) (frame : List UInt8) (done : Bool) : Int × Link :=
  match n.frameRefused outBufferBytes frame.length false with
  | some refused => refused
  | none =>
    let out := frameNtb n.p n.sequence n.outBuffer frame false
    let n := ({ n with outBuffer := out }.nextSequence).emit (.single false frame) out
      (frameTotal n.p frame.length false) done
    if done then (frame.length, n.sideRetire.sent 1 frame.length) else (-3, n.sendFailed)

def Link.attachSide (n : Link) (buffer : Memory) (size : ℕ) : Link :=
  { n with side := if 512 ≤ size then some { buffer := buffer, size := size } else none }

/-- `ncm_send_side`; `ended` is what `xhci_sent` says of the transfer in flight (0 for not
yet, negative for failed) and `started` whether a new one could be started. -/
def Link.sendSide (n : Link) (frame : List UInt8) (ended : Int) (started : Bool) : Int × Link :=
  match n.side with
  | none => (-1, n)
  | some s =>
    if n.attached = false then (-1, n)
    else if s.inflight ∧ ended = 0 then (-4, n)
    else
      let n := if s.inflight ∧ ended < 0 then n.sendFailed else n
      let n := { n with side := some { s with inflight := false } }
      match n.frameRefused s.size frame.length true with
      | some refused => refused
      | none =>
        let out := frameNtb n.p n.sequence s.buffer frame true
        let n := n.nextSequence
        if started then
          (frame.length, ({ n with side := some { s with buffer := out, inflight := true } }.emit
            (.single true frame) out (frameTotal n.p frame.length true) true).sent 1 frame.length)
        else
          (-3, { n with side := some { s with buffer := out, inflight := false } }.sendFailed)

/-- `ncm_attach_batch`; `answer` is the device's, or `none` when fewer than 28 bytes
came back. -/
def Link.attachBatch (n : Link) (buffer : Memory) (size : ℕ) (answer : Option (List UInt8)) :
    Link :=
  { n with
    batch :=
      if n.attached = false ∨ size < 2048 then none
      else
        match answer with
        | none => none
        | some answer =>
          let outMax := min (ntbOutMaxSize answer) 0xffff
          if outMax < 2048 then none
          else some
            { buffer := buffer
              size := min size outMax
              maxDatagrams := ntbOutMaxDatagrams answer } }

def batchTotal (p : Params) (end_ count : ℕ) : ℕ := batchNdp p end_ + 8 + 4 * (count + 1)

def Link.flush (n : Link) (done : Bool) : Int × Link :=
  match n.batch with
  | none => (0, n)
  | some b =>
    if b.entries = [] then (0, n)
    else
      let out := batchNtb n.p n.sequence b.buffer b.entries b.end_
      let total := batchTotal n.p b.end_ b.entries.length
      let n := { (n.emit (.batch n.queued) out total done).nextSequence with
        batch := some { b with buffer := out, entries := [], end_ := 0, bytes := 0 }
        queued := []
        flushed := n.flushed ++ [(done, n.queued)] }
      if done then (b.entries.length, n.sideRetire.sent b.entries.length b.bytes)
      else (-3, n.sendFailed)

/-- Where the datagrams of the batch end, the header counted. -/
def Batch.filled (b : Batch) : ℕ := if b.end_ = 0 then 12 else b.end_

/-- Where the next datagram goes, and whether it fits. -/
def Batch.nextIndex (b : Batch) (p : Params) : ℕ := datagramOffset p b.filled

def Batch.room (b : Batch) (p : Params) (length : ℕ) : Bool :=
  decide (b.entries.length < batchDatagrams) &&
    decide (batchNdp p (b.nextIndex p + length) + 8 + 4 * (b.entries.length + 2) ≤ b.size) &&
    (decide (b.maxDatagrams = 0) || decide (b.entries.length < b.maxDatagrams))

def Batch.add (b : Batch) (p : Params) (frame : List UInt8) : Batch :=
  { b with
    buffer := b.buffer.store (b.nextIndex p) frame
    entries := b.entries ++ [(b.nextIndex p, frame.length)]
    end_ := b.nextIndex p + frame.length
    bytes := b.bytes + frame.length }

def Link.add (n : Link) (b : Batch) (frame : List UInt8) : Link :=
  { n with batch := some (b.add n.p frame), queued := n.queued ++ [frame] }

def Link.queueFrom (n : Link) (frame : List UInt8) (done : Bool) : ℕ → Int × Link
  | 0 => (-2, n.oversize)
  | attempts + 1 =>
    match n.batch with
    | none => (-1, n)
    | some b =>
      if b.room n.p frame.length then (frame.length, n.add b frame)
      else if b.entries = [] then (-2, n.oversize)
      else
        let r := n.flush done
        if r.1 < 0 then (-3, r.2) else r.2.queueFrom frame done attempts

def Link.queue (n : Link) (frame : List UInt8) (done : Bool) : Int × Link :=
  match n.batch with
  | none => n.send frame done
  | some _ =>
    if n.attached = false ∨ frame.length = 0 ∨ maxFrame < frame.length then (-1, n)
    else n.queueFrom frame done 2

/-! ## Runs -/

inductive Call where
  | send (frame : List UInt8) (done : Bool)
  | sendSide (frame : List UInt8) (ended : Int) (started : Bool)
  | queue (frame : List UInt8) (done : Bool)
  | flush (done : Bool)

def Call.run (n : Link) : Call → Int × Link
  | .send frame done => n.send frame done
  | .sendSide frame ended started => n.sendSide frame ended started
  | .queue frame done => n.queue frame done
  | .flush done => n.flush done

/-- The frames the calls have accepted, in the order of the calls: those sent at once, those
put into the batch, and all of them; and whether a frame passed others in the batch. -/
structure Tally where
  direct : List (List UInt8) := []
  batched : List (List UInt8) := []
  accepted : List (List UInt8) := []
  overtook : Bool := false

def Tally.sent (y : Tally) (frame : List UInt8) (waiting : Bool) : Tally :=
  { y with
    direct := y.direct ++ [frame]
    accepted := y.accepted ++ [frame]
    overtook := y.overtook || waiting }

def Tally.queued (y : Tally) (frame : List UInt8) : Tally :=
  { y with
    batched := y.batched ++ [frame]
    accepted := y.accepted ++ [frame] }

def Call.tally (n : Link) (y : Tally) : Call → Tally
  | .send frame _ | .sendSide frame _ _ => y.sent frame (!n.queued.isEmpty)
  | .queue frame _ =>
    if n.batch.isNone then y.sent frame (!n.queued.isEmpty) else y.queued frame
  | .flush _ => y

structure Session where
  link : Link
  tally : Tally := {}

def Session.step (s : Session) (call : Call) : Session :=
  let r := call.run s.link
  { link := r.2, tally := if 0 ≤ r.1 then call.tally s.link s.tally else s.tally }

def Session.run (s : Session) (calls : List Call) : Session := calls.foldl Session.step s

/-- The DMA memory of a link, with whatever it holds. -/
structure Buffers where
  out : Memory := fun _ => 0
  side : Memory := fun _ => 0
  sideBytes : ℕ := 4096
  batch : Memory := fun _ => 0
  batchBytes : ℕ := 32768

/-- A link as `ncm_open`, `ncm_attach_side` and `ncm_attach_batch` leave it over a device
that reports `answer`, and reports it again to the last of them if `again`. -/
def openLink (answer : List UInt8) (m : Buffers) (again : Bool) : Link :=
  (({ p := openParams (some answer), outBuffer := m.out } : Link).attachSide m.side
    m.sideBytes).attachBatch m.batch m.batchBytes (if again then some answer else none)

end Q1n1.Ncm
