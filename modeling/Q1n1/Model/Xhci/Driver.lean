import Q1n1.Model.Xhci.Ring

/-! # Submitting TRBs and waiting for their events

`platform/uefi/xhci.c`, from `xhci_poll` to `xhci_sent`. A step is one operation up to its
wait, one poll of the event ring, the end of a wait that timed out, or something the
controller does; the controller may act between any two polls. The counters in
`struct xhci_stats`, which no operation reads, are left out. Every TRB pushed has a serial
number, and an event carries that of its TRB; the driver never looks at either. -/

namespace Q1n1.Xhci

def eventTrbs : ℕ := 64
def maxDci : ℕ := 8
def deferredMax : ℕ := 32
def trbTransferEvent : ℕ := 32
def trbCommandCompletion : ℕ := 33
def trbPortStatusChange : ℕ := 34
def success : ℕ := 1
def shortPacket : ℕ := 13

/-- The command ring, and the ring of an endpoint of a device. -/
inductive RingId where
  | cmd
  | ep (device dci : ℕ)
  deriving DecidableEq

structure Outstanding where
  address : ℕ
  request : Submission
  serial : ℕ

/-- A TRB asks for an event by its Interrupt On Completion bit; a command always has one. -/
def Outstanding.asks (o : Outstanding) : RingId → Bool
  | .cmd => true
  | .ep _ _ => o.request.control / 2 ^ 5 % 2 = 1

structure Posted where
  trb : Trb := {}
  serial : Option ℕ := none

structure Event where
  parameter : ℕ
  status : ℕ
  control : ℕ
  type : ℕ
  code : ℕ
  serial : Option ℕ

def Posted.event (p : Posted) : Event where
  parameter := p.trb.parameter
  status := p.trb.status
  control := p.trb.control
  type := p.trb.type
  code := p.trb.status / 2 ^ 24 % 2 ^ 8
  serial := p.serial

/-- What a wait is for, with what the operation needs once it ends. -/
inductive Goal where
  | command
  | control (length : ℕ)
  | reap (device dci length : ℕ)
  | send (device dci length : ℕ)
  | sendEnd (length : ℕ)
  | sent
  deriving DecidableEq

/-- A wait under way. `polls` is how many polls a check without waiting still makes, and
`empty` says that the last poll found nothing, so that the deadline is looked at. -/
structure Wait where
  goal : Goal
  type : ℕ
  trb : ℕ
  serial : ℕ
  polls : Option ℕ := none
  empty : Bool := false

/-- What an endpoint's bulk IN waits for; the address is zero when it is idle. -/
structure Pending where
  address : ℕ := 0
  serial : ℕ := 0

/-- An event that an operation took for the completion of its TRB. -/
structure Use where
  serial : ℕ
  event : Event

structure Driver where
  rings : RingId → Ring
  pending : ℕ → ℕ → Pending := fun _ _ => {}
  event : ℕ → Posted := fun _ => {}
  eventIndex : ℕ := 0
  eventCycle : Bool := true
  deferred : List Event := []
  waiting : Option Wait := none
  -- The controller: what it has to complete, what it has posted, and how much of that the
  -- driver has told it to have read.
  outstanding : RingId → List Outstanding := fun _ => []
  posted : List Posted := []
  polled : ℕ := 0
  -- The rest only records what happened.
  serial : ℕ := 0
  /-- the TRB last pushed at an address -/
  last : ℕ → Option ℕ := fun _ => none
  uses : List Use := []
  results : List Int := []

/-! ## The controller -/

/-- The controller writes the next event, if the driver has left it room. -/
def Driver.post (x : Driver) (trb : Bool → Trb) (serial : Option ℕ) : Driver :=
  let p : Posted := { trb := trb (x.posted.length / eventTrbs % 2 = 0), serial }
  { x with
    event := Function.update x.event (x.posted.length % eventTrbs) p
    posted := x.posted ++ [p] }

def Driver.hasRoom (x : Driver) : Bool := x.posted.length - x.polled < eventTrbs

/-- An event TRB; `high` is what the control word holds above the type. -/
def eventTrb (type parameter status high : ℕ) (cycle : Bool) : Trb :=
  Trb.of parameter status (high * 2 ^ 16 + type * 2 ^ 10 + cycle.toNat)

def RingId.eventType : RingId → ℕ
  | .cmd => trbCommandCompletion
  | .ep _ _ => trbTransferEvent

def Driver.complete (x : Driver) (r : RingId) (status high : ℕ) : Driver :=
  match x.outstanding r with
  | [] => x
  | o :: rest =>
    if o.asks r then
      if x.hasRoom then
        { x with outstanding := Function.update x.outstanding r rest }.post
          (eventTrb r.eventType o.address status high) (some o.serial)
      else x
    else { x with outstanding := Function.update x.outstanding r rest }

def Driver.portChange (x : Driver) (parameter status high : ℕ) : Driver :=
  if x.hasRoom then x.post (eventTrb trbPortStatusChange parameter status high) none else x

def Driver.poll (x : Driver) : Option (Event × Driver) :=
  let p := x.event x.eventIndex
  if p.trb.cycle ≠ x.eventCycle then none
  else
    some (p.event,
      if x.eventIndex + 1 = eventTrbs then
        { x with eventIndex := 0, eventCycle := !x.eventCycle, polled := x.polled + 1 }
      else { x with eventIndex := x.eventIndex + 1, polled := x.polled + 1 })

def Driver.defer (x : Driver) (e : Event) : Driver :=
  if x.deferred.length < deferredMax then { x with deferred := x.deferred ++ [e] }
  else { x with deferred := x.deferred.tail ++ [e] }

def takeDeferred (type trb : ℕ) : List Event → Option (Event × List Event)
  | [] => none
  | e :: rest =>
    if e.type ≠ type ∨ e.parameter ≠ trb then
      (takeDeferred type trb rest).map fun (out, kept) => (out, e :: kept)
    else some (e, rest)

def Driver.forget (x : Driver) (trb : ℕ) : Driver :=
  { x with
    deferred := x.deferred.filter fun e =>
      !(e.parameter = trb && (e.type = trbTransferEvent || e.type = trbCommandCompletion)) }

/-! ## Submitting -/

def Driver.nextSlot (x : Driver) (r : RingId) : ℕ :=
  ((x.rings r).base + (x.rings r).index * trbSize) % 2 ^ 64

/-- `ring_push` and the `forget` that follows each one. -/
def Driver.push (x : Driver) (r : RingId) (s : Submission) : Driver :=
  let slot := x.nextSlot r
  Driver.forget
    { x with
      rings := Function.update x.rings r ((x.rings r).push s).1
      outstanding := Function.update x.outstanding r
        (x.outstanding r ++ [⟨slot, s, x.serial⟩])
      last := Function.update x.last slot (some x.serial)
      serial := x.serial + 1 } slot

/-- An `int` made from an unsigned difference. -/
def asInt (n : Int) : Int := n.bmod (2 ^ 32)

def Event.failed (e : Event) : Bool := e.code ≠ success && e.code ≠ shortPacket

def Event.moved (e : Event) (length : ℕ) : Int := asInt (length - (e.status % 2 ^ 24 : ℕ))

def normalSubmission (buffer length : ℕ) : Submission where
  parameter := buffer
  status := length
  control := trbNormal * 2 ^ 10 + 2 ^ 5 + 2 ^ 2
  notLink := by decide

def zeroLengthSubmission : Submission where
  parameter := 0
  status := 0
  control := trbNormal * 2 ^ 10 + 2 ^ 5
  notLink := by decide

/-- The end of an operation whose last wait has its event. -/
def Driver.finishLast (x : Driver) (w : Wait) (e : Event) : Driver :=
  let x : Driver := { x with waiting := none, uses := x.uses ++ [⟨w.serial, e⟩] }
  match w.goal with
  | .command => { x with results := x.results ++ [if e.code ≠ success then -2 else 0] }
  | .control length =>
    { x with results := x.results ++ [if e.failed then -2 - (e.code : Int) else e.moved length] }
  | .reap device dci length =>
    { x with
      pending := Function.update x.pending device
        (Function.update (x.pending device) dci {})
      results := x.results ++ [if e.failed then -1 else e.moved length] }
  | .send _ _ length => { x with results := x.results ++ [if e.failed then -3 else asInt length] }
  | .sendEnd length => { x with results := x.results ++ [asInt length] }
  | .sent => { x with results := x.results ++ [if e.failed then -1 else 1] }

/-- `await_event` up to its first poll, for a wait that nothing follows. -/
def Driver.awaitLast (x : Driver) (w : Wait) : Driver :=
  match takeDeferred w.type w.trb x.deferred with
  | some (e, kept) => { x with deferred := kept }.finishLast w e
  | none => { x with waiting := some w }

def needsZeroLength (length : ℕ) : Bool := length ≠ 0 && length % 512 = 0

/-- The end of a wait that has its event. A full-packet send goes on with a second TRB. -/
def Driver.finish (x : Driver) (w : Wait) (e : Event) : Driver :=
  match w.goal with
  | .send device dci length =>
    if !e.failed && needsZeroLength length then
      let slot := x.nextSlot (.ep device dci)
      let serial := x.serial
      let x : Driver := { x with waiting := none, uses := x.uses ++ [⟨w.serial, e⟩] }
      (x.push (.ep device dci) zeroLengthSubmission).awaitLast
        { goal := .sendEnd length, type := trbTransferEvent, trb := slot, serial }
    else x.finishLast w e
  | _ => x.finishLast w e

/-- `await_event` up to its first poll. -/
def Driver.await (x : Driver) (w : Wait) : Driver :=
  match takeDeferred w.type w.trb x.deferred with
  | some (e, kept) => { x with deferred := kept }.finish w e
  | none => { x with waiting := some w }

def Goal.timedOut : Goal → Int
  | .command => -1
  | .control _ => -1
  | .reap _ _ _ => 0
  | .send _ _ _ => -2
  | .sendEnd _ => -4
  | .sent => 0

def Driver.giveUp (x : Driver) (w : Wait) : Driver :=
  { x with waiting := none, results := x.results ++ [w.goal.timedOut] }

/-! ## Operations -/

/-- What `xhci_send_start` returned: the driver's callers keep the address. -/
structure Handle where
  address : ℕ
  serial : ℕ

structure ControlRequest where
  requestType : ℕ
  request : ℕ
  value : ℕ
  index : ℕ
  buffer : ℕ
  length : ℕ

def ControlRequest.incoming (c : ControlRequest) : Bool := c.requestType / 2 ^ 7 % 2 = 1

def ControlRequest.setup (c : ControlRequest) : Submission where
  parameter := c.requestType % 2 ^ 8 + c.request % 2 ^ 8 * 2 ^ 8 + c.value % 2 ^ 16 * 2 ^ 16 +
    c.index % 2 ^ 16 * 2 ^ 32 + c.length % 2 ^ 16 * 2 ^ 48
  status := 8
  control := trbSetup * 2 ^ 10 +
    (if c.length = 0 then 0 else if c.incoming then 3 else 2) * 2 ^ 16 + 2 ^ 6
  notLink := by split_ifs <;> decide

def ControlRequest.data (c : ControlRequest) : Submission where
  parameter := c.buffer
  status := c.length
  control := trbData * 2 ^ 10 + if c.incoming then 2 ^ 16 else 0
  notLink := by split_ifs <;> decide

def ControlRequest.status (c : ControlRequest) : Submission where
  parameter := 0
  status := 0
  control := trbStatus * 2 ^ 10 + (if c.incoming then 0 else 2 ^ 16) + 2 ^ 5
  notLink := by split_ifs <;> decide

/-- The TRBs of a control transfer, the last of which asks for an event. -/
def ControlRequest.first (c : ControlRequest) : List Submission :=
  if c.length ≠ 0 then [c.setup, c.data] else [c.setup]

inductive Op where
  | command (s : Submission)
  | control (device : ℕ) (c : ControlRequest)
  | post (device dci buffer length : ℕ)
  | reap (device dci length : ℕ)
  | send (device dci buffer length : ℕ)
  | sendStart (device dci buffer length : ℕ)
  | sent (handle : Handle)

def Driver.unusable (x : Driver) (device dci : ℕ) : Bool :=
  maxDci ≤ dci || (x.rings (.ep device dci)).base = 0

def Driver.returns (x : Driver) (result : Int) : Driver :=
  { x with results := x.results ++ [result] }

def Driver.submit (x : Driver) (r : RingId) (s : Submission) (goal : Goal) : Driver :=
  (x.push r s).await
    { goal, type := r.eventType, trb := x.nextSlot r, serial := x.serial }

/-- An operation up to its first poll. The result of `xhci_send_start` is its address. -/
def Driver.start (x : Driver) : Op → Driver
  | .command s => x.submit .cmd s .command
  | .control device c =>
    (c.first.foldl (fun x s => x.push (.ep device 1) s) x).submit (.ep device 1) c.status
      (.control c.length)
  | .post device dci buffer length =>
    if x.unusable device dci then x.returns (-1)
    else if (x.pending device dci).address ≠ 0 then x.returns 0
    else
      { x.push (.ep device dci) (normalSubmission buffer length) with
        pending := Function.update x.pending device
          (Function.update (x.pending device) dci ⟨x.nextSlot (.ep device dci), x.serial⟩)
        results := x.results ++ [1] }
  | .reap device dci length =>
    if maxDci ≤ dci ∨ (x.pending device dci).address = 0 then x.returns 0
    else
      x.await {
        goal := .reap device dci length
        type := trbTransferEvent
        trb := (x.pending device dci).address
        serial := (x.pending device dci).serial }
  | .send device dci buffer length =>
    if x.unusable device dci then x.returns (-1)
    else x.submit (.ep device dci) (normalSubmission buffer length) (.send device dci length)
  | .sendStart device dci buffer length =>
    if x.unusable device dci || length = 0 || length % 512 = 0 then x.returns 0
    else
      (x.push (.ep device dci) (normalSubmission buffer length)).returns
        (x.nextSlot (.ep device dci))
  | .sent handle =>
    x.await {
      goal := .sent
      type := trbTransferEvent
      trb := handle.address
      serial := handle.serial
      polls := some eventTrbs }

def Driver.pollFor (x : Driver) (w : Wait) : Driver :=
  if w.polls = some 0 then x.giveUp w
  else
    match x.poll with
    | none => if w.polls.isSome then x.giveUp w else
      { x with waiting := some { w with empty := true } }
    | some (e, x) =>
      if e.type = w.type ∧ e.parameter = w.trb then x.finish w e
      else
        { x.defer e with
          waiting := some { w with polls := w.polls.map (· - 1), empty := false } }

inductive Act where
  | start (op : Op)
  | poll
  | expire
  | complete (r : RingId) (status high : ℕ)
  | portChange (parameter status high : ℕ)

/-- The driver starts nothing while it waits, and a deadline is only looked at after a poll
that found nothing. -/
def Driver.step (x : Driver) : Act → Driver
  | .start op => if x.waiting.isNone then x.start op else x
  | .poll =>
    match x.waiting with
    | none => x
    | some w => x.pollFor w
  | .expire =>
    match x.waiting with
    | none => x
    | some w => if w.empty then x.giveUp w else x
  | .complete r status high => x.complete r status high
  | .portChange parameter status high => x.portChange parameter status high

def Driver.run (x : Driver) (acts : List Act) : Driver := acts.foldl Driver.step x

end Q1n1.Xhci
