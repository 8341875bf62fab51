import Q1n1.Model.Pmic.Router

/-! # The link as the router sees it

`platform/uefi/glink-smem.c` at the level of whole frames. A poll hands over the frames that have
arrived, in order and at most 256 of them; a send polls before it publishes. The remote, the clock
and what can fail are up to the turns of the world, one before each access. -/

namespace Q1n1.Pmic

def framesPerPoll : ℕ := 256

inductive LinkError
  | failed
  | closed
  | timedOut
  deriving DecidableEq

/-- A frame of the remote. One that ends a message on the client's channel carries it; `answers`
numbers the request that the remote meant it for, which no code reads. -/
inductive Frame
  | other
  | message (data : List UInt8) (answers : Option ℕ)
  deriving DecidableEq

def Frame.data? : Frame → Option (List UInt8)
  | .other => none
  | .message data _ => some data

def Frame.answers? : Frame → Option ℕ
  | .other => none
  | .message _ answers => answers

/-- What the outside does before an access: the time, the frames that arrive, whether an intent
fits, whether the channel was closed, whether our FIFO has room, for a request and for the replies
of a background poll, and whether the link breaks here. -/
structure Turn where
  now : ℕ
  frames : List Frame := []
  intent : Bool := true
  closed : Bool := false
  room : Bool := true
  behind : Bool := false
  breaks : Bool := false
  deriving DecidableEq

structure Arrival where
  frame : Frame
  time : ℕ
  published : ℕ
  deriving DecidableEq

structure Wire where
  /-- every frame that arrived in this session, and how many of them were read -/
  stream : List Arrival := []
  read : ℕ := 0
  /-- the requests published in this session -/
  requests : List (List UInt8) := []
  clock : ℕ := 0
  failed : Bool := false
  last : Turn := { now := 0 }
  turns : List Turn := []
  /-- more frames were waiting at some time than one poll handles -/
  crowded : Bool := false
  deriving DecidableEq

def Wire.waiting (w : Wire) : List Arrival := w.stream.drop w.read

def Wire.inbox (w : Wire) : List (List UInt8) :=
  (w.stream.take w.read).filterMap (·.frame.data?)

/-- The world takes its turn; the clock does not go back. -/
def Wire.turn (w : Wire) (t : Turn) : Wire :=
  let clock := max w.clock t.now
  let stream := w.stream ++ t.frames.map fun f => ⟨f, clock, w.requests.length⟩
  { w with
    stream := stream
    clock := clock
    last := t
    crowded := w.crowded || decide (framesPerPoll < stream.length - w.read) }

def Wire.take (w : Wire) : Wire := { w with read := w.read + 1 }

def Wire.fail (w : Wire) : Wire := { w with failed := true }

def Wire.publish (w : Wire) (data : List UInt8) : Wire :=
  { w with requests := w.requests ++ [data] }

/-- The surroundings of the link: their turns, and more rounds than a waiting loop takes. -/
structure World where
  turn : Cut Wire Unit
  rounds : Wire → ℕ

/-- The turns of a schedule, which may end while a call waits. -/
def scheduled : World where
  turn := fun w =>
    match w.turns with
    | [] => (none, w)
    | t :: rest => (some (), { w.turn t with turns := rest })
  rounds := fun w => w.turns.length

/-- A world that acts on what it sees. -/
def reacting (react : Wire → Turn) (rounds : ℕ) : World where
  turn := Cut.modify fun w => w.turn (react w)
  rounds := fun _ => rounds

namespace World

variable (e : World)

def breakIf (rest : Cut Wire (Except LinkError α)) : Cut Wire (Except LinkError α) := do
  e.turn
  let w ← Cut.get
  if w.last.breaks then do
    Cut.modify Wire.fail
    return .error .failed
  else rest

/-! ## Polling -/

/-- Handle at most `limit` more frames. The link may break before a frame is handled, or after. -/
def pollFrames (servicing : Bool) (handled : ℕ) : ℕ → Cut Wire (Except LinkError ℕ)
  | 0 => return .ok handled
  | limit + 1 => e.breakIf do
      let w ← Cut.get
      if w.stream.length ≤ w.read then return .ok handled
      else if servicing ∧ w.last.behind then return .ok handled
      else do
        Cut.modify Wire.take
        e.breakIf (pollFrames servicing (handled + 1) limit)

def pollUpTo (servicing : Bool) (limit : ℕ) : Cut Wire (Except LinkError ℕ) := do
  let w ← Cut.get
  if w.failed then return .error .failed else e.pollFrames servicing 0 limit

def poll : Cut Wire (Except LinkError ℕ) := e.pollUpTo false framesPerPoll

def service (maxFrames : ℕ) : Cut Wire (Except LinkError ℕ) :=
  e.pollUpTo true (if maxFrames = 0 then 1 else min maxFrames framesPerPoll)

def now : Cut Wire ℕ := do
  e.turn
  Cut.gets Wire.clock

def relax : Cut Wire Unit := e.turn

def awaitIntent (deadline : ℕ) : ℕ → Cut Wire (Except LinkError Unit)
  | 0 => Cut.stop
  | bound + 1 => do
    match ← e.poll with
    | .error x => return .error x
    | .ok _ => do
      let w ← Cut.get
      if w.last.closed then return .error .closed
      else if w.last.intent then return .ok ()
      else e.breakIf do
        let time ← e.now
        if deadline < time then return .error .timedOut
        else do
          e.relax
          awaitIntent deadline bound

def awaitRoom (deadline : ℕ) : ℕ → Cut Wire (Except LinkError Unit)
  | 0 => Cut.stop
  | bound + 1 => e.breakIf do
      let w ← Cut.get
      if w.last.room then return .ok ()
      else do
        let time ← e.now
        if deadline < time then return .error .timedOut
        else do
          match ← e.poll with
          | .error x => return .error x
          | .ok _ => do
            e.relax
            awaitRoom deadline bound

/-- The request is in the FIFO; the doorbell may still fault. -/
def publish (data : List UInt8) : Cut Wire (Except LinkError Unit) := do
  Cut.modify (·.publish data)
  e.breakIf (return .ok ())

def send (data : List UInt8) (deadline : ℕ) : Cut Wire (Except LinkError Unit) := do
  let w ← Cut.get
  if w.failed then return .error .failed
  else if w.last.closed then return .error .closed
  else do
    match ← e.awaitIntent deadline (e.rounds w + 1) with
    | .error x => return .error x
    | .ok _ => do
      let w ← Cut.get
      match ← e.awaitRoom deadline (e.rounds w + 1) with
      | .error x => return .error x
      | .ok _ => e.publish data

def ops : LinkOps Wire LinkError where
  poll := e.poll
  send := e.send
  now := e.now
  relax := e.relax
  inbox := Wire.inbox
  rounds := e.rounds

end World

/-- What a client does in a session. -/
inductive Op
  | poll
  | service (maxFrames : ℕ)
  | sample (reg size deadline : ℕ)
  | read (reg size deadline : ℕ)
  | battery (deadline : ℕ)
  deriving DecidableEq

def Op.run (e : World) : Op → Cut (Client Wire) Unit
  | .poll => do
    let _ ← onLink e.ops e.poll
    return ()
  | .service maxFrames => do
    let _ ← onLink e.ops (e.service maxFrames)
    return ()
  | .sample reg size deadline => do
    let _ ← Pmic.sample e.ops reg size deadline
    return ()
  | .read reg size deadline => do
    let _ ← Pmic.read e.ops reg size deadline
    return ()
  | .battery deadline => do
    let _ ← Pmic.battery e.ops deadline
    return ()

/-- A sequence of calls. It ends early when the schedule ends inside one of them. -/
def runOps (e : World) : List Op → Cut (Client Wire) Unit
  | [] => return ()
  | op :: rest => do
    op.run e
    runOps e rest

def fresh (turns : List Turn) : Client Wire := { link := { turns := turns }, router := {} }

end Q1n1.Pmic
