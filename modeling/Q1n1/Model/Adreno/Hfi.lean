import Mathlib.Data.Nat.Bitwise
import Q1n1.Library.Cut
import Q1n1.Library.Ring

/-! # The host and the GMU on the HFI queues

`hfi_send`, `hfi_wait_ack` and `cmd_queue_drained` of `tools/a16gpu_stage3.py`, run by any
number of tool processes against one GMU boot. The GMU acts between any two accesses of the
host: it reads whole messages in order, and answers each at most once, in order and
arbitrarily late. Queues are rings of dwords; of the host record only `hfi_seq` matters. -/

namespace Q1n1.Adreno.Hfi

def queueDwords : ℕ := 1024
def msgError : ℕ := 100
def msgAck : ℕ := 126
def msgTypeAck : ℕ := 1
def msgq : ℕ := 1

structure Queue where
  data : ℕ → ℕ
  size : ℕ
  read : ℕ
  write : ℕ

/-- A queue as `hfi_table_image` sets it up. -/
def Queue.blank : Queue := { data := fun _ => 0, size := queueDwords, read := 0, write := 0 }

/-- A command for the GMU, of at most 255 dwords with its header. -/
structure Message where
  id : ℕ
  payload : List ℕ
  id_lt : id < 256
  short : payload.length < 255

def hfiHeader (seq id dwords : ℕ) : ℕ :=
  (seq &&& 0xfff) <<< 20 ||| 0 <<< 16 ||| (dwords &&& 0xff) <<< 8 ||| id

def Message.words (m : Message) (seq : ℕ) : List ℕ :=
  hfiHeader seq m.id (1 + m.payload.length) :: m.payload

/-- What the GMU posted, and the message it answers. -/
structure Reply where
  answers : Option ℕ
  words : List ℕ
  deriving DecidableEq

inductive GmuAct
  | read
  | answer (message : ℕ) (words : List ℕ)
  | report (words : List ℕ)

/-- Before an access of the host the GMU acts; `value` is what a register reads then, and
`late` whether the deadline of the poll has passed. -/
structure Turn where
  gmu : List GmuAct
  value : ℕ
  late : Bool

inductive Stop
  | corrupt
  | notDrained
  | noRoom (space : ℕ)
  | pollTimeout
  | badSize (dwords : ℕ)
  | error (code : ℕ)
  | notMet
  | noAck (seq : ℕ)
  deriving DecidableEq

/-- The queues, `hfi_seq` in the record and in the running process, the messages queued so far
and those the GMU has read, what it posted, and the responses the host has taken. -/
structure World where
  cmd : Queue
  rsp : Queue
  record : ℕ
  hfiSeq : ℕ
  queued : List (List ℕ)
  got : List (List ℕ)
  posted : List Reply
  taken : List (List ℕ)
  turns : List Turn
  stopped : Option Stop

/-! ## The GMU -/

def dwordsOf (header : ℕ) : ℕ := header >>> 8 &&& 0xff

/-- `((at + 3) & ~3) % size`. -/
def align4 (size i : ℕ) : ℕ := (i + 3) / 4 * 4 % size

/-- The GMU reads the next message, if there is one. -/
def World.gmuRead (w : World) : World :=
  if w.cmd.read = w.cmd.write then w
  else
    let dwords := dwordsOf (w.cmd.data w.cmd.read)
    { w with
      cmd := { w.cmd with read := align4 w.cmd.size ((w.cmd.read + dwords) % w.cmd.size) }
      got := w.got ++ [Ring.copyOut w.cmd.size w.cmd.data w.cmd.read dwords] }

/-- The words are one response, and there is room for it. -/
def World.Fits (w : World) (words : List ℕ) : Prop :=
  0 < words.length ∧ words.length < 256 ∧ dwordsOf (words.headD 0) = words.length ∧
    Ring.dist w.rsp.size w.rsp.read w.rsp.write + (words.length + 3) / 4 * 4 < w.rsp.size

/-- An answer follows the answers so far, is to a message that was read, and returns its
header. -/
def World.MayAnswer (w : World) (message : ℕ) (words : List ℕ) : Prop :=
  (∀ r ∈ w.posted, ∀ i ∈ r.answers, i < message) ∧
    ∃ m ∈ w.got[message]?, ∀ header ∈ words[1]?, header = m.headD 0

instance (w : World) (words : List ℕ) : Decidable (w.Fits words) :=
  inferInstanceAs (Decidable (_ ∧ _))

instance (w : World) (message : ℕ) (words : List ℕ) : Decidable (w.MayAnswer message words) :=
  inferInstanceAs (Decidable (_ ∧ _))

def World.post (w : World) (r : Reply) : World :=
  { w with
    rsp := { w.rsp with
      data := (Ring.copyIn w.rsp.size w.rsp.data w.rsp.write r.words).1
      write := align4 w.rsp.size ((w.rsp.write + r.words.length) % w.rsp.size) }
    posted := w.posted ++ [r] }

def World.gmuAct (w : World) : GmuAct → World
  | .read => w.gmuRead
  | .answer message words =>
    if w.Fits words ∧ w.MayAnswer message words then w.post ⟨some message, words⟩ else w
  | .report words =>
    if w.Fits words ∧ words.headD 0 &&& 0xff = msgError then w.post ⟨none, words⟩ else w

/-! ## The host -/

abbrev Op := Cut World

def raise {α : Type} (reason : Stop) : Op α := do
  Cut.modify fun w => { w with stopped := some reason }
  Cut.stop

/-- An access of the host; the process ends where the turns do. -/
def turn : Op Turn := do
  match (← Cut.get).turns with
  | [] => Cut.stop
  | t :: turns =>
    Cut.modify fun w => t.gmu.foldl World.gmuAct { w with turns := turns }
    pure t

/-- The loop of `cmd_queue_drained`: at most `n` more reads, `first` when there was none yet. -/
def drainLoop : (n : ℕ) → (first : Bool) → Op Queue
  | 0, _ => raise .notDrained
  | n + 1, first => do
    let t ← turn
    let q ← Cut.gets World.cmd
    if q.size ≠ queueDwords ∨ q.size ≤ q.read ∨ q.size ≤ q.write ∨ q.read % 4 ≠ 0 ∨
        q.write % 4 ≠ 0 then
      raise .corrupt
    else if q.read = q.write then pure q
    else if !first && t.late then raise .notDrained
    else drainLoop n false

def cmdQueueDrained : Op Queue := drainLoop 50 true

/-- The polls of `GMU2HOST_INTR_INFO`. -/
def pollMsgq : (n : ℕ) → (first : Bool) → Op Unit
  | 0, _ => raise .pollTimeout
  | n + 1, first => do
    let t ← turn
    if t.value &&& msgq = msgq then pure ()
    else if !first && t.late then raise .pollTimeout
    else pollMsgq n false

def isAck (seq id : ℕ) (words : List ℕ) : Prop :=
  (words.headD 0 &&& 0xff = msgAck ∨
    words.headD 0 >>> 16 &&& 0xf = msgTypeAck ∧ words.headD 0 &&& 0xff = id) ∧
  3 ≤ words.length ∧ words.getD 1 0 >>> 20 &&& 0xfff = seq ∧ words.getD 1 0 &&& 0xff = id

instance (seq id : ℕ) (words : List ℕ) : Decidable (isAck seq id words) :=
  inferInstanceAs (Decidable (_ ∧ _))

/-- `rsp queue read_index` is stored: the response is taken. -/
def World.take (w : World) (index : ℕ) (words : List ℕ) : World :=
  { w with rsp := { w.rsp with read := index }, taken := w.taken ++ [words] }

/-- The inner loop of `hfi_wait_ack`: at most `n` more responses. `none` when the queue is
empty. -/
def readResponses (seq id : ℕ) : (n : ℕ) → Op (Option (List ℕ))
  | 0 => raise .notMet
  | n + 1 => do
    let _ ← turn
    let q ← Cut.gets World.rsp
    if q.read = q.write then pure none
    else if q.size ≠ queueDwords ∨ q.size ≤ q.read ∨ q.size ≤ q.write then raise .corrupt
    else do
      let _ ← turn
      let page ← Cut.gets fun w => w.rsp.data
      let dwords := dwordsOf (page q.read)
      if dwords < 1 ∨ 19 < dwords then raise (.badSize dwords)
      else do
        let words := Ring.copyOut q.size page q.read dwords
        let _ ← cmdQueueDrained
        let _ ← turn
        Cut.modify fun w => w.take (align4 q.size ((q.read + dwords) % q.size)) words
        if words.headD 0 &&& 0xff = msgError then readResponses seq id n
        else if ¬isAck seq id words then readResponses seq id n
        else if words.getD 2 0 ≠ 0 then raise (.error (words.getD 2 0))
        else pure (some words)

def waitRounds (seq id : ℕ) : (n : ℕ) → Op (List ℕ)
  | 0 => raise (.noAck seq)
  | n + 1 => do
    pollMsgq 2000 true
    let _ ← turn
    match ← readResponses seq id (queueDwords / 4 + 1) with
    | some words => pure words
    | none => waitRounds seq id n

def hfiWaitAck (seq id : ℕ) : Op (List ℕ) := waitRounds seq id 4

def padFrom (size : ℕ) : (fuel index : ℕ) → List ℕ
  | 0, _ => []
  | fuel + 1, index =>
    if index % 4 = 0 then [] else 0xfafafafa :: padFrom size fuel ((index + 1) % size)

def indexed (size : ℕ) : (index : ℕ) → List ℕ → List (ℕ × ℕ)
  | _, [] => []
  | index, word :: words => (index, word) :: indexed size ((index + 1) % size) words

/-- One more word for the contiguous runs, of which a message that wraps has two. -/
def addRun (runs : List (ℕ × List ℕ)) (p : ℕ × ℕ) : List (ℕ × List ℕ) :=
  match runs.getLast? with
  | some run =>
    if p.1 = run.1 + run.2.length then runs.dropLast ++ [(run.1, run.2 ++ [p.2])]
    else runs ++ [(p.1, [p.2])]
  | none => [(p.1, [p.2])]

def storeRun (data : ℕ → ℕ) (run : ℕ × List ℕ) : ℕ → ℕ := fun i =>
  if run.1 ≤ i ∧ i < run.1 + run.2.length then run.2.getD (i - run.1) 0 else data i

def writeRuns : List (ℕ × List ℕ) → Op Unit
  | [] => pure ()
  | run :: runs => do
    let _ ← turn
    Cut.modify fun w => { w with cmd := { w.cmd with data := storeRun w.cmd.data run } }
    writeRuns runs

/-- `cmd queue write_index` is stored: the message is queued. -/
def World.enqueue (w : World) (index : ℕ) (words : List ℕ) : World :=
  { w with cmd := { w.cmd with write := index }, queued := w.queued ++ [words] }

def writeHost : Op Unit := do
  let _ ← turn
  Cut.modify fun w => { w with record := w.hfiSeq }

def hfiSend (m : Message) : Op (List ℕ) := do
  let wordsNeeded := 1 + m.payload.length
  let q ← cmdQueueDrained
  let space := (q.read + q.size - q.write - 1) % q.size
  if space < wordsNeeded then raise (.noRoom space)
  else do
    Cut.modify fun w => { w with hfiSeq := (w.hfiSeq + 1) % 0xfff }
    let seq ← Cut.gets World.hfiSeq
    let words := m.words seq
    let padding := padFrom q.size 4 ((q.write + words.length) % q.size)
    writeRuns ((indexed q.size q.write (words ++ padding)).foldl addRun [])
    let _ ← turn
    Cut.modify fun w => w.enqueue ((q.write + (words ++ padding).length) % q.size) words
    let _ ← turn
    let response ← hfiWaitAck seq m.id
    writeHost
    pure response

/-- What the tools do: a run starts and reads the record, a message is sent, the record is
written at some other point. -/
inductive Act
  | start
  | send (m : Message)
  | save

def readHost : Op Unit := do
  let _ ← turn
  Cut.modify fun w => { w with hfiSeq := w.record }

def World.perform (w : World) : Act → World
  | .start => (readHost w).2
  | .send m => (hfiSend m w).2
  | .save => (writeHost w).2

/-- The world after `gmu-boot`, with the turns of all that follows. -/
def boot (turns : List Turn) : World where
  cmd := .blank
  rsp := .blank
  record := 0
  hfiSeq := 0
  queued := []
  got := []
  posted := []
  taken := []
  turns := turns
  stopped := none

def after (turns : List Turn) (session : List Act) : World :=
  session.foldl World.perform (boot turns)

end Q1n1.Adreno.Hfi
