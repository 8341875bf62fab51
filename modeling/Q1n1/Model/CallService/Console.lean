import Q1n1.Library.Memory
import Q1n1.Model.CallService.Stop

/-! # The console stream of a long call

`platform/uefi/call-service.c`: `q1n1_console_datagram`. The payload's ring and staging
buffer are runs of its memory; the view is a record beside that memory. -/

namespace Q1n1.CallService

open Bytes

def consoleRequestMagic : ℕ := 0x43533151
def consoleReplyMagic : ℕ := 0x44533151
def consoleVersion : ℕ := 1
def consoleExchange : ℕ := 1
def consoleRequestHeader : ℕ := 56
def consoleReplyHeader : ℕ := 72
def consoleInMax : ℕ := 1024
def consoleReplyMax : ℕ := 1440
def consoleOutMax : ℕ := consoleReplyMax - consoleReplyHeader - 4
def consoleViewMagic : ℕ := 0x3156534e4f433151
def consoleViewVersion : ℕ := 1

def consoleTakeover : ℕ := 1
def consolePeek : ℕ := 2
def consoleFArmed : ℕ := 1
def consoleFView : ℕ := 2
def consoleFOwner : ℕ := 4
def consoleFGap : ℕ := 8

def consoleEOwner : Int := -6
def consoleENoView : Int := -7

/-- What the payload fills in before each poll. -/
structure Setup where
  magic : ℕ := consoleViewMagic
  version : ℕ := consoleViewVersion
  outBase : ℕ
  outSize : ℕ
  outProduced : ℕ
  inBase : ℕ
  inSize : ℕ
  inRoom : ℕ

structure View extends Setup where
  inFill : ℕ := 0
  inHeld : ℕ := 0
  owner : ℕ := 0
  ownerChanges : ℕ := 0
  requests : ℕ := 0
  refused : ℕ := 0
  inDuplicate : ℕ := 0
  inGaps : ℕ := 0
  inOverflow : ℕ := 0
  outServed : ℕ := 0
  outGaps : ℕ := 0
  pollsSeen : ℕ := 0

/-- `console_view_ok` of a view that is there. -/
def View.ok (v : View) : Bool :=
  v.magic = consoleViewMagic && v.version = consoleViewVersion && v.outBase != 0 &&
    v.outSize != 0 && v.inBase != 0 && v.inSize != 0 && v.inRoom ≤ v.inSize &&
    v.inFill ≤ v.inRoom

def consoleRequest (data : List UInt8) : Bool :=
  4 ≤ data.length && getLe 4 data = consoleRequestMagic

/-- The fields of a console request; the first three are read from short datagrams too. -/
structure ConsoleRequest where
  op : ℕ
  nonce : ℕ
  inLength : ℕ
  session : ℕ
  owner : ℕ
  inOffset : ℕ
  outAck : ℕ
  outMax : ℕ
  flags : ℕ
  input : List UInt8

def consoleFields (data : List UInt8) : ConsoleRequest :=
  let inLength := if 50 ≤ data.length then getLe 2 (data.drop 48) else 0
  { op := if 8 ≤ data.length then getLe 2 (data.drop 6) else 0
    nonce := if 16 ≤ data.length then getLe 8 (data.drop 8) else 0
    inLength
    session := getLe 8 (data.drop 16)
    owner := getLe 8 (data.drop 24)
    inOffset := getLe 8 (data.drop 32)
    outAck := getLe 8 (data.drop 40)
    outMax := getLe 2 (data.drop 50)
    flags := getLe 4 (data.drop 52)
    input := (data.drop consoleRequestHeader).take inLength }

def ConsoleRequest.peek (r : ConsoleRequest) : Bool := r.flags &&& consolePeek != 0

def ConsoleRequest.takeover (r : ConsoleRequest) : Bool := r.flags &&& consoleTakeover != 0

def consoleMalformed (data : List UInt8) : Bool :=
  let r := consoleFields data
  data.length < consoleRequestHeader + 4 || getLe 2 (data.drop 4) != consoleVersion ||
    r.op != consoleExchange || consoleInMax < r.inLength ||
    data.length != consoleRequestHeader + r.inLength + 4 ||
    crc32 (data.take (consoleRequestHeader + r.inLength)) !=
      getLe 4 (data.drop (consoleRequestHeader + r.inLength)) ||
    4 ≤ r.flags || (r.peek && (r.inLength != 0 || r.takeover)) || r.owner = 0

/-- `console_reply`, with the output bytes already chosen. -/
def CallState.consoleReply (s : CallState) (op nonce : ℕ) (status : Int) (flags : ℕ)
    (v : Option View) (outOffset : ℕ) (out : List UInt8) : CallState × List UInt8 :=
  let body := putLe 4 consoleReplyMagic ++ putLe 2 consoleVersion ++ putLe 2 op ++
    putLe 8 nonce ++ putLe 8 (if s.armed then s.session else 0) ++
    putLe 4 (status % 2 ^ 32).toNat ++ putLe 4 (flags ||| flag s.armed consoleFArmed) ++
    putLe 8 ((v.map (·.inHeld)).getD 0) ++ putLe 8 outOffset ++
    putLe 8 ((v.map (·.outProduced)).getD 0) ++ putLe 8 s.polls ++ putLe 2 out.length ++
    putLe 2 ((v.map fun v => v.inRoom - v.inFill).getD 0) ++ putLe 4 0 ++ out
  ({ s with lastStatus := (status % 2 ^ 64).toNat }, body ++ putLe 4 (crc32 body))

/-- Input: append only the bytes that continue what is held. -/
def View.stage (v : View) (m : Memory) (r : ConsoleRequest) : View × Memory :=
  if r.inLength = 0 then (v, m)
  else
    let end_ := (r.inOffset + r.inLength) % 2 ^ 64
    if end_ < r.inOffset ∨ v.inHeld < r.inOffset then
      ({ v with inGaps := bump v.inGaps }, m)
    else if end_ ≤ v.inHeld then ({ v with inDuplicate := bump v.inDuplicate }, m)
    else
      let skip := v.inHeld - r.inOffset
      let want := r.inLength - skip
      let room := v.inRoom - v.inFill
      let take := if want < room then want else room
      ({ v with
          inDuplicate := if skip ≠ 0 then bump v.inDuplicate else v.inDuplicate
          inOverflow := if take < want then bump v.inOverflow else v.inOverflow
          inFill := v.inFill + take
          inHeld := v.inHeld + take },
        m.store (v.inBase + v.inFill) ((r.input.drop skip).take take))

/-- The first output byte of the reply, and whether bytes were skipped to reach it. -/
def View.outStart (v : View) (r : ConsoleRequest) : ℕ × Bool :=
  let start := if r.outAck < v.outProduced then r.outAck else v.outProduced
  if v.outSize < v.outProduced - start then (v.outProduced - v.outSize, true) else (start, false)

def View.outCount (v : View) (r : ConsoleRequest) (capacity start : ℕ) : ℕ :=
  let limit := capacity - consoleReplyHeader - 4
  let limit := if consoleOutMax < limit then consoleOutMax else limit
  let limit := if r.outMax ≠ 0 ∧ r.outMax < limit then r.outMax else limit
  if v.outProduced - start < limit then v.outProduced - start else limit

/-- The loop that copies `count` bytes out of the ring, from position `at_` on. -/
def View.outBytes (v : View) (m : Memory) : ℕ → ℕ → List UInt8
  | _, 0 => []
  | at_, count + 1 =>
    m (v.outBase + at_) :: v.outBytes m (if at_ + 1 = v.outSize then 0 else at_ + 1) count

/-- The owner after a request, or nothing when the console is somebody else's. -/
def View.claim (v : View) (r : ConsoleRequest) : Option View :=
  if !r.peek && v.owner != r.owner then
    if v.owner != 0 && !r.takeover then none
    else
      some { v with
        ownerChanges := if v.owner != 0 then bump v.ownerChanges else v.ownerChanges
        owner := r.owner }
  else some v

/-- What is left of `q1n1_console_datagram` once the request is the owner's or a peek. -/
def View.exchange (v : View) (m : Memory) (s : CallState) (r : ConsoleRequest) (capacity : ℕ) :
    CallState × View × Memory × List UInt8 :=
  let (v, m) := v.stage m r
  let (start, gap) := v.outStart r
  let v := { v with outGaps := if gap then bump v.outGaps else v.outGaps }
  let count := v.outCount r capacity start
  let out := v.outBytes m (start % v.outSize) count
  let v := { v with outServed := (v.outServed + count) % 2 ^ 64 }
  let flags := consoleFView ||| flag (!r.peek) consoleFOwner ||| flag gap consoleFGap
  let (s, reply) := s.consoleReply r.op r.nonce stopOk flags (some v) start out
  (s, v, m, reply)

/-- The part of `q1n1_console_datagram` for an armed session with a good view. -/
def View.serve (v : View) (m : Memory) (s : CallState) (r : ConsoleRequest) (capacity : ℕ) :
    CallState × View × Memory × List UInt8 :=
  let v := { v with requests := bump v.requests }
  match v.claim r with
  | none =>
    let v := { v with refused := bump v.refused }
    let (s, reply) := s.consoleReply r.op r.nonce consoleEOwner consoleFView (some v) 0 []
    (s, v, m, reply)
  | some v => v.exchange m s r capacity

/-- The status before the view is used; `good` says that there is a good view. -/
def CallState.consoleStatus (s : CallState) (r : ConsoleRequest) (good : Bool) : Int :=
  if !s.armed then stopENotArmed
  else if r.session ≠ s.session then stopESession
  else if !good then consoleENoView
  else stopOk

/-- `q1n1_console_datagram` against the view `v`, `shown` when the pointer to it is not null. -/
def CallState.consoleDatagram (s : CallState) (shown : Bool) (v : View) (m : Memory)
    (data : List UInt8) (capacity : ℕ) : CallState × View × Memory × List UInt8 :=
  let s := { s with datagrams := bump s.datagrams }
  let r := consoleFields data
  if !consoleRequest data || capacity < consoleReplyHeader + 4 || 0xffff < capacity then
    ({ s with malformed := bump s.malformed }, v, m, [])
  else if consoleMalformed data then
    let (s, reply) := CallState.consoleReply { s with malformed := bump s.malformed }
      r.op r.nonce stopEMalformed 0 none 0 []
    (s, v, m, reply)
  else
    let good := shown && v.ok
    let status := s.consoleStatus r good
    if status ≠ 0 then
      let v := if good then { v with refused := bump v.refused } else v
      let (s, reply) := CallState.consoleReply { s with refused := bump s.refused }
        r.op r.nonce status 0 (if good then some v else none) 0 []
      (s, v, m, reply)
    else v.serve m s r capacity

end Q1n1.CallService
