import Q1n1.Library.Bytes

/-! # The stop port of a long call

`platform/uefi/call-service.c`: arming a session, the stop datagrams that latch a request
for it, and the take that hands the latch to the payload. A datagram is the list of its
bytes; the null pointer the source also guards against behaves as the empty one. -/

namespace Q1n1.CallService

open Bytes

def stopRequestMagic : ℕ := 0x52533151
def stopReplyMagic : ℕ := 0x41533151
def stopLatchMagic : ℕ := 0x3154414c52533151
def callStateMagic : ℕ := 0x4c4c4143314e3151
def stopVersion : ℕ := 1
def stopQuery : ℕ := 1
def stopStop : ℕ := 2
def stopRequestBytes : ℕ := 104
def stopDelayLimit : ℕ := 3600
def stopReasonMax : ℕ := 0xffff
def stopLatchBytes : ℕ := 112
def callStateBytes : ℕ := 256

def stopOk : Int := 0
def stopAlready : Int := 1
def stopEMalformed : Int := -1
def stopENotArmed : Int := -2
def stopESession : Int := -3
def stopEReason : Int := -4
def stopEDelay : Int := -5

def callEArgs : ℕ := 0xfffffffffffffffe

def stopArmed : ℕ := 1
def stopLatched : ℕ := 2
def stopMine : ℕ := 4

/-- A counter that sticks at its largest value. -/
def bump (n : ℕ) : ℕ := if n = 2 ^ 64 - 1 then n else n + 1

/-- A C condition added as a flag bit. -/
def flag (b : Bool) (bit : ℕ) : ℕ := if b then bit else 0

/-- One of the eight rounds per byte of the checksum. -/
def crc32Bit (crc : UInt32) : UInt32 := (crc >>> 1) ^^^ (0xedb88320 &&& (0 - (crc &&& 1)))

def crc32Byte (crc : UInt32) (b : UInt8) : UInt32 := Nat.repeat crc32Bit 8 (crc ^^^ b.toUInt32)

def crc32 (data : List UInt8) : ℕ := (~~~(data.foldl crc32Byte 0xffffffff)).toNat

/-- `struct q1n1_call_state`; the text of the latch is its eight words. -/
structure CallState where
  magic : ℕ := callStateMagic
  version : ℕ := 1
  size : ℕ := callStateBytes
  armed : Bool := false
  session : ℕ := 0
  arms : ℕ := 0
  disarms : ℕ := 0
  polls : ℕ := 0
  datagrams : ℕ := 0
  queries : ℕ := 0
  stops : ℕ := 0
  malformed : ℕ := 0
  refused : ℕ := 0
  replies : ℕ := 0
  replyFailures : ℕ := 0
  droppedProxy : ℕ := 0
  latched : Bool := false
  taken : Bool := false
  latchNonce : ℕ := 0
  latchReason : ℕ := 0
  latchDelay : ℕ := 0
  latchTicks : ℕ := 0
  lastStatus : ℕ := 0
  text : List ℕ := List.replicate 8 0
  recoveries : ℕ := 0

def callInit : CallState := {}

def CallState.arm (s : CallState) (session : ℕ) : CallState × ℕ :=
  if session = 0 then (s, callEArgs)
  else
    ({ s with
        session, latched := false, taken := false, latchNonce := 0, latchReason := 0,
        latchDelay := 0, latchTicks := 0, text := List.replicate 8 0, armed := true,
        arms := bump s.arms }, 0)

def CallState.disarm (s : CallState) : CallState :=
  { s with armed := false, disarms := bump s.disarms }

/-! ## Stop datagrams -/

/-- `reply_with`: the reply, and the status it leaves in the record. -/
def CallState.replyWith (s : CallState) (op nonce : ℕ) (status : Int) (flags : ℕ) :
    CallState × List UInt8 :=
  let head := putLe 4 stopReplyMagic ++ putLe 2 stopVersion ++ putLe 2 op ++ putLe 8 nonce ++
    putLe 8 (if s.armed then s.session else 0) ++ putLe 4 (status % 2 ^ 32).toNat ++
    putLe 4 (flags ||| (flag s.armed stopArmed ||| flag s.latched stopLatched)) ++
    putLe 8 (if s.latched then s.latchNonce else 0) ++ putLe 8 s.polls ++
    putLe 8 s.droppedProxy
  ({ s with lastStatus := (status % 2 ^ 64).toNat }, head ++ putLe 4 (crc32 head) ++ putLe 4 0)

structure StopRequest where
  op : ℕ
  nonce : ℕ
  session : ℕ
  reason : ℕ
  delay : ℕ
  text : List ℕ

/-- What the handler reads out of a datagram; the nonce needs sixteen bytes. -/
def stopRequest (data : List UInt8) : StopRequest where
  op := getLe 2 (data.drop 6)
  nonce := if 16 ≤ data.length then getLe 8 (data.drop 8) else 0
  session := getLe 8 (data.drop 16)
  reason := getLe 4 (data.drop 24)
  delay := getLe 4 (data.drop 28)
  text := (List.range 8).map fun n => getLe 8 (data.drop (32 + 8 * n))

/-- Not even the magic: somebody else's traffic. -/
def stopForeign (data : List UInt8) : Bool :=
  data.length < 8 || getLe 4 data != stopRequestMagic

def stopMalformed (data : List UInt8) : Bool :=
  data.length != stopRequestBytes || getLe 2 (data.drop 4) != stopVersion ||
    getLe 4 (data.drop 100) != 0 || crc32 (data.take 96) != getLe 4 (data.drop 96) ||
    data.getD 95 0 != 0 ||
    ((stopRequest data).op != stopQuery && (stopRequest data).op != stopStop)

namespace CallState

/-- Whether the armed session takes the request. -/
def stopStatus (s : CallState) (r : StopRequest) : Int :=
  if !s.armed then stopENotArmed
  else if r.session ≠ s.session then stopESession
  else if r.reason = 0 ∨ stopReasonMax < r.reason then stopEReason
  else if stopDelayLimit < r.delay then stopEDelay
  else stopOk

/-- A latch that stays: only a fresh immediate request replaces a delayed one. -/
def holds (s : CallState) (r : StopRequest) : Bool :=
  s.latched && !(r.delay = 0 && s.latchDelay != 0 && r.nonce != s.latchNonce)

def latchRequest (s : CallState) (r : StopRequest) (now : ℕ) : CallState :=
  { s with
    taken := false, latched := true, latchNonce := r.nonce, latchReason := r.reason,
    latchDelay := r.delay, latchTicks := now, text := r.text }

/-- The part of `q1n1_stop_datagram` behind its checks of the form. -/
def stopStopped (s : CallState) (r : StopRequest) (now : ℕ) : CallState × List UInt8 :=
  let s := { s with stops := bump s.stops }
  let status := s.stopStatus r
  if status ≠ 0 then
    replyWith { s with refused := bump s.refused } r.op r.nonce status 0
  else if s.holds r then s.replyWith r.op r.nonce stopAlready 0
  else (s.latchRequest r now).replyWith r.op r.nonce stopOk stopMine

/-- `q1n1_stop_datagram`; no reply is the empty list. -/
def stopDatagram (s : CallState) (data : List UInt8) (now : ℕ) :
    CallState × List UInt8 :=
  let s := { s with datagrams := bump s.datagrams }
  let r := stopRequest data
  if stopForeign data then ({ s with malformed := bump s.malformed }, [])
  else if stopMalformed data then
    replyWith { s with malformed := bump s.malformed } r.op r.nonce stopEMalformed 0
  else if r.op = stopQuery then
    replyWith { s with queries := bump s.queries } r.op r.nonce stopOk 0
  else s.stopStopped r now

end CallState

structure StopLatch where
  magic : ℕ
  session : ℕ
  nonce : ℕ
  reason : ℕ
  delayS : ℕ
  latchedTicks : ℕ
  text : List ℕ

/-- `q1n1_call_take`; `out` is the payload's buffer, if it passed one, by its size. -/
def CallState.take (s : CallState) (out : Option ℕ) : CallState × ℕ × Option StopLatch :=
  if !s.armed || !s.latched || s.taken then (s, 0, none)
  else if out.all (· < stopLatchBytes) then (s, callEArgs, none)
  else
    ({ s with taken := true }, 1, some {
        magic := stopLatchMagic, session := s.session, nonce := s.latchNonce,
        reason := s.latchReason, delayS := s.latchDelay, latchedTicks := s.latchTicks,
        text := s.text })

end Q1n1.CallService
