import Q1n1.Model.CallService.Console

/-! # The service over a run

`platform/uefi/main.c`: `q1n1_call_service`, the handler of the stop port, and the recovery
of a poll that never returned. An action is one thing the payload or the link does. A poll
is opened, meets any number of datagrams, and is closed by its take; the link also delivers
datagrams outside polls. The payload drains its staging buffer between polls and may change
all of its own memory there. -/

namespace Q1n1.CallService

def sideReplyMax : ℕ := 1440

inductive Action where
  | arm (session : ℕ)
  | disarm
  /-- a poll begins, with the view as the payload fills it in, or without one -/
  | openPoll (setup : Option Setup) (memory : Memory)
  | datagram (data : List UInt8) (now : ℕ)
  /-- the poll ends; `out` is the size of the payload's buffer, if there is one -/
  | closePoll (out : Option ℕ)
  /-- the proxy loop undoes a poll that faulted -/
  | recover
  /-- the link's counters are copied into the record (`call_stats`) -/
  | callStats (replies replyFailures droppedProxy : ℕ)

structure Polled where
  room : ℕ
  staged : List UInt8

structure Service where
  call : CallState
  view : View
  memory : Memory
  /-- a poll is under way and has a view -/
  shown : Bool := false
  -- The rest only records what happened.
  polled : List Polled := []
  delivered : List StopLatch := []

namespace Service

/-- The poll under way, as a record of what it staged. -/
def current (t : Service) : List Polled :=
  if t.shown then [⟨t.view.inRoom, t.memory.load t.view.inBase t.view.inFill⟩] else []

def endPoll (t : Service) : Service :=
  { t with shown := false, polled := t.polled ++ t.current }

def stopPort (t : Service) (data : List UInt8) (now : ℕ) : Service × List UInt8 :=
  if consoleRequest data then
    let (call, view, memory, reply) :=
      t.call.consoleDatagram t.shown t.view t.memory data sideReplyMax
    ({ t with call, view, memory }, reply)
  else
    let (call, reply) := t.call.stopDatagram data now
    ({ t with call }, reply)

def openPoll (t : Service) (setup : Option Setup) (memory : Memory) : Service :=
  let t := { t.endPoll with call.polls := bump t.call.polls, memory }
  match setup with
  | none => t
  | some setup =>
    { t with
      shown := true
      view := { t.view with
        toSetup := setup
        inFill := 0
        pollsSeen := if setup.magic = consoleViewMagic then bump t.view.pollsSeen
          else t.view.pollsSeen } }

def step (t : Service) : Action → Service
  | .arm session => { t with call := (t.call.arm session).1 }
  | .disarm => { t with call := t.call.disarm }
  | .openPoll setup memory => t.openPoll setup memory
  | .datagram data now => (t.stopPort data now).1
  | .closePoll out =>
    let t := t.endPoll
    let (call, _, latch) := t.call.take out
    { t with call, delivered := t.delivered ++ latch.toList }
  | .recover =>
    { t.endPoll with call := { t.call.disarm with recoveries := bump t.call.recoveries } }
  | .callStats replies replyFailures droppedProxy =>
    { t with call := { t.call with replies, replyFailures, droppedProxy } }

def run (t : Service) (actions : List Action) : Service := actions.foldl step t

def polls (t : Service) : List Polled := t.polled ++ t.current

def staged (t : Service) : List UInt8 := t.polls.flatMap Polled.staged

@[simp] theorem run_nil (t : Service) : t.run [] = t := rfl

@[simp] theorem run_cons (t : Service) (a : Action) (actions : List Action) :
    t.run (a :: actions) = (t.step a).run actions := rfl

end Service

end Q1n1.CallService
