import Q1n1.Model.Ncm.Link
import Q1n1.Model.Xhci.Driver

/-! # The sending side of a link on its controller

`platform/uefi/ncm.c` over `platform/uefi/xhci.c`: how the transfers of `ncm_send`,
`ncm_flush`, `ncm_queue` and `ncm_send_side` end is what the driver of the controller finds. -/

namespace Q1n1.Ncm

open Xhci

inductive Request where
  | send (frame : List UInt8)
  | sendSide (frame : List UInt8)
  | queue (frame : List UInt8)
  | flush

def Request.ended (result : Int) : Request → Call
  | .send frame => .send frame (decide (0 ≤ result))
  | .sendSide frame => .sendSide frame result false
  | .queue frame => .queue frame (decide (0 ≤ result))
  | .flush => .flush (decide (0 ≤ result))

/-- A block that a call hands to `xhci_send`. -/
structure Block where
  batched : Bool
  length : ℕ

def Link.sendBlock (n : Link) (frame : List UInt8) : Option Block :=
  if (n.frameRefused outBufferBytes frame.length false).isSome then none
  else some ⟨false, frameTotal n.p frame.length false⟩

def Link.flushBlock (n : Link) : Option Block :=
  match n.batch with
  | none => none
  | some b =>
    if b.entries = [] then none else some ⟨true, batchTotal n.p b.end_ b.entries.length⟩

def Link.queueBlock (n : Link) (frame : List UInt8) : Option Block :=
  match n.batch with
  | none => n.sendBlock frame
  | some b =>
    if n.attached = false ∨ frame.length = 0 ∨ maxFrame < frame.length then none
    else if b.room n.p frame.length then none
    else n.flushBlock

def Link.block (n : Link) : Request → Option Block
  | .send frame => n.sendBlock frame
  | .sendSide _ => none
  | .queue frame => n.queueBlock frame
  | .flush => n.flushBlock

/-- A side transfer that was started: its TRB, its length, and the side buffer as it was. -/
structure Started where
  serial : ℕ
  length : ℕ
  buffer : Memory

structure Port where
  link : Link
  driver : Driver
  device : ℕ
  dciOut : ℕ
  /-- where the buffers are: the link's own, that of the batch and that of the side -/
  outAddress : ℕ := 0
  batchAddress : ℕ := 0
  sideAddress : ℕ := 0
  /-- `inflight` of the side state, when it is not null -/
  inflight : Handle := ⟨0, 0⟩
  /-- the call that waits for the driver -/
  call : Option Request := none
  -- Only a record.
  started : List Started := []

def Port.out (m : Port) : RingId := .ep m.device m.dciOut

def Port.result (m : Port) : Int := m.driver.results.getLast?.getD 0

/-- `ncm_send_side` from `frame_ntb` on; `ended` is what became of the transfer before. -/
def Port.launch (m : Port) (frame : List UInt8) (ended : Int) : Port :=
  match m.link.side with
  | none => m
  | some s =>
    if (m.link.frameRefused s.size frame.length true).isSome then
      { m with link := (m.link.sendSide frame ended false).2 }
    else
      let length := frameTotal m.link.p frame.length true
      let driver := m.driver.start (.sendStart m.device m.dciOut m.sideAddress length)
      let slot := driver.results.getLast?.getD 0
      if slot = 0 then { m with driver, link := (m.link.sendSide frame ended false).2 }
      else
        { m with
          driver
          link := (m.link.sendSide frame ended true).2
          inflight := ⟨slot.toNat, m.driver.serial⟩
          started := m.started ++ [⟨m.driver.serial, length,
            frameNtb m.link.p m.link.sequence s.buffer frame true⟩] }

def Port.finish (m : Port) (r : Request) : Port :=
  let m : Port := { m with call := none }
  match r with
  | .sendSide frame =>
    if m.result = 0 then { m with link := (m.link.sendSide frame 0 false).2 }
    else m.launch frame m.result
  | r => { m with link := ((r.ended m.result).run m.link).2 }

/-- A call goes on as soon as the driver has stopped waiting. -/
def Port.settle (m : Port) : Port :=
  match m.call with
  | none => m
  | some r => if m.driver.waiting.isNone then m.finish r else m

def Port.enter (m : Port) : Request → Port
  | .sendSide frame =>
    match m.link.side with
    | none => m
    | some s =>
      if m.link.attached = false then m
      else if s.inflight then
        Port.settle { m with
          call := some (.sendSide frame)
          driver := m.driver.start (.sent m.inflight) }
      else m.launch frame 0
  | r =>
    match m.link.block r with
    | none => { m with link := ((r.ended (-1)).run m.link).2 }
    | some b =>
      Port.settle { m with
        call := some r
        driver := m.driver.start (.send m.device m.dciOut
          (if b.batched then m.batchAddress else m.outAddress) b.length) }

inductive PortAct where
  | call (r : Request)
  | poll
  | expire
  | complete (status high : ℕ)
  | portChange (parameter status high : ℕ)

def Port.step (m : Port) : PortAct → Port
  | .call r => if m.call.isNone then m.enter r else m
  | .poll => Port.settle { m with driver := m.driver.step .poll }
  | .expire => Port.settle { m with driver := m.driver.step .expire }
  | .complete status high => { m with driver := m.driver.complete m.out status high }
  | .portChange parameter status high =>
    { m with driver := m.driver.portChange parameter status high }

def Port.run (m : Port) (acts : List PortAct) : Port := acts.foldl Port.step m

end Q1n1.Ncm
