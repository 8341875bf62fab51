import Q1n1.Model.Dwc3.Bulk

/-! # The bulk pipes are lossless FIFOs -/

namespace Q1n1.Dwc3

open List Function Memory Endpoint Pipe Device CounterRing

theorem ringBytes_dvd : ringBytes ∣ 2 ^ 32 := by decide

theorem ringBytes_lt : ringBytes < 2 ^ 32 := by decide

/-! ## What holds of a pipe -/

def Endpoint.inFlight (e : Endpoint) : List UInt8 :=
  match e.active with
  | none => []
  | some moved => e.buffer.load moved (e.trbSize - moved)

variable {e : Endpoint} {moved : ℕ}

theorem Endpoint.inFlight_of_active (h : e.active = some moved) :
    e.inFlight = e.buffer.load moved (e.trbSize - moved) := by
  rw [inFlight, h]

def Endpoint.arrived (e : Endpoint) (pending : ℕ) : List UInt8 :=
  if pending = 0 then [] else e.buffer.load 0 (hsPacket - e.trbSize)

/-- The host can tell that the last transfer has ended. -/
def EndsShort (packets : List (List UInt8)) : Prop :=
  ∀ packet ∈ packets.getLast?, packet.length < hsPacket

/-- The driver takes an endpoint for busy as long as the controller works on it or the
completion has not been seen. -/
def Endpoint.InStep (e : Endpoint) (pending : ℕ) : Prop :=
  e.active.isSome.toNat + pending = e.inProgress.toNat

/-- Bytes on their way to the host; `pending` counts the completions not yet seen. -/
structure Outgoing (ring : Ring) (e : Endpoint) (accepted : List UInt8)
    (received : List (List UInt8)) (pending : ℕ) : Prop where
  valid : ring.Valid
  step : e.InStep pending
  flow : received.flatten ++ e.inFlight ++ ring.content = accepted
  zlp_active : ∀ moved, e.active = some moved → moved ≤ e.trbSize ∧ moved % hsPacket = 0 ∧
    e.zlpPending = (e.trbSize ≠ 0 && e.trbSize % hsPacket = 0)
  zlp_idle : e.active = none → e.zlpPending = false → EndsShort received

/-- Bytes on their way from the host. -/
structure Incoming (ring : Ring) (e : Endpoint) (sent : List (List UInt8))
    (returned : List UInt8) (dropped pending : ℕ) : Prop where
  valid : ring.Valid
  step : e.InStep pending
  flow : returned ++ ring.content ++ e.arrived pending = sent.flatten
  room : e.inProgress = true → ring.used + hsPacket ≤ ringBytes
  size : pending ≠ 0 → e.trbSize ≤ hsPacket
  dropped : dropped = 0

structure Pipe.Inv (p : Pipe) (pendingIn pendingOut : ℕ) : Prop where
  outgoing : Outgoing p.device2host p.epIn p.accepted p.received pendingIn
  incoming : Incoming p.host2device p.epOut p.sent p.returned p.droppedRx pendingOut
  unclobbered : p.clobbered = false

variable {p : Pipe} {a b : ℕ} {configured ok : Bool}

theorem Endpoint.InStep.idle {pending : ℕ} (h : e.InStep pending) (hidle : e.inProgress = false) :
    e.active = none ∧ pending = 0 := by
  rw [InStep, hidle] at h
  cases hactive : e.active with
  | none => exact ⟨rfl, by simpa [hactive] using h⟩
  | some moved => simp [hactive] at h

theorem Endpoint.InStep.active {pending : ℕ} (h : e.InStep pending)
    (hactive : e.active = some moved) : pending = 0 ∧ e.inProgress = true := by
  rw [InStep, hactive] at h
  cases hprogress : e.inProgress with
  | false => simp [hprogress] at h
  | true => exact ⟨by simpa [hprogress] using h, rfl⟩

/-- Nothing is written to while the controller works on it: the driver looks at its flag. -/
theorem Pipe.touch_unclobbered {dir : Dir} (h : p.clobbered = false)
    (hactive : (p.endpoint dir).active = none) : (p.touch dir).clobbered = false := by
  simp [touch, h, hactive]

theorem Pipe.startTrb_idle (dir : Dir) {length : ℕ} (hidle : (p.endpoint dir).inProgress = false) :
    p.startTrb ok dir length = (ok, (p.touch dir).setEndpoint { p.endpoint dir with
        trbSize := length
        inProgress := ok
        active := if ok then some 0 else (p.endpoint dir).active } dir) := by
  cases ok with
  | false => simp [startTrb, hidle]
  | true => simp [startTrb, hidle]

theorem Pipe.startBulkOut_inv (h : p.Inv a b) : (p.startBulkOut configured ok).Inv a b := by
  rw [startBulkOut]
  split
  · exact h
  rename_i hstart
  simp only [Bool.or_eq_true, not_or, Bool.not_eq_true, decide_eq_true_eq, not_lt] at hstart
  obtain ⟨⟨-, hidle⟩, hroom⟩ := hstart
  obtain ⟨hactive, rfl⟩ := h.incoming.step.idle hidle
  have hclean : (p.touch .out).clobbered = false := touch_unclobbered h.unclobbered hactive
  have hused := h.incoming.valid.used
  rw [startTrb_idle .out hidle]
  refine ⟨h.outgoing, ⟨h.incoming.valid, ?_, h.incoming.flow, ?_, ?_, h.incoming.dropped⟩, hclean⟩
  · cases ok with
    | false =>
      rw [InStep]
      simp [setEndpoint, endpoint, hactive]
    | true => rfl
  · intro _
    show p.host2device.used + hsPacket ≤ ringBytes
    omega
  · simp

variable {ring : Ring} {accepted : List UInt8} {received : List (List UInt8)}

theorem Outgoing.of_idle {e' : Endpoint} (h : Outgoing ring e accepted received 0)
    (hactive : e.active = none) (hactive' : e'.active = none) (hidle : e'.inProgress = false)
    (hzlp : e'.zlpPending = e.zlpPending) : Outgoing ring e' accepted received 0 := by
  refine ⟨h.valid, ?_, ?_, ?_, ?_⟩
  · simp [InStep, hactive', hidle]
  · have hflow := h.flow
    rw [inFlight, hactive] at hflow
    rw [inFlight, hactive']
    exact hflow
  · simp [hactive']
  · intro _ hpending
    exact h.zlp_idle hactive (hzlp ▸ hpending)

def Endpoint.sending (e : Endpoint) (bytes : List UInt8) : Endpoint where
  inProgress := true
  zlpPending := bytes.length ≠ 0 && bytes.length % hsPacket = 0
  buffer := e.buffer.store 0 bytes
  trbSize := bytes.length
  active := some 0

theorem Outgoing.start (h : Outgoing ring e accepted received 0) (hactive : e.active = none) :
    Outgoing (ring.skip (ring.peek xferBytes).length) (e.sending (ring.peek xferBytes)) accepted
      received 0 := by
  obtain ⟨hbytes, hvalid⟩ := h.valid.read_spec ringBytes_dvd ringBytes_lt xferBytes
  rw [CounterRing.read] at hbytes hvalid
  generalize ring.peek xferBytes = bytes at hbytes hvalid ⊢
  have hflow := h.flow
  rw [inFlight, hactive, append_nil, ← hbytes, ← append_assoc] at hflow
  constructor
  · exact hvalid
  · simp [InStep, sending]
  · rw [inFlight, sending]
    simpa using hflow
  · intro moved hmoved
    obtain rfl : 0 = moved := by simpa [sending] using hmoved
    simp [sending]
  · simp [sending]

namespace Pipe

theorem fill_idle {bytes : List UInt8} (hactive : p.epIn.active = none) :
    p.fill bytes = { p with epIn := { p.epIn with buffer := p.epIn.buffer.store 0 bytes } } := by
  rw [fill, touch, endpoint, hactive]
  simp

theorem sendBytes_idle {bytes : List UInt8} (hidle : p.epIn.inProgress = false)
    (hactive : p.epIn.active = none) :
    p.sendBytes ok bytes =
      if bytes = [] ∧ p.epIn.zlpPending = false then p.fill bytes
      else if ok then
        { p with
          device2host := p.device2host.skip bytes.length
          epIn := p.epIn.sending bytes }
      else
        { p with epIn := { p.epIn with
            buffer := p.epIn.buffer.store 0 bytes
            trbSize := bytes.length } } := by
  have hfill : ((p.fill bytes).endpoint .in_).inProgress = false := hidle
  rw [sendBytes, startTrb_idle .in_ hfill, fill_idle hactive]
  by_cases hnone : bytes = [] ∧ p.epIn.zlpPending = false
  · rw [if_pos hnone, if_pos hnone]
  · rw [if_neg hnone, if_neg hnone]
    cases ok with
    | false =>
      simp only [setEndpoint, touch, endpoint, hactive]
      simp [hidle]
    | true =>
      simp only [setEndpoint, touch, endpoint, hactive]
      simp [sending]

theorem Inv.setIn {a' : ℕ} (h : p.Inv a b) (hout : Outgoing ring e p.accepted p.received a') :
    Inv { p with device2host := ring, epIn := e } a' b :=
  ⟨hout, h.incoming, h.unclobbered⟩

theorem startBulkIn_inv (h : p.Inv a b) : (p.startBulkIn configured ok).Inv a b := by
  rw [startBulkIn]
  split
  · exact h
  rename_i hstart
  simp only [Bool.or_eq_true, not_or, Bool.not_eq_true] at hstart
  obtain ⟨hactive, rfl⟩ := h.outgoing.step.idle hstart.2
  have hsending := h.outgoing.start hactive
  rw [sendBytes_idle hstart.2 hactive, fill_idle hactive]
  generalize p.device2host.peek xferBytes = bytes at hsending ⊢
  split
  · exact h.setIn (h.outgoing.of_idle hactive hactive hstart.2 rfl)
  · split
    · exact h.setIn hsending
    · exact h.setIn (h.outgoing.of_idle hactive hactive hstart.2 rfl)

end Pipe

theorem Endpoint.InStep.pending {pending : ℕ} (h : e.InStep (pending + 1)) :
    e.active = none ∧ pending = 0 := by
  rw [InStep] at h
  have hle : e.inProgress.toNat ≤ 1 := e.inProgress.toNat_le
  cases hactive : e.active with
  | none =>
    rw [hactive] at h
    simp at h
    exact ⟨rfl, by omega⟩
  | some moved =>
    rw [hactive] at h
    simp at h
    omega

theorem Pipe.complete_in_inv (h : p.Inv (a + 1) b) : (p.complete .in_).Inv a b := by
  obtain ⟨hactive, rfl⟩ := h.outgoing.step.pending
  have hout := h.outgoing
  refine h.setIn (e := { p.epIn with inProgress := false })
    ⟨hout.valid, ?_, hout.flow, hout.zlp_active, hout.zlp_idle⟩
  simp [InStep, hactive]

theorem received_of_size {size : ℕ} (h : size ≤ hsPacket) :
    (if size &&& trbSizeMask ≤ hsPacket then hsPacket - (size &&& trbSizeMask) else 0) =
      hsPacket - size := by
  have hmask : size &&& trbSizeMask = size := by
    rw [show trbSizeMask = 2 ^ 24 - 1 from rfl, Nat.and_two_pow_sub_one_eq_mod,
      Nat.mod_eq_of_lt (h.trans_lt (by decide))]
  rw [hmask, if_pos h]

theorem Pipe.bulkOutDone_eq (h : p.epOut.trbSize ≤ hsPacket) : p.bulkOutDone =
      let wrote := p.host2device.write (p.epOut.buffer.load 0 (hsPacket - p.epOut.trbSize))
      { p with
        host2device := wrote.2
        droppedRx := p.droppedRx + (hsPacket - p.epOut.trbSize - wrote.1) } := by
  rw [bulkOutDone]
  simp only [received_of_size h]

theorem Pipe.complete_out_inv (h : p.Inv a (b + 1)) : (p.complete .out).Inv a b := by
  obtain ⟨hactive, rfl⟩ := h.incoming.step.pending
  have hbusy : p.epOut.inProgress = true := by
    have hstep := h.incoming.step
    rw [InStep, hactive] at hstep
    cases hprogress : p.epOut.inProgress with
    | false => simp [hprogress] at hstep
    | true => rfl
  have hroom := h.incoming.room hbusy
  obtain ⟨hcount, hvalid, hcontent⟩ := h.incoming.valid.write_spec ringBytes_dvd ringBytes_lt
    (p.epOut.buffer.load 0 (hsPacket - p.epOut.trbSize))
  -- There was room for a whole packet when the transfer started.
  rw [load_length, min_eq_left (by omega)] at hcount
  rw [take_of_length_le (by rw [load_length]; omega)] at hcontent
  have hflow := h.incoming.flow
  rw [arrived, if_neg (by simp)] at hflow
  have hdone : p.complete .out = { p with
      epOut := { p.epOut with inProgress := false }
      host2device := (p.host2device.write (p.epOut.buffer.load 0 (hsPacket - p.epOut.trbSize))).2
      droppedRx := p.droppedRx } := by
    have hsize : ({ p with epOut := { p.epOut with inProgress := false } } : Pipe).epOut.trbSize ≤
      hsPacket := h.incoming.size (by simp)
    refine (bulkOutDone_eq hsize).trans ?_
    simp only [hcount, Nat.sub_self, add_zero]
  rw [hdone]
  refine ⟨h.outgoing, ⟨hvalid, ?_, ?_, by simp, by simp, h.incoming.dropped⟩, h.unclobbered⟩
  · simp [InStep, hactive]
  · rw [hcontent, ← append_assoc, arrived, if_pos rfl, append_nil]
    exact hflow

theorem EndsShort.append (packets : List (List UInt8)) {packet : List UInt8}
    (h : packet.length < hsPacket) : EndsShort (packets ++ [packet]) := by
  intro last hlast
  simp only [List.getLast?_append, List.getLast?_singleton, Option.some_or, Option.mem_some_iff]
    at hlast
  exact hlast ▸ h

/-- The last packet of a transfer is short, or there is a zero-length one to come. -/
theorem short_or_pending {size n : ℕ} (hmoved : moved % hsPacket = 0)
    (hn : n = min hsPacket (size - moved)) (hdone : moved + n = size)
    (hzlp : (decide (size ≠ 0) && decide (size % hsPacket = 0)) = false) : n < hsPacket := by
  have hpos : 0 < hsPacket := by decide
  have hle : n ≤ hsPacket := by omega
  refine lt_of_le_of_ne hle fun hfull => ?_
  have hsize : size % hsPacket = 0 := by rw [← hdone, hfull, Nat.add_mod_right, hmoved]
  have hne : size ≠ 0 := by omega
  simp [hsize, hne] at hzlp

theorem Outgoing.packet {n : ℕ} (h : Outgoing ring e accepted received a)
    (hactive : e.active = some moved) (hn : n = min hsPacket (e.trbSize - moved)) :
    Outgoing ring
      { e with active := if moved + n = e.trbSize then none else some (moved + n) } accepted
      (received ++ [e.buffer.load moved n]) (if moved + n = e.trbSize then a + 1 else a) := by
  obtain ⟨hle, hmod, hzlp⟩ := h.zlp_active moved hactive
  obtain ⟨rfl, hbusy⟩ := h.step.active hactive
  have hflow := h.flow
  rw [inFlight_of_active hactive] at hflow
  by_cases hdone : moved + n = e.trbSize
  · simp only [if_pos hdone]
    refine ⟨h.valid, ?_, ?_, by simp, ?_⟩
    · simp [InStep, hbusy]
    · rw [← hflow, flatten_append, flatten_singleton, inFlight,
        append_nil, show e.trbSize - moved = n by omega]
    · intro _ hpending
      apply EndsShort.append
      rw [load_length]
      exact short_or_pending hmod hn hdone (hzlp.symm.trans hpending)
  · simp only [if_neg hdone]
    have hfull : n = hsPacket := by omega
    refine ⟨h.valid, ?_, ?_, ?_, by simp⟩
    · simp [InStep, hbusy]
    · rw [← hflow, flatten_append, flatten_singleton, inFlight_of_active rfl,
        show e.trbSize - moved = n + (e.trbSize - (moved + n)) by omega, load_add]
      simp only [append_assoc]
    · intro moved' hmoved
      obtain rfl : moved + n = moved' := by simpa using hmoved
      refine ⟨show moved + n ≤ e.trbSize by omega, ?_, hzlp⟩
      rw [hfull, Nat.add_mod_right, hmod]

theorem Incoming.packet {sent : List (List UInt8)} {returned packet : List UInt8} {dropped : ℕ}
    (h : Incoming ring e sent returned dropped b) (hactive : e.active.isSome)
    (hpacket : packet.length ≤ hsPacket) :
    Incoming ring
      { e with
        buffer := e.buffer.store 0 packet
        trbSize := hsPacket - packet.length
        active := none } (sent ++ [packet]) returned dropped (b + 1) := by
  obtain ⟨moved, hmoved⟩ := Option.isSome_iff_exists.mp hactive
  obtain ⟨rfl, hbusy⟩ := h.step.active hmoved
  have hflow := h.flow
  rw [arrived, if_pos rfl, append_nil] at hflow
  refine ⟨h.valid, ?_, ?_, h.room, ?_, h.dropped⟩
  · simp [InStep, hbusy]
  · rw [hflow, arrived, if_neg (by simp), flatten_append, flatten_singleton,
      Nat.sub_sub_self hpacket, load_store_self]
  · intro _
    exact Nat.sub_le _ _

theorem Outgoing.write {bs : List UInt8} (h : Outgoing ring e accepted received a) :
    Outgoing (ring.write bs).2 e (accepted ++ bs.take (ring.write bs).1) received a := by
  obtain ⟨hcount, hvalid, hcontent⟩ := h.valid.write_spec ringBytes_dvd ringBytes_lt bs
  refine ⟨hvalid, h.step, ?_, h.zlp_active, h.zlp_idle⟩
  rw [hcontent, hcount, ← append_assoc, h.flow, min_comm, ← take_eq_take_min]

theorem Incoming.read {sent : List (List UInt8)} {returned : List UInt8} {dropped count : ℕ}
    (h : Incoming ring e sent returned dropped b) :
    Incoming (ring.read count).2 e sent (returned ++ (ring.read count).1) dropped b := by
  obtain ⟨hbytes, hvalid⟩ := h.valid.read_spec ringBytes_dvd ringBytes_lt count
  have hused : (ring.read count).2.used ≤ ring.used := by
    rw [← content_length, ← content_length, ← hbytes]
    simp
  refine ⟨hvalid, h.step, ?_, ?_, h.size, h.dropped⟩
  · rw [append_assoc returned, hbytes, h.flow]
  · intro hbusy
    have hroom := h.room hbusy
    omega

/-! ## The device -/

def Event.completes (i : PipeId) (dir : Dir) : Event → Bool
  | .xferComplete j dir' => j = i ∧ dir' = dir
  | _ => false

def pending (events : List Event) (i : PipeId) (dir : Dir) : ℕ :=
  events.countP (Event.completes i dir)

/-- Every pipe is in order, counting the completions in the event buffer. -/
structure InOrder (pipe : PipeId → Pipe) (events : List Event) : Prop where
  pipe : ∀ i, (pipe i).Inv (pending events i .in_) (pending events i .out)

abbrev Device.Ordered (d : Device) : Prop := InOrder d.pipe d.events

variable {pipe : PipeId → Pipe} {events : List Event} {d : Device} {i : PipeId}

@[simp] theorem Device.onPipe_events (d : Device) (i : PipeId) (f : Pipe → Pipe) :
    (d.onPipe i f).events = d.events :=
  rfl

@[simp] theorem pending_append (events more : List Event) (i : PipeId) (dir : Dir) :
    pending (events ++ more) i dir = pending events i dir + pending more i dir := by
  simp [pending]

theorem InOrder.update {events' : List Event} {q : Pipe} (h : InOrder pipe events)
    (hothers : ∀ j ≠ i, ∀ dir, pending events' j dir = pending events j dir)
    (hq : q.Inv (pending events' i .in_) (pending events' i .out)) :
    InOrder (update pipe i q) events' := by
  constructor
  intro j
  by_cases hj : j = i
  · rw [hj, update_self]
    exact hq
  · rw [update_of_ne hj, hothers j hj, hothers j hj]
    exact h.pipe j

theorem InOrder.update_same {q : Pipe} (h : InOrder pipe events)
    (hq : q.Inv (pending events i .in_) (pending events i .out)) :
    InOrder (Function.update pipe i q) events :=
  h.update (fun _ _ _ => rfl) hq

theorem InOrder.of_pending {events' : List Event} (h : InOrder pipe events)
    (hsame : ∀ j dir, pending events' j dir = pending events j dir) : InOrder pipe events' := by
  constructor
  intro j
  rw [hsame, hsame]
  exact h.pipe j

theorem Device.startBulkOut_inOrder (h : d.Ordered) (i : PipeId) : (d.startBulkOut i).Ordered :=
  h.update_same (startBulkOut_inv (h.pipe i))

theorem Device.startBulkIn_inOrder (h : d.Ordered) (i : PipeId) : (d.startBulkIn i).Ordered :=
  h.update_same (startBulkIn_inv (h.pipe i))

theorem pending_xferComplete (rest : List Event) (i j : PipeId) (dir dir' : Dir) :
    pending (.xferComplete i dir :: rest) j dir' =
      pending rest j dir' + if i = j ∧ dir = dir' then 1 else 0 := by
  simp [pending, Event.completes, countP_cons]

theorem pending_single (i j : PipeId) (dir dir' : Dir) :
    pending [.xferComplete i dir] j dir' = if i = j ∧ dir = dir' then 1 else 0 := by
  rw [pending_xferComplete]
  exact zero_add _

theorem InOrder.complete {rest : List Event} {dir : Dir}
    (h : InOrder pipe (.xferComplete i dir :: rest)) :
    InOrder (Function.update pipe i ((pipe i).complete dir)) rest := by
  have hpipe := h.pipe i
  refine h.update ?_ ?_
  · intro j hj dir'
    rw [pending_xferComplete, if_neg (by simp [Ne.symm hj]), add_zero]
  · rw [pending_xferComplete, pending_xferComplete] at hpipe
    cases dir with
    | in_ =>
      rw [if_pos ⟨rfl, rfl⟩, if_neg (by simp), add_zero] at hpipe
      exact complete_in_inv hpipe
    | out =>
      rw [if_neg (by simp), if_pos ⟨rfl, rfl⟩, add_zero] at hpipe
      exact complete_out_inv hpipe

theorem Pipe.Inv.setReady (h : p.Inv a b) (ready : Bool) : Inv { p with ready := ready } a b :=
  { h with }

theorem Device.handleEvent_inOrder {e : Event} {rest : List Event}
    (h : InOrder d.pipe (e :: rest)) (hrest : d.events = rest) : (d.handleEvent e).Ordered := by
  subst hrest
  cases e with
  | xferComplete i dir => exact h.complete
  | xferNotReady i dir =>
    have hrest : d.Ordered := h.of_pending fun _ _ => rfl
    cases dir with
    | in_ =>
      rw [handleEvent]
      split
      · exact hrest
      · exact startBulkIn_inOrder hrest i
    | out =>
      rw [handleEvent]
      split
      · exact hrest
      · exact startBulkOut_inOrder hrest i
  | control configured ready => exact ⟨fun j => (h.pipe j).setReady (ready j)⟩
  | other => exact h.of_pending fun _ _ => rfl

section

variable (h : d.Ordered)
include h

namespace Device

theorem handleEvents_inOrder (n : ℕ) : (d.handleEvents n).Ordered := by
  induction n generalizing d with
  | zero => exact h
  | succ n ih =>
    rw [handleEvents]
    split
    · exact h
    · rename_i e rest hevents
      rw [Ordered, hevents] at h
      exact ih (handleEvent_inOrder (d := { d with events := rest }) h rfl)

theorem poll_inOrder : d.poll.Ordered := by
  rw [poll]
  generalize finRange 2 = pipes
  have hevents := handleEvents_inOrder h d.events.length
  generalize d.handleEvents d.events.length = d' at hevents
  induction pipes generalizing d' with
  | nil => exact hevents
  | cons i pipes ih =>
    exact ih _ (startBulkIn_inOrder (startBulkOut_inOrder hevents i) i)

theorem packetIn_inOrder (i : PipeId) : (d.packetIn i).Ordered := by
  rw [packetIn]
  cases hactive : (d.pipe i).epIn.active with
  | none => exact h
  | some moved =>
    have hpipe := h.pipe i
    have hpacket := hpipe.outgoing.packet hactive rfl
    dsimp only
    generalize hn : min hsPacket ((d.pipe i).epIn.trbSize - moved) = n at hpacket ⊢
    by_cases hdone : moved + n = (d.pipe i).epIn.trbSize
    · simp only [if_pos hdone] at hpacket ⊢
      refine h.update (fun j hj dir => ?_) ⟨?_, ?_, hpipe.unclobbered⟩
      · simp [pending_single, Ne.symm hj]
      · simpa [pending_single] using hpacket
      · simpa [pending_single] using hpipe.incoming
    · simp only [if_neg hdone] at hpacket ⊢
      exact h.update_same ⟨hpacket, hpipe.incoming, hpipe.unclobbered⟩

theorem packetOut_inOrder (i : PipeId) (packet : List UInt8) : (d.packetOut i packet).Ordered := by
  rw [packetOut]
  split
  · rename_i hwaiting
    simp only [Bool.and_eq_true, decide_eq_true_eq] at hwaiting
    have hpipe := h.pipe i
    have hpacket := hpipe.incoming.packet hwaiting.1 hwaiting.2
    refine h.update (fun j hj dir => ?_) ⟨?_, ?_, hpipe.unclobbered⟩
    · simp [pending_single, Ne.symm hj]
    · simpa [pending_single] using hpipe.outgoing
    · simpa [pending_single] using hpacket
  · exact h

theorem read_inOrder (i : PipeId) (count : ℕ) : (d.read i count).Ordered :=
  h.update_same ⟨(h.pipe i).outgoing, (h.pipe i).incoming.read, (h.pipe i).unclobbered⟩

theorem write_inOrder (i : PipeId) (bs : List UInt8) : (d.write i bs).Ordered := by
  rw [write]
  split
  · apply startBulkIn_inOrder
    exact h.update_same ⟨(h.pipe i).outgoing.write, (h.pipe i).incoming, (h.pipe i).unclobbered⟩
  · exact h

end Device

omit h in
theorem InOrder.notice {e : Event} (h : InOrder pipe events)
    (he : ∀ i dir, e.completes i dir = false) : InOrder pipe (events ++ [e]) := by
  refine h.of_pending fun j dir => ?_
  simp [pending, he]

theorem Device.act_inOrder (action : Action) : (d.act action).Ordered := by
  cases action with
  | poll => exact poll_inOrder h
  | read i count => exact read_inOrder h i count
  | write i bs => exact write_inOrder h i bs
  | packetIn i => exact packetIn_inOrder h i
  | packetOut i packet => exact packetOut_inOrder h i packet
  | notReady i dir => exact h.notice fun _ _ => rfl
  | control configured ready => exact h.notice fun _ _ => rfl
  | other => exact h.notice fun _ _ => rfl

theorem Device.run_inOrder (actions : List Action) : (d.run actions).Ordered := by
  induction actions generalizing d with
  | nil => exact h
  | cons action actions ih => exact ih (act_inOrder h action)

end

theorem Pipe.Inv.start {r r' : Ring} (h : r.Valid) (h' : r'.Valid) (hnone : r.content = [])
    (hnone' : r'.content = []) : Inv { host2device := r, device2host := r' } 0 0 := by
  refine ⟨⟨h', rfl, ?_, by simp, ?_⟩, ⟨h, rfl, ?_, by simp, by simp, rfl⟩, rfl⟩
  · rw [hnone']
    rfl
  · intro _ _ packet hpacket
    simp at hpacket
  · rw [hnone]
    rfl

theorem Device.start_inOrder (counter : PipeId → Dir → ℕ) (commands : List Bool) :
    (start counter commands).Ordered := by
  have hlt (c : ℕ) : c % 2 ^ 32 < 2 ^ 32 := Nat.mod_lt _ (by decide)
  refine ⟨fun i => Inv.start ?_ ?_ content_of_eq content_of_eq⟩
  · exact Valid.of_eq (hlt _)
  · exact Valid.of_eq (hlt _)

/-! ## Going quiet -/

/-- The endpoint is busy, or nothing is left to say and the host can tell. -/
def Pipe.Settled (p : Pipe) : Prop :=
  p.epIn.inProgress = false → p.device2host.content = [] ∧ EndsShort p.received

theorem Pipe.startBulkIn_settled (h : p.Inv a b) : (p.startBulkIn true true).Settled := by
  rw [startBulkIn]
  split
  · rename_i hbusy
    intro hidle
    simp [hidle] at hbusy
  · rename_i hidle
    simp only [Bool.or_eq_true, not_or, Bool.not_eq_true] at hidle
    have hactive := (h.outgoing.step.idle hidle.2).1
    rw [sendBytes_idle hidle.2 hactive, peek_eq]
    split
    · rename_i hnone
      rw [take_eq_nil_iff] at hnone
      rw [fill_idle hactive]
      intro _
      exact ⟨hnone.1.resolve_left (by decide), h.outgoing.zlp_idle hactive hnone.2⟩
    · rw [if_pos rfl]
      intro hstarted
      exact absurd hstarted (by simp [sending])

namespace Device

/-- Every start command from here on succeeds. -/
def Willing (d : Device) : Prop := ∀ ok ∈ d.commands, ok = true

theorem Willing.headD (h : d.Willing) : d.commands.headD true = true := by
  cases hcommands : d.commands with
  | nil => rfl
  | cons ok rest => exact h ok (by simp [hcommands])

theorem Willing.withCommand (h : d.Willing) (f : Bool → Pipe → Pipe) :
    (d.withCommand i f).Willing :=
  fun ok hok => h ok (mem_of_mem_tail hok)

theorem handleEvent_willing (h : d.Willing) (e : Event) : (d.handleEvent e).Willing := by
  cases e with
  | xferComplete i dir => exact h
  | xferNotReady i dir =>
    cases dir with
    | in_ =>
      rw [handleEvent]
      split
      · exact h
      · exact h.withCommand _
    | out =>
      rw [handleEvent]
      split
      · exact h
      · exact h.withCommand _
  | control configured ready => exact h
  | other => exact h

theorem handleEvents_willing (h : d.Willing) (n : ℕ) : (d.handleEvents n).Willing := by
  induction n generalizing d with
  | zero => exact h
  | succ n ih =>
    rw [handleEvents]
    split
    · exact h
    · rename_i e rest _
      exact ih (handleEvent_willing (d := { d with events := rest }) h e)

/-- One turn of the loop that ends a poll. -/
def startBulk (d : Device) (i : PipeId) : Device := (d.startBulkOut i).startBulkIn i

theorem startBulk_settled (h : d.Ordered) (hwilling : d.Willing)
    (hconfigured : d.configured = true) (i : PipeId) : ((d.startBulk i).pipe i).Settled := by
  have hout := startBulkOut_inOrder h i
  have hhead : (d.startBulkOut i).commands.headD true = true := (hwilling.withCommand _).headD
  have hpipe : (d.startBulk i).pipe i = ((d.startBulkOut i).pipe i).startBulkIn d.configured
        ((d.startBulkOut i).commands.headD true) :=
    update_self ..
  rw [hpipe, hconfigured, hhead]
  exact startBulkIn_settled (hout.pipe i)

theorem startBulk_other {j : PipeId} (hne : i ≠ j) : (d.startBulk j).pipe i = d.pipe i :=
  (update_of_ne hne ..).trans (update_of_ne hne ..)

theorem poll_settled (h : d.Ordered) (hwilling : d.Willing)
    (hconfigured : d.poll.configured = true) (i : PipeId) : (d.poll.pipe i).Settled := by
  have hevents := handleEvents_inOrder h d.events.length
  have hready := handleEvents_willing hwilling d.events.length
  have hpoll : d.poll = ((d.handleEvents d.events.length).startBulk 0).startBulk 1 := rfl
  rw [hpoll] at hconfigured ⊢
  generalize d.handleEvents d.events.length = d' at hevents hready hconfigured ⊢
  have hfirst := startBulkIn_inOrder (startBulkOut_inOrder hevents 0) 0
  obtain rfl | rfl : i = 0 ∨ i = 1 := by decide +revert
  · rw [startBulk_other (by decide)]
    exact startBulk_settled hevents hready hconfigured 0
  · exact startBulk_settled hfirst ((hready.withCommand _).withCommand _) hconfigured 1

end Device

/-- On every pipe, whatever happens to it: the host has got a first part of what was accepted
and the rest is under way; what the host sent has been returned, or waits; nothing was dropped
and nothing overwritten under the controller; and a poll that gets its transfers started leaves
the pipe busy, or empty and with the host told so. -/
theorem Device.run_fifo (counter : PipeId → Dir → ℕ) (commands : List Bool)
    (actions : List Action) (i : PipeId) :
    let d := (Device.start counter commands).run actions
    let p := d.pipe i
    p.received.flatten ++ p.epIn.inFlight ++ p.device2host.content = p.accepted ∧
      p.returned ++ p.host2device.content ++ p.epOut.arrived (pending d.events i .out) =
        p.sent.flatten ∧
      p.droppedRx = 0 ∧ p.clobbered = false ∧
      (d.Willing → d.poll.configured = true → (d.poll.pipe i).Settled) := by
  intro d p
  have h : d.Ordered := Device.run_inOrder (Device.start_inOrder counter commands) actions
  have hpipe := h.pipe i
  exact ⟨hpipe.outgoing.flow, hpipe.incoming.flow, hpipe.incoming.dropped, hpipe.unclobbered,
    fun hwilling hconfigured => Device.poll_settled h hwilling hconfigured i⟩

def echoSession (i : PipeId) : List Action :=
  [.control true (fun _ => true), .poll, .packetOut i [1, 2], .poll, .read i 2, .write i [7, 8],
    .packetIn i]

/-- It goes across the wrap of the counters. -/
theorem Device.run_fifo_echoSession :
    let d := (Device.start (fun _ _ => 2 ^ 32 - 1) []).run (echoSession 0)
    (d.pipe 0).returned = [1, 2] ∧ (d.pipe 0).received = [[7, 8]] ∧ (d.poll.pipe 0).Settled := by
  refine ⟨by decide +kernel, by decide +kernel, ?_⟩
  refine (Device.run_fifo _ _ _ 0).2.2.2.2 ?_ (by decide +kernel)
  have hnone : ((Device.start (fun _ _ => 2 ^ 32 - 1) []).run (echoSession 0)).commands = [] := by
    decide +kernel
  intro ok hok
  rw [hnone] at hok
  cases hok

end Q1n1.Dwc3
