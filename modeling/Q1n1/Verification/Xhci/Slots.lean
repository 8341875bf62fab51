import Q1n1.Verification.Xhci.Completions
import Mathlib.Data.List.Nodup

/-! # Slots of a ring that are in use

As long as a ring is pushed only at slots nothing is to come for, an event that names a slot
of it says that nothing is outstanding there. -/

namespace Q1n1.Xhci

open List

/-- The ring is set up and lies in the address space, and its next slot is before its Link
TRB. -/
def Ring.Placed (ring : Ring) : Prop :=
  ring.base ≠ 0 → ring.index + 1 < ring.count ∧ ring.base + ring.count * trbSize ≤ 2 ^ 64

theorem Ring.Placed.push {ring : Ring} (h : ring.Placed) (s : Submission) :
    (ring.push s).1.Placed := by
  simp only [Ring.push, Ring.Placed] at h ⊢
  split <;> grind

variable {x y : Driver} {out : RingId}

namespace Driver

/-- The events the driver has yet to use, wherever they are. -/
def events (x : Driver) : List Event := x.unread.map Posted.event ++ x.deferred

def addresses (x : Driver) (out : RingId) : List ℕ :=
  (x.outstanding out).map Outstanding.address

structure Orderly (x : Driver) (out : RingId) : Prop where
  reads : x.Reads
  placed : (x.rings out).Placed
  small : ∀ a ∈ x.addresses out, a < 2 ^ 64
  distinct : (x.addresses out).Nodup
  /-- no event names a slot where something is outstanding -/
  spares : ∀ e ∈ x.events, e.type = trbTransferEvent → e.parameter ∉ x.addresses out

/-- Nothing is to come for the slot of the ring that the next push takes. -/
structure SlotFree (x : Driver) (out : RingId) : Prop where
  completed : x.nextSlot out ∉ x.addresses out
  read : ∀ p ∈ x.unread, p.event.type = trbTransferEvent → p.event.parameter ≠ x.nextSlot out

/-! ## Reading events -/

structure Reading (x y : Driver) : Prop where
  reads : x.Reads → y.Reads
  rings : y.rings = x.rings
  outstanding : y.outstanding = x.outstanding
  serial : y.serial = x.serial
  unread : ∀ p ∈ y.unread, p ∈ x.unread
  events : ∀ e ∈ y.events, e ∈ x.events

theorem Reading.trans {z : Driver} (h : x.Reading y) (h' : y.Reading z) : x.Reading z :=
  ⟨fun hx => h'.reads (h.reads hx), h'.rings.trans h.rings, h'.outstanding.trans h.outstanding,
    h'.serial.trans h.serial, fun p hp => h.unread p (h'.unread p hp),
    fun e he => h.events e (h'.events e he)⟩

theorem reading_keep (x : Driver) (pending : ℕ → ℕ → Pending) (waiting : Option Wait)
    (uses : List Use) (results : List Int) : x.Reading { x with pending, waiting, uses, results } :=
  ⟨fun h => ⟨h.tagged, h.index, h.cycle⟩, rfl, rfl, rfl, fun _ hp => hp, fun _ he => he⟩

theorem Reading.cache (hr : x.Reading y) {deferred : List Event}
    (h : ∀ e ∈ deferred, e ∈ x.events) : x.Reading { y with deferred } := by
  refine ⟨fun hx => ?_, hr.rings, hr.outstanding, hr.serial, hr.unread, fun e he => ?_⟩
  · exact ⟨(hr.reads hx).tagged, (hr.reads hx).index, (hr.reads hx).cycle⟩
  · rcases mem_append.mp he with he | he
    · exact hr.events e (mem_append_left _ he)
    · exact h e he

theorem Orderly.reading (h : x.Orderly out) (hr : x.Reading y) : y.Orderly out := by
  have haddresses : y.addresses out = x.addresses out := by
    rw [addresses, hr.outstanding, addresses]
  refine ⟨hr.reads h.reads, hr.rings ▸ h.placed, ?_, ?_, ?_⟩
  · rw [haddresses]
    exact h.small
  · rw [haddresses]
    exact h.distinct
  · rw [haddresses]
    exact fun e he => h.spares e (hr.events e he)

theorem SlotFree.reading (h : x.SlotFree out) (hr : x.Reading y) : y.SlotFree out := by
  have hslot : y.nextSlot out = x.nextSlot out := by
    rw [nextSlot, hr.rings, nextSlot]
  refine ⟨?_, ?_⟩
  · rw [hslot, addresses, hr.outstanding]
    exact h.completed
  · rw [hslot]
    exact fun p hp => h.read p (hr.unread p hp)

end Driver

variable {e : Event}

namespace Driver

theorem reading_poll (hreads : x.Reads) (hpoll : x.poll = some (e, y)) :
    x.Reading y ∧ e ∈ x.events ∧ y.results = x.results ∧ y.deferred = x.deferred := by
  obtain ⟨hy, ⟨p, rfl, hunread⟩, hx⟩ := hreads.poll hpoll
  have hmem : ∀ q ∈ y.unread, q ∈ x.unread := hunread ▸ fun q => mem_cons_of_mem p
  have hdeferred : y.deferred = x.deferred := by rw [hx]
  refine ⟨⟨fun _ => hy, by rw [hx], by rw [hx], by rw [hx], hmem, ?_⟩, ?_, by rw [hx], hdeferred⟩
  · simp only [Driver.events, hdeferred, mem_append, mem_map]
    grind
  · simp [Driver.events, hunread]

theorem Reading.defer (hr : x.Reading y) (hdeferred : y.deferred = x.deferred)
    (h : e ∈ x.events) : x.Reading (y.defer e) := by
  have hkept : ∀ kept : List Event, (∀ e' ∈ kept, e' ∈ x.deferred) →
      ∀ e' ∈ kept ++ [e], e' ∈ x.events := by
    simp only [Driver.events] at h ⊢
    grind
  simp only [Driver.defer, hdeferred]
  split
  · exact hr.cache (hkept _ fun _ => id)
  · exact hr.cache (hkept _ fun _ => mem_of_mem_tail)

theorem reading_take {w : Wait} {kept : List Event}
    (h : takeDeferred w.type w.trb x.deferred = some (e, kept)) :
    x.Reading { x with deferred := kept } ∧ e ∈ x.events := by
  obtain ⟨-, -, hmem, hkept⟩ := takeDeferred_some h
  exact ⟨(x.reading_keep _ _ _ _).cache fun e he => mem_append_right _ (hkept e he),
    mem_append_right _ hmem⟩

/-! ## The controller and the ring -/

theorem Orderly.post {trb : Bool → Trb} {serial : Option ℕ} (h : x.Orderly out)
    (hroom : x.hasRoom = true) (hcycle : ∀ c, (trb c).cycle = c)
    (hspares : ∀ c, (trb c).type = trbTransferEvent → (trb c).parameter ∉ x.addresses out) :
    (x.post trb serial).Orderly out := by
  obtain ⟨hreads, c, hunread⟩ := h.reads.post serial hroom hcycle
  refine ⟨hreads, h.placed, h.small, h.distinct, fun e he => ?_⟩
  simp only [Driver.events, hunread, map_append, mem_append, map_cons,
    map_nil, mem_singleton] at he
  rcases he with (he | rfl) | he
  · exact h.spares e (mem_append_left _ he)
  · exact hspares c
  · exact h.spares e (mem_append_right _ he)

theorem Orderly.complete (h : x.Orderly out) (status high : ℕ) :
    (x.complete out status high).Orderly out := by
  simp only [Driver.complete]
  split
  · exact h
  · rename_i o rest hqueue
    have haddresses : x.addresses out = o.address :: rest.map Outstanding.address := by
      rw [addresses, hqueue, map_cons]
    have hdistinct := haddresses ▸ h.distinct
    have hsmall := haddresses ▸ h.small
    have hpop : ({ x with outstanding := Function.update x.outstanding out rest } : Driver).Orderly
        out := by
      refine ⟨{ h.reads with }, h.placed, ?_, ?_, fun e he htype => ?_⟩
      all_goals simp only [addresses, Function.update_self]
      · exact fun a ha => hsmall a (mem_cons_of_mem _ ha)
      · exact (nodup_cons.mp hdistinct).2
      · exact fun hmem => haddresses ▸ h.spares e he htype <| by simp [hmem]
    split
    · split
      · rename_i hroom
        refine hpop.post hroom (eventTrb_cycle _ _ _ _) fun c _ => ?_
        rw [eventTrb_parameter (hsmall _ mem_cons_self)]
        simpa only [addresses, Function.update_self] using (nodup_cons.mp hdistinct).1
      · exact h
    · exact hpop

theorem Orderly.portChange (h : x.Orderly out) (parameter status high : ℕ) :
    (x.portChange parameter status high).Orderly out := by
  simp only [Driver.portChange]
  split
  · rename_i hroom
    refine h.post hroom (eventTrb_cycle _ _ _ _) fun c htype => ?_
    rw [eventTrb_type (by decide)] at htype
    exact absurd htype (by decide)
  · exact h

def nextOutstanding (x : Driver) (out : RingId) (s : Submission) : Outstanding :=
  ⟨x.nextSlot out, s, x.serial⟩

theorem push_outstanding (x : Driver) (out : RingId) (s : Submission) :
    (x.push out s).outstanding out = x.outstanding out ++ [x.nextOutstanding out s] := by
  simp [Driver.push, forget, nextOutstanding]

theorem Orderly.push (h : x.Orderly out) (hfree : x.SlotFree out) (s : Submission) :
    (x.push out s).Orderly out := by
  have haddresses : (x.push out s).addresses out = x.addresses out ++ [x.nextSlot out] := by
    simp [addresses, x.push_outstanding, nextOutstanding]
  refine ⟨{ h.reads with }, ?_, ?_, ?_, fun e he htype => ?_⟩
  · simpa [Driver.push, forget] using h.placed.push s
  · have hslot : x.nextSlot out < 2 ^ 64 := Nat.mod_lt _ (by decide)
    rw [haddresses]
    grind [h.small]
  · rw [haddresses, nodup_append]
    exact ⟨h.distinct, by simp, by grind [hfree.completed]⟩
  · rw [haddresses, mem_append, mem_singleton, not_or]
    rcases mem_append.mp he with he | he
    · obtain ⟨p, hp, rfl⟩ := mem_map.mp he
      exact ⟨h.spares _ (mem_append_left _ he) htype, hfree.read p hp htype⟩
    · obtain ⟨hold, hkept⟩ := mem_filter.mp he
      exact ⟨h.spares e (mem_append_right _ hold) htype, fun heq => by simp_all⟩

theorem Orderly.nextSlot_ne (h : x.Orderly out) (hbase : (x.rings out).base ≠ 0) :
    x.nextSlot out ≠ 0 := by
  obtain ⟨hindex, hfits⟩ := h.placed hbase
  simp only [trbSize, nextSlot] at hfits ⊢
  omega

/-- How a look at the events leaves a wait for a transfer on the ring. -/
inductive Outcome (x : Driver) (device dci : ℕ) (w : Wait) (y : Driver) : Prop where
  | waits (w' : Wait) (waiting : y.waiting = some w') (goal : w'.goal = w.goal)
      (type : w'.type = w.type) (trb : w'.trb = w.trb) (reading : x.Reading y)
  | gaveUp (waiting : y.waiting = none) (results : y.results = x.results ++ [w.goal.timedOut])
      (reading : x.Reading y)
  /-- the wait has its event -/
  | ended (waiting : y.waiting = none) (e : Event) (event : e ∈ x.events) (type : e.type = w.type)
      (trb : e.parameter = w.trb) (reading : x.Reading y)
  /-- and the send goes on with a zero-length packet -/
  | goesOn (length : ℕ) (goal : w.goal = .send device dci length) (z : Driver)
      (reading : x.Reading z)
      (push : y = { z.push (.ep device dci) zeroLengthSubmission with
        waiting := some
          { goal := .sendEnd length
            type := trbTransferEvent
            trb := z.nextSlot (.ep device dci)
            serial := z.serial } })

end Driver

variable {device : ℕ} {dci : ℕ}

theorem Driver.finish_outcome {w : Wait} (hr : x.Reading y)
    (hgoal : ∀ d c length, w.goal = .send d c length → d = device ∧ c = dci) (he : e ∈ x.events)
    (htype : e.type = w.type) (htrb : e.parameter = w.trb) :
    x.Outcome device dci w (y.finish w e) := by
  have hlast : x.Outcome device dci w (y.finishLast w e) := by
    obtain ⟨goal, type, trb, serial, polls, empty⟩ := w
    cases goal <;> exact .ended rfl e he htype htrb (hr.trans (y.reading_keep _ _ _ _))
  simp only [Driver.finish]
  split
  · rename_i d c length hsend
    obtain ⟨rfl, rfl⟩ := hgoal d c length hsend
    split
    · have hnone := takeDeferred_forget
        { y with
          waiting := none
          uses := y.uses ++ [⟨w.serial, e⟩]
          rings := Function.update y.rings (.ep d c)
            ((y.rings (.ep d c)).push zeroLengthSubmission).1 } (Or.inl rfl) (y.nextSlot (.ep d c))
      simp only [Driver.awaitLast]
      split
      · rename_i htake
        exact absurd (htake.symm.trans hnone) (by simp)
      · exact .goesOn length hsend _ (hr.trans (y.reading_keep y.pending none _ y.results)) rfl
    · exact hlast
  · exact hlast

theorem Driver.await_outcome {w : Wait}
    (hgoal : ∀ d c length, w.goal = .send d c length → d = device ∧ c = dci) :
    x.Outcome device dci w (x.await w) := by
  simp only [Driver.await]
  split
  · rename_i e kept htake
    obtain ⟨hr, he⟩ := Driver.reading_take htake
    obtain ⟨htype, htrb, -⟩ := takeDeferred_some htake
    exact Driver.finish_outcome hr hgoal he htype htrb
  · exact .waits w rfl rfl rfl rfl (x.reading_keep _ _ _ _)

theorem Driver.giveUp_outcome (w : Wait) : x.Outcome device dci w (x.giveUp w) :=
  .gaveUp rfl rfl (x.reading_keep _ _ _ _)

theorem Driver.pollFor_outcome {w : Wait} (hreads : x.Reads)
    (hgoal : ∀ d c length, w.goal = .send d c length → d = device ∧ c = dci) :
    x.Outcome device dci w (x.pollFor w) := by
  simp only [Driver.pollFor]
  split
  · exact Driver.giveUp_outcome w
  · split
    · split
      · exact Driver.giveUp_outcome w
      · exact .waits _ rfl rfl rfl rfl (x.reading_keep _ _ _ _)
    · rename_i e y hpoll
      obtain ⟨hr, he, -, hdeferred⟩ := Driver.reading_poll hreads hpoll
      split
      · rename_i hmatch
        exact Driver.finish_outcome hr hgoal he hmatch.1 hmatch.2
      · exact .waits _ rfl rfl rfl rfl
          ((hr.defer hdeferred he).trans (Driver.reading_keep _ _ _ _ _))

end Q1n1.Xhci
