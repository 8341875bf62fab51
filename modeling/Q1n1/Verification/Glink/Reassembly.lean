import Q1n1.Library.History
import Q1n1.Verification.Glink.Effects

/-! # Reassembly of received messages

A message is the payload of a TX_DATA and of the TX_DATA_CONT frames that follow it under
the same channel and intent ids, up to one that leaves nothing to come. -/

namespace Q1n1.Glink

open Cut History List Function Option Link Event

/-! ## Messages in progress -/

/-- A message of which every part so far was kept. -/
structure Assembly where
  rcid : ℕ
  id : ℕ
  bytes : List UInt8
  left : ℕ

def Assembly.named (a : Assembly) (frame : List UInt8) : Bool :=
  decide (headerP1 frame = a.rcid) && decide (headerP2 frame = a.id)

/-- The frame may carry on with this message. -/
def Assembly.continuedBy (a : Assembly) (frame : List UInt8) : Bool :=
  a.named frame && decide (a.left ≠ 0)

/-- The message in progress once a part has joined it. -/
def joinPart (state : Option Assembly) (frame : List UInt8) (part : Part) : Option Assembly :=
  if part.first then some ⟨headerP1 frame, headerP2 frame, part.payload, part.left⟩
  else (state.filter (·.continuedBy frame)).map fun a =>
    { a with bytes := a.bytes ++ part.payload, left := part.left }

/-- The part a received frame brings to one slot. -/
def partFor (c : ChannelIx) (slot : Fin 4) (ch : Channels) (frame : List UInt8) : Option Part :=
  (dataPart ch frame).filter fun part => decide (part.c = c) && decide (part.slot = slot)

/-- A part that found no slot is lost to its message, a refused part ends it, and so does
whatever empties the slot. -/
def assembleStep (c : ChannelIx) (slot : Fin 4) (state : Option Assembly) : Event → Option Assembly
  | .dispatched frame ch _ =>
    match partFor c slot ch frame with
    | some part => joinPart state frame part
    | none => if isData frame then state.filter (!·.named frame) else state
  | .refused c' slot' | .cleared c' slot' | .delivered c' slot' _ =>
    if c' = c ∧ slot' = slot then none else state
  | _ => state

def assemble (c : ChannelIx) (slot : Fin 4) (trace : List Event) : Option Assembly :=
  trace.foldl (assembleStep c slot) none

/-- A buffer is handed over only as the whole message in progress on its slot. -/
def DeliversWhole (before : List Event) : Event → Prop
  | .delivered c slot message =>
    (assemble c slot before).map (fun a => (a.bytes, a.left)) = some (message, 0)
  | _ => True

/-- A TX_DATA_CONT that leaves nothing to come finds a message to finish. -/
def FinishesMessage (before : List Event) : Event → Prop
  | .dispatched frame ch _ =>
    ((dataPart ch frame).all fun part =>
      part.first || decide (part.left ≠ 0) ||
        (assemble part.c part.slot before).any (·.continuedBy frame)) = true
  | _ => True

def WholeMessages (trace : List Event) : Prop := Every DeliversWhole trace

def NoStrayEnd (trace : List Event) : Prop := Every FinishesMessage trace

instance (before : List Event) : DecidablePred (DeliversWhole before)
  | .delivered _ _ _ => inferInstanceAs (Decidable (_ = some _))
  | .dispatched .. | .sent .. | .opening _ | .closing _ | .offered .. | .returned .. | .kept ..
  | .refused .. | .cleared .. => isTrue trivial

instance (before : List Event) : DecidablePred (FinishesMessage before)
  | .dispatched _ _ _ => inferInstanceAs (Decidable (_ = true))
  | .sent .. | .opening _ | .closing _ | .offered .. | .returned .. | .kept .. | .refused ..
  | .cleared .. | .delivered .. => isTrue trivial

instance (trace : List Event) : Decidable (WholeMessages trace) :=
  inferInstanceAs (Decidable (Every DeliversWhole trace))

instance (trace : List Event) : Decidable (NoStrayEnd trace) :=
  inferInstanceAs (Decidable (Every FinishesMessage trace))

theorem assemble_concat (c : ChannelIx) (slot : Fin 4) (trace : List Event) (e : Event) :
    assemble c slot (trace ++ [e]) = assembleStep c slot (assemble c slot trace) e := by
  simp [assemble]

/-- A part for this slot has arrived with the event. -/
def Event.brings (e : Event) (c : ChannelIx) (slot : Fin 4) : Bool :=
  match e with
  | .dispatched frame ch _ => (partFor c slot ch frame).isSome
  | _ => false

variable {c : ChannelIx} {slot : Fin 4} {e : Event}

/-- An event that brings no part leaves the message in progress as it is, or ends it. -/
theorem assembleStep_eq_some {state : Option Assembly} {a : Assembly} (he : e.brings c slot = false)
    (h : assembleStep c slot state e = some a) : state = some a := by
  cases e with
  | dispatched frame ch sending =>
    have hpart : partFor c slot ch frame = none := by simpa [brings] using he
    simp only [assembleStep, hpart] at h
    split at h
    · exact (filter_eq_some_iff.mp h).1
    · exact h
  | refused c' slot' =>
    simp only [assembleStep] at h
    split at h
    · cases h
    · exact h
  | cleared c' slot' =>
    simp only [assembleStep] at h
    split at h
    · cases h
    · exact h
  | delivered c' slot' message =>
    simp only [assembleStep] at h
    split at h
    · cases h
    · exact h
  | _ => exact h

/-- Neither a received frame nor a delivery. -/
def Event.isCalm : Event → Bool
  | .dispatched _ _ _ | .delivered _ _ _ => false
  | _ => true

theorem Event.isCalm.brings (h : e.isCalm = true) (c : ChannelIx) (slot : Fin 4) :
    e.brings c slot = false := by
  cases e with
  | dispatched => cases h
  | _ => rfl

variable {trace es : List Event}

theorem assemble_calm {a : Assembly} (hes : ∀ e ∈ es, e.isCalm = true)
    (h : assemble c slot (trace ++ es) = some a) : assemble c slot trace = some a := by
  induction es generalizing trace with
  | nil => simpa using h
  | cons e es ih =>
    rw [← singleton_append, ← append_assoc] at h
    have hrest := ih (fun e' he' => hes e' (mem_cons_of_mem e he')) h
    rw [assemble_concat] at hrest
    exact assembleStep_eq_some (isCalm.brings (hes e mem_cons_self) c slot) hrest

theorem assemble_cleared (hes : ∀ e ∈ es, e.isCalm = true) (hmem : .cleared c slot ∈ es) :
    assemble c slot (trace ++ es) = none := by
  obtain ⟨before, after, rfl⟩ := append_of_mem hmem
  cases h : assemble c slot (trace ++ (before ++ .cleared c slot :: after)) with
  | none => rfl
  | some a =>
    rw [← singleton_append, ← append_assoc, ← append_assoc] at h
    have hold := assemble_calm (fun e he => hes e (by simp [he])) h
    rw [assemble_concat] at hold
    simp [assembleStep] at hold

/-! ## The invariant -/

def Stores (g : Link) (c : ChannelIx) (slot : Fin 4) (trace : List Event) : Prop :=
  ∀ a b capacity, assemble c slot trace = some a → localBuffer c slot = some (b, capacity) →
    g.filled c slot = a.bytes.length ∧ (g.buffer b).load 0 a.bytes.length = a.bytes

/-- The record without a part that is still to be stored. -/
def handled (c : ChannelIx) (slot : Fin 4) (trace : List Event) : List Event :=
  if trace.getLast?.any (·.brings c slot) then trace.dropLast else trace

structure AssemblyInv (g : Link) : Prop where
  whole : WholeMessages g.trace
  stores : ∀ c slot, Stores g c slot (handled c slot g.trace)

theorem handled_concat_of_brings (h : e.brings c slot = true) :
    handled c slot (trace ++ [e]) = trace := by
  simp [handled, h]

theorem handled_concat_of_not (h : e.brings c slot = false) :
    handled c slot (trace ++ [e]) = trace ++ [e] := by
  simp [handled, h]

variable {frame : List UInt8}

theorem partFor_eq_none {ch : Channels} (h : dataPart ch frame = none) :
    partFor c slot ch frame = none := by
  simp [partFor, h]

variable {g : Link}

theorem Settled.handled (h : Settled g) (c : ChannelIx) (slot : Fin 4) :
    handled c slot g.trace = g.trace := by
  unfold Settled at h
  unfold Glink.handled
  rw [if_neg]
  cases hlast : g.trace.getLast? with
  | none => simp
  | some e =>
    cases e with
    | dispatched frame ch sending =>
      rw [hlast] at h
      simp [brings, partFor_eq_none h]
    | _ => simp [brings]

/-- What a step does that receives and delivers nothing: a slot is left alone, or it is
emptied and the record says so. -/
structure Calm (g g' : Link) (es : List Event) : Prop where
  trace : g'.trace = g.trace ++ es
  calm : ∀ e ∈ es, e.isCalm = true
  buffer : g'.buffer = g.buffer
  filled : ∀ c slot, g'.filled c slot = g.filled c slot ∨ .cleared c slot ∈ es

variable {g' : Link}

theorem AssemblyInv.calm (h : AssemblyInv g) (hsettled : Settled g) (hcalm : Calm g g' es) :
    AssemblyInv g' := by
  obtain ⟨htrace, hes, hbuffer, hfilled⟩ := hcalm
  constructor
  · rw [htrace]
    apply Every.append h.whole
    intro e he before
    have hcalm := hes e he
    cases e with
    | delivered => cases hcalm
    | _ => trivial
  · intro c slot a b capacity ha hb
    have hhandled : handled c slot g'.trace = g.trace ++ es := by
      rw [htrace]
      rcases eq_nil_or_concat es with rfl | ⟨es', e, rfl⟩
      · rw [append_nil]
        exact hsettled.handled c slot
      · rw [concat_eq_append, ← append_assoc]
        exact handled_concat_of_not (isCalm.brings (hes e (by simp)) c slot)
    rw [hhandled] at ha
    have hold := h.stores c slot a b capacity
    rw [hsettled.handled c slot] at hold
    obtain ⟨hlength, hload⟩ := hold (assemble_calm hes ha) hb
    rcases hfilled c slot with hsame | hcleared
    · rw [hsame, hbuffer]
      exact ⟨hlength, hload⟩
    · rw [assemble_cleared hes hcleared] at ha
      cases ha

theorem AssemblyInv.same (h : AssemblyInv g) (htrace : g'.trace = g.trace)
    (hfilled : g'.filled = g.filled) (hbuffer : g'.buffer = g.buffer) : AssemblyInv g' := by
  constructor
  · rw [htrace]
    exact h.whole
  · intro c slot a b capacity
    rw [htrace, hfilled, hbuffer]
    exact h.stores c slot a b capacity

/-! ## Parts -/

variable {capacity : ℕ} {b : Buffer}

theorem localBuffer_inj {c' : ChannelIx} {slot' : Fin 4} {capacity' : ℕ}
    (h : localBuffer c slot = some (b, capacity))
    (h' : localBuffer c' slot' = some (b, capacity')) :
    c = c' ∧ slot = slot' := by
  rcases channelIx_cases c with rfl | rfl <;> rcases channelIx_cases c' with rfl | rfl <;>
    simp only [localBuffer, chClient, chSsr] at h h' <;> grind

theorem partFor_self {ch : Channels} {part : Part} (h : dataPart ch frame = some part) :
    partFor part.c part.slot ch frame = some part := by
  simp [partFor, h]

theorem partFor_other {ch : Channels} {part : Part} (h : dataPart ch frame = some part)
    (hne : ¬(c = part.c ∧ slot = part.slot)) :
    partFor c slot ch frame = none := by
  simp only [partFor, h, filter_some]
  rw [if_neg]
  simp only [Bool.and_eq_true, decide_eq_true_eq]
  exact fun hc => hne ⟨hc.1.symm, hc.2.symm⟩

section Storing

variable {g : Link} {before : List Event} {frame : List UInt8} {ch : Channels}
  {sending : Option Sending} {part : Part}
  (h : AssemblyInv g) (htrace : g.trace = before ++ [.dispatched frame ch sending])
  (hpart : dataPart ch frame = some part)
include h htrace hpart

theorem AssemblyInv.stores_before : Stores g part.c part.slot before := by
  have hs := h.stores part.c part.slot
  rwa [htrace, handled_concat_of_brings (by simp [brings, partFor_self hpart])] at hs

theorem AssemblyInv.stores_other (hne : ¬(c = part.c ∧ slot = part.slot)) :
    Stores g c slot g.trace := by
  have hs := h.stores c slot
  rwa [htrace, handled_concat_of_not (by simp [brings, partFor_other hpart hne]),
    ← htrace] at hs

omit h in
theorem assemble_joined :
    assemble part.c part.slot g.trace = joinPart (assemble part.c part.slot before) frame part := by
  rw [htrace, assemble_concat, assembleStep, partFor_self hpart]

theorem AssemblyInv.stores_keep (hbuffer : localBuffer part.c part.slot = some (b, capacity))
    (c : ChannelIx) (slot : Fin 4) :
    Stores (g.keep part.c part.slot b part.first part.payload) c slot g.trace := by
  intro a b' capacity' ha hb'
  by_cases hslot : c = part.c ∧ slot = part.slot
  · obtain ⟨rfl, rfl⟩ := hslot
    rw [hbuffer] at hb'
    cases hb'
    rw [assemble_joined htrace hpart, joinPart] at ha
    have hfilled : (g.keep part.c part.slot b part.first part.payload).filled part.c part.slot =
        g.heldFor part.c part.slot part.first + part.payload.length := by
      simp [keep, setFilled]
    have hmemory : (g.keep part.c part.slot b part.first part.payload).buffer b =
        (g.buffer b).store (0 + g.heldFor part.c part.slot part.first) part.payload := by
      simp [keep]
    cases hfirst : part.first with
    | true =>
      rw [hfirst, if_pos rfl] at ha
      cases ha
      rw [hfirst] at hfilled hmemory
      refine ⟨by simpa [heldFor] using hfilled, ?_⟩
      simp [hmemory, heldFor]
    | false =>
      rw [hfirst] at ha
      simp only [Bool.false_eq_true, if_false, map_eq_some_iff, filter_eq_some_iff] at ha
      obtain ⟨a', ⟨ha', _⟩, rfl⟩ := ha
      obtain ⟨hlength, hload⟩ := h.stores_before htrace hpart a' b capacity ha' hbuffer
      rw [hfirst] at hfilled hmemory
      have hheld : g.heldFor part.c part.slot false = a'.bytes.length := hlength
      rw [hheld] at hfilled hmemory
      rw [hfilled, hmemory, length_append, Memory.load_store_append, hload]
      exact ⟨rfl, rfl⟩
  · obtain ⟨hlength, hload⟩ := h.stores_other htrace hpart hslot a b' capacity' ha hb'
    have hne : b' ≠ b := by
      rintro rfl
      exact hslot (localBuffer_inj hb' hbuffer)
    have hfilled : (g.keep part.c part.slot b part.first part.payload).filled c slot =
        g.filled c slot := by
      simp only [keep, setFilled, update_apply]
      grind
    rw [hfilled]
    refine ⟨hlength, ?_⟩
    simpa [keep, update_of_ne hne] using hload

theorem AssemblyInv.keep (hbuffer : localBuffer part.c part.slot = some (b, capacity)) :
    AssemblyInv ((g.keep part.c part.slot b part.first part.payload).log
      (.kept part.c part.slot)) where
  whole := every_concat.mpr ⟨h.whole, trivial⟩
  stores c slot a b' capacity' ha hb' := by
    have ha' : assemble c slot (g.trace ++ [.kept part.c part.slot]) = some a := by
      rwa [← handled_concat_of_not (show (kept part.c part.slot).brings c slot = false from rfl)]
    rw [assemble_concat] at ha'
    exact h.stores_keep htrace hpart hbuffer c slot a b' capacity' ha' hb'

theorem AssemblyInv.refuse : AssemblyInv (g.refuse part.c part.slot) where
  whole := every_concat.mpr ⟨h.whole, trivial⟩
  stores c slot a b capacity ha hb := by
    have ha' : assemble c slot (g.trace ++ [.refused part.c part.slot]) = some a := by
      rwa [← handled_concat_of_not (show (refused part.c part.slot).brings c slot = false from rfl)]
    rw [assemble_concat, assembleStep] at ha'
    split at ha'
    · cases ha'
    · rename_i hne
      have hne' : ¬(c = part.c ∧ slot = part.slot) := fun hc => hne ⟨hc.1.symm, hc.2.symm⟩
      have hs := h.stores_other htrace hpart hne' a b capacity ha' hb
      have hfilled : (g.refuse part.c part.slot).filled c slot = g.filled c slot := by
        simp only [Link.refuse, log, setFilled, update_apply]
        grind
      rw [hfilled]
      exact hs

theorem AssemblyInv.complete (hleft : part.left = 0)
    (hbuffer : localBuffer part.c part.slot = some (b, capacity))
    (hend : FinishesMessage before (.dispatched frame ch sending)) :
    AssemblyInv ((g.keep part.c part.slot b part.first part.payload).deliver
      part.c part.slot b) := by
  set k := g.keep part.c part.slot b part.first part.payload with hk
  have hjoin : ∃ a, assemble part.c part.slot g.trace = some a ∧ a.left = 0 := by
    rw [assemble_joined htrace hpart, joinPart]
    cases hfirst : part.first with
    | true => exact ⟨_, rfl, hleft⟩
    | false =>
      simp only [FinishesMessage, hpart, Option.all_some, hfirst, hleft, ne_eq, not_true_eq_false,
        decide_false, Bool.false_or, Option.any_eq_true] at hend
      obtain ⟨a, ha, hcont⟩ := hend
      simp [ha, hcont, hleft]
  obtain ⟨a, ha, hzero⟩ := hjoin
  obtain ⟨hfilled, hload⟩ := h.stores_keep htrace hpart hbuffer part.c part.slot a b
    capacity ha hbuffer
  have htrace' : (k.deliver part.c part.slot b).trace =
      g.trace ++ [.delivered part.c part.slot a.bytes] := by
    show g.trace ++ [.delivered part.c part.slot
      ((k.buffer b).load 0 (k.filled part.c part.slot))] = _
    rw [hfilled, hload]
  constructor
  · rw [htrace']
    refine every_concat.mpr ⟨h.whole, ?_⟩
    simp [DeliversWhole, ha, hzero]
  · intro c slot a' b' capacity' ha' hb'
    rw [htrace', handled_concat_of_not rfl, assemble_concat, assembleStep] at ha'
    split at ha'
    · cases ha'
    · rename_i hne
      obtain ⟨hlength, hload⟩ := h.stores_keep htrace hpart hbuffer c slot a' b' capacity' ha' hb'
      have hfilled' : (k.deliver part.c part.slot b).filled c slot = k.filled c slot := by
        simp only [deliver, log, setFilled, setCh, update_apply]
        grind
      rw [hfilled']
      exact ⟨hlength, hload⟩

end Storing

/-! ## Steps -/

theorem calm_log (g : Link) (he : e.isCalm = true) : Calm g (g.log e) [e] :=
  ⟨rfl, by simpa using he, rfl, fun _ _ => .inl rfl⟩

theorem Calm.trans {a b c : Link} {es' : List Event} (h : Calm a b es) (h' : Calm b c es') :
    Calm a c (es ++ es') where
  trace := by rw [h'.trace, h.trace, append_assoc]
  calm e he := (mem_append.mp he).elim (h.calm e) (h'.calm e)
  buffer := h'.buffer.trans h.buffer
  filled ch slot := by
    rcases h'.filled ch slot with hs | hc
    · rw [hs]
      exact (h.filled ch slot).imp_right fun hc => mem_append_left _ hc
    · exact .inr (mem_append_right _ hc)

theorem calm_setCh (g : Link) (c : ChannelIx) (ch : Channel) : Calm g (g.setCh c ch) [] :=
  ⟨(append_nil _).symm, nofun, rfl, fun _ _ => .inl rfl⟩

theorem calm_clearFilled (g : Link) (c : ChannelIx) :
    Calm g (g.clearFilled c) ((finRange 4).map (cleared c)) where
  trace := rfl
  calm e he := by
    obtain ⟨i, _, rfl⟩ := mem_map.mp he
    rfl
  buffer := rfl
  filled c' slot := by
    by_cases hc : c' = c
    · subst hc
      exact .inr (mem_map_of_mem (mem_finRange slot))
    · left
      simp [clearFilled, update_of_ne hc]

theorem calm_resetChannel (g : Link) (c : ChannelIx) : ∃ es, Calm g (g.resetChannel c) es :=
  ⟨_, ((calm_setCh g c _).trans (calm_clearFilled _ c)).trans (calm_log _ rfl)⟩

theorem calm_handleOpen (g : Link) (c : ChannelIx) (rcid : ℕ) :
    ∃ es, Calm g (g.handleOpen c rcid) es := by
  unfold Link.handleOpen
  split
  · exact ⟨_, (((calm_setCh g c _).trans (calm_clearFilled _ c)).trans
      (calm_setCh (g.reopen c) c _)).trans (calm_log _ rfl)⟩
  · exact ⟨_, (calm_setCh g c _).trans (calm_log _ rfl)⟩

theorem calm_offer (g : Link) (c : ChannelIx) (id size : ℕ) :
    ∃ es, Calm g (g.offer c id size) es := by
  unfold Link.offer
  split
  · exact ⟨_, rfl, by simp [isCalm], rfl, fun _ _ => .inl rfl⟩
  · exact ⟨_, (calm_setCh g c _).trans (calm_log _ rfl)⟩

theorem calm_rxDone (g : Link) (c : ChannelIx) (slot : Fin 8) (id : ℕ) (reuse : Bool) :
    ∃ es, Calm g (g.rxDone c slot id reuse) es := by
  unfold Link.rxDone Link.noteReturn
  split
  · exact ⟨_, (calm_setCh g c _).trans (calm_log _ rfl)⟩
  · exact ⟨_, calm_setCh g c _⟩

theorem calm_advertise (g : Link) (c : ChannelIx) (slot : Fin 4) :
    Calm g (g.advertise c slot) [.cleared c slot] where
  trace := rfl
  calm := by simp [isCalm]
  buffer := rfl
  filled c' slot' := by
    by_cases hc : c' = c
    · subst hc
      by_cases hs : slot' = slot
      · subst hs
        exact .inr mem_cons_self
      · left
        simp [Link.advertise, update_of_ne hs]
    · left
      simp [Link.advertise, update_of_ne hc]

theorem calm_finishRelease (g : Link) : ∃ es, Calm g g.finishRelease es := by
  obtain ⟨es, h⟩ := calm_resetChannel
    { g with
      tx := fun a => if a < g.s.txLength then 0 else g.tx a
      txHead := 0
      rxTail := 0
      s := { g.s with txHead := 0, rxTail := 0 } } chClient
  obtain ⟨es', h'⟩ := calm_resetChannel _ chSsr
  have hall := h.trans h'
  exact ⟨_, hall.trace, hall.calm, hall.buffer, hall.filled⟩

theorem AssemblyInv.take (h : AssemblyInv g) (hsettled : Settled g) (n : ℕ) :
    AssemblyInv (g.take n) where
  whole := every_concat.mpr ⟨h.whole, trivial⟩
  stores c slot a b capacity ha hb := by
    have hold := h.stores c slot a b capacity
    rw [hsettled.handled] at hold
    refine hold ?_ hb
    have ha' : assemble c slot (handled c slot
        (g.trace ++ [.dispatched (g.rxPeek 0 n) g.s.ch g.sending])) = some a := ha
    cases hbrings : (dispatched (g.rxPeek 0 n) g.s.ch g.sending).brings c slot with
    | true => rwa [handled_concat_of_brings hbrings] at ha'
    | false =>
      rw [handled_concat_of_not hbrings, assemble_concat] at ha'
      exact assembleStep_eq_some hbrings ha'

theorem AssemblyInv.act (h : AssemblyInv g) (hsettled : Settled g) (hact : Act g g') :
    AssemblyInv g' := by
  have hcalm : (∃ es, Calm g g' es) → AssemblyInv g' := fun ⟨_, hc⟩ => h.calm hsettled hc
  cases hact with
  | publish hdr data =>
    exact hcalm ⟨[.sent (hdr ++ data) g.s.ch], rfl, by simp [isCalm], rfl,
      fun _ _ => .inl rfl⟩
  | take n => exact h.take hsettled n
  | spent n => exact h.same rfl rfl rfl
  | reset c => exact hcalm (calm_resetChannel g c)
  | closeAcked c => exact hcalm ⟨_, calm_setCh g c _⟩
  | opened c rcid => exact hcalm (calm_handleOpen g c rcid)
  | offer c n frame => exact hcalm (calm_offer g c _ _)
  | returned c frame => exact hcalm ⟨_, calm_log g rfl⟩
  | rxDone c slot reuse frame => exact hcalm (calm_rxDone g c slot _ reuse)
  | pick c slot length => exact h.same rfl rfl rfl
  | advertise c slot => exact hcalm ⟨_, calm_advertise g c slot⟩
  | finishRelease => exact hcalm (calm_finishRelease g)

theorem AssemblyInv.step (hstep : Step g g') (h : AssemblyInv g) (hgood : NoStrayEnd g'.trace) :
    AssemblyInv g' := by
  cases hstep with
  | refuse before frame ch sending part htrace hpart => exact h.refuse htrace hpart
  | keep before frame ch sending part b capacity htrace hpart hleft hbuffer =>
    exact h.keep htrace hpart hbuffer
  | complete before frame ch sending part b capacity htrace hpart hleft hbuffer =>
    apply h.complete htrace hpart hleft hbuffer
    apply hgood before _ [_]
    show g.trace ++ [_] = _
    rw [htrace, append_assoc]
    rfl
  | act _ hstarted hsettled hact => exact h.act hsettled hact
  | _ => exact h.same rfl rfl rfl

theorem assemblyInv_steps (hsteps : Steps g g') (h : AssemblyInv g) (hgood : NoStrayEnd g'.trace) :
    AssemblyInv g' := by
  apply steps_keep (I := fun a => NoStrayEnd a.trace → AssemblyInv a) _ hsteps (fun _ => h) hgood
  intro a b hstep ih hb
  exact AssemblyInv.step hstep (ih (hb.of_prefix hstep.trace_prefix)) hb

theorem assemblyInv_restart (g : Link) (name : List UInt8) (lcid : ℕ) (mode : RestartMode)
    (words : List ℕ) : AssemblyInv (g.restart name lcid mode words) where
  whole := every_nil
  stores c slot a b capacity ha := by cases ha

/-- Every buffer handed over is one whole message, for every run in which no
TX_DATA_CONT arrives to finish a message that is not in progress. -/
theorem restart_wholeMessages (name : List UInt8) (lcid : ℕ) (mode : RestartMode) (g₀ g : Link)
    (hrestart : restart name lcid mode g₀ = (some .ok, g)) (ops : List Op)
    (hgood : NoStrayEnd (runOps ops g).2.trace) : WholeMessages (runOps ops g).2.trace := by
  obtain ⟨a, words, _, hsteps⟩ := session_steps hrestart ops
  exact (assemblyInv_steps hsteps (assemblyInv_restart a name lcid mode words) hgood).whole

/-- The remote opens channel `"a"`, and sends more once our intents are out. -/
def openedLink (more : List UInt8) : Link :=
  let first := openA 7 ++ header .openAck 5 0
  let head := first.length + more.length
  freshLink 256
    (later 0 first.length (bytesFrom 0 first) :: List.replicate 20 (later 0 first.length []) ++
      later 0 head (bytesFrom first.length more) :: List.replicate 20 (later 0 head []))

def receivingOps : List Op := [.poll, .drive chClient, .poll]

/-- A data frame of four bytes under our first intent. -/
def fourBytes (cmd : Command) (left : ℕ) : List UInt8 :=
  header cmd 7 1 ++ put32 4 ++ put32 left ++ [1, 2, 3, 4, 0, 0, 0, 0]

theorem restart_wholeMessages_two_parts :
    (restart [0x61] 5 .linux (openedLink (fourBytes .txData 4 ++ fourBytes .txDataCont 0))).1 =
        some .ok ∧
      WholeMessages (runOps receivingOps (restart [0x61] 5 .linux
        (openedLink (fourBytes .txData 4 ++ fourBytes .txDataCont 0))).2).2.trace :=
  ⟨by decide +kernel, restart_wholeMessages [0x61] 5 .linux
    (openedLink (fourBytes .txData 4 ++ fourBytes .txDataCont 0)) _
    restart_returned receivingOps (by decide +kernel)⟩

/-- A TX_DATA_CONT that continues nothing is delivered as a message of its own. -/
theorem restart_stray_not_wholeMessages :
    ∃ g, restart [0x61] 5 .linux (openedLink (fourBytes .txDataCont 0)) = (some .ok, g) ∧
      ¬WholeMessages (runOps receivingOps g).2.trace :=
  ⟨_, restart_returned, by decide +kernel⟩

end Q1n1.Glink
