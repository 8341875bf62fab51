import Q1n1.Verification.Glink.Running

/-! # What the steps do to the FIFOs and to the record of frames

Most steps touch neither; the invariants of the FIFOs and of the frames that crossed
them are proved of the few that do. -/

namespace Q1n1.Glink

open List Link

/-- The two links agree on the FIFOs, their words and what crossed them. -/
structure SameFifo (a b : Link) : Prop where
  txLength : b.s.txLength = a.s.txLength
  rxLength : b.s.rxLength = a.s.rxLength
  ourHead : b.s.txHead = a.s.txHead
  ourTail : b.s.rxTail = a.s.rxTail
  txTail : b.txTail = a.txTail
  txHead : b.txHead = a.txHead
  rxTail : b.rxTail = a.rxTail
  rxHead : b.rxHead = a.rxHead
  tx : b.tx = a.tx
  rx : b.rx = a.rx
  current : b.current = a.current
  arrived : b.arrived = a.arrived
  taken : b.taken = a.taken
  torn : b.torn = a.torn
  txUnruly : b.txUnruly = a.txUnruly
  rxUnruly : b.rxUnruly = a.rxUnruly
  trampled : b.trampled = a.trampled
  txRetreated : b.txRetreated = a.txRetreated
  state : b.s.state ≠ .released → a.s.state ≠ .released

/-- The second record extends the first by events that are no frames. -/
def QuietlyLonger (trace trace' : List Event) : Prop :=
  ∃ es, trace' = trace ++ es ∧ ∀ e ∈ es, e.isQuiet = true

theorem QuietlyLonger.refl (trace : List Event) : QuietlyLonger trace trace := ⟨[], by simp, nofun⟩

variable (g : Link)

theorem quietlyLonger_log {e : Event} (h : e.isQuiet = true) :
    QuietlyLonger g.trace (g.log e).trace :=
  ⟨[e], rfl, by simpa using h⟩

theorem QuietlyLonger.trans {t u v : List Event} (h : QuietlyLonger t u)
    (h' : QuietlyLonger u v) : QuietlyLonger t v := by
  obtain ⟨es, rfl, hes⟩ := h
  obtain ⟨es', rfl, hes'⟩ := h'
  exact ⟨es ++ es', by simp, forall_mem_append.mpr ⟨hes, hes'⟩⟩

variable (c : ChannelIx)

theorem quietlyLonger_clearFilled : QuietlyLonger g.trace (g.clearFilled c).trace := by
  refine ⟨(List.finRange 4).map (Event.cleared c), rfl, ?_⟩
  intro e he
  obtain ⟨i, _, rfl⟩ := mem_map.mp he
  rfl

theorem quietlyLonger_resetChannel : QuietlyLonger g.trace (g.resetChannel c).trace :=
  (quietlyLonger_clearFilled (g.setCh c _) c).trans (quietlyLonger_log _ rfl)

variable (rcid : ℕ)

theorem quietlyLonger_handleOpen : QuietlyLonger g.trace (g.handleOpen c rcid).trace := by
  unfold Link.handleOpen
  split
  · exact (quietlyLonger_clearFilled (g.setCh c _) c).trans
      (quietlyLonger_log ((g.reopen c).setCh c _) rfl)
  · exact quietlyLonger_log (g.setCh c _) rfl

theorem quietlyLonger_offer (id size : ℕ) : QuietlyLonger g.trace (g.offer c id size).trace := by
  unfold offer
  split
  · exact quietlyLonger_log { g with s := _ } rfl
  · exact quietlyLonger_log (g.setCh c _) rfl

variable (slot : Fin 8)

theorem quietlyLonger_rxDone (id : ℕ) (reuse : Bool) :
    QuietlyLonger g.trace (g.rxDone c slot id reuse).trace := by
  unfold rxDone noteReturn
  split
  · exact quietlyLonger_log (g.setCh c _) rfl
  · exact QuietlyLonger.refl _

theorem quietlyLonger_finishRelease : QuietlyLonger g.trace g.finishRelease.trace :=
  (quietlyLonger_resetChannel { g with tx := _, txHead := 0, rxTail := 0, s := _ } chClient).trans
    (quietlyLonger_resetChannel _ chSsr)

/-! ## The channel table -/

def Channel.opened (ch : Channel) (rcid : ℕ) : Channel :=
  (if ch.remoteOpened then ch.reopen else ch).recordOpen rcid

def Channel.offered (ch : Channel) (id size : ℕ) : Channel :=
  match offerSlot ch id with
  | none => ch
  | some slot => ch.offer slot id size

theorem handleOpen_ch :
    (g.handleOpen c rcid).s.ch = Function.update g.s.ch c ((g.s.ch c).opened rcid) := by
  unfold Link.handleOpen Channel.opened
  split
  · simp [recordOpen, reopen, setCh, log, clearFilled]
  · simp [recordOpen, setCh, log]

theorem offer_ch (id size : ℕ) :
    (g.offer c id size).s.ch = Function.update g.s.ch c ((g.s.ch c).offered id size) := by
  unfold offer Channel.offered
  cases h : offerSlot (g.s.ch c) id with
  | none => simp [log]
  | some slot => simp [log, setCh]

theorem rxDone_ch (id : ℕ) (reuse : Bool) :
    (g.rxDone c slot id reuse).s.ch = Function.update g.s.ch c ((g.s.ch c).rxDone slot reuse) := by
  unfold rxDone noteReturn
  split <;> rfl

theorem finishRelease_ch :
    ∃ wanted, g.finishRelease.s.ch c = { resetChannel (g.s.ch c) with wanted := wanted } := by
  rcases channelIx_cases c with rfl | rfl
  · exact ⟨_, rfl⟩
  · exact ⟨_, rfl⟩

variable (ch : Channel)

theorem opened_lcid : (ch.opened rcid).lcid = ch.lcid := by
  unfold Channel.opened
  split <;> rfl

theorem opened_closeSent : (ch.opened rcid).closeSent = ch.closeSent := by
  unfold Channel.opened
  split <;> rfl

theorem offered_lcid (id size : ℕ) : (ch.offered id size).lcid = ch.lcid := by
  unfold Channel.offered
  split <;> rfl

theorem offered_closeSent (id size : ℕ) : (ch.offered id size).closeSent = ch.closeSent := by
  unfold Channel.offered
  split <;> rfl

theorem sending_handleOpen : (g.handleOpen c rcid).sending = g.sending := by
  unfold Link.handleOpen
  split <;> rfl

theorem sending_offer (id size : ℕ) : (g.offer c id size).sending = g.sending := by
  unfold offer
  split <;> rfl

theorem sending_rxDone (id : ℕ) (reuse : Bool) :
    (g.rxDone c slot id reuse).sending = g.sending := by
  unfold rxDone noteReturn
  split <;> rfl

/-! ## Effects -/

/-- What a step is to someone who watches the FIFOs only. -/
inductive Effect (g : Link) : Link → Prop where
  | turn (t : Turn) (rest : List Turn) : Effect g (g.turn t rest)
  | publish (hdr data : List UInt8) (hstarted : g.s.state = .started) (hsettled : Settled g)
      (hfits : Fits g (hdr ++ data).length) (hallowed : Allowed g hdr data) :
      Effect g (g.publish hdr data)
  | take (n : ℕ) (hstarted : g.s.state = .started) (hsettled : Settled g)
      (hnone : g.current = none) (hframed : Framed g n) : Effect g (g.take n)
  | spent (n : ℕ) (hstarted : g.s.state = .started) (hcurrent : g.current = some n) :
      Effect g (g.spent n)
  | finishRelease : Effect g g.finishRelease
  | quiet (g' : Link) (hsame : SameFifo g g') (htrace : QuietlyLonger g.trace g'.trace) :
      Effect g g'

theorem SameFifo.refl : SameFifo g g := by
  constructor <;> first | rfl | exact fun h => h

theorem sameFifo_setCh : SameFifo g (g.setCh c ch) := { SameFifo.refl g with }

theorem sameFifo_log (e : Event) : SameFifo g (g.log e) := { SameFifo.refl g with }

theorem sameFifo_handleOpen : SameFifo g (g.handleOpen c rcid) := by
  unfold Link.handleOpen
  split <;> exact { SameFifo.refl g with }

theorem sameFifo_offer (id size : ℕ) : SameFifo g (g.offer c id size) := by
  unfold offer
  split <;> exact { SameFifo.refl g with }

theorem sameFifo_rxDone (id : ℕ) (reuse : Bool) : SameFifo g (g.rxDone c slot id reuse) := by
  unfold rxDone noteReturn
  split <;> exact { SameFifo.refl g with }

theorem sameFifo_deliver (slot : Fin 4) (b : Buffer) : SameFifo g (g.deliver c slot b) := by
  obtain ⟨s, hs, heq⟩ := deliver_eq g c slot b
  rw [heq]
  exact { SameFifo.refl g with
    txLength := hs.txLength, rxLength := hs.rxLength, ourHead := hs.txHead, ourTail := hs.rxTail
    state := fun h => hs.state ▸ h }

theorem Act.effect {g g' : Link} (hstarted : g.s.state = .started) (hsettled : Settled g)
    (h : Act g g') : Effect g g' := by
  cases h with
  | publish hdr data hfits hallowed => exact .publish hdr data hstarted hsettled hfits hallowed
  | take n hnone hframed => exact .take n hstarted hsettled hnone hframed
  | spent n hcurrent => exact .spent n hstarted hcurrent
  | reset c => exact .quiet _ { SameFifo.refl g with } (quietlyLonger_resetChannel g c)
  | closeAcked c => exact .quiet _ (sameFifo_setCh g c _) (.refl _)
  | opened c rcid =>
    exact .quiet _ (sameFifo_handleOpen g c rcid) (quietlyLonger_handleOpen g c rcid)
  | offer c n frame =>
    exact .quiet _ (sameFifo_offer g c _ _) (quietlyLonger_offer g c _ _)
  | returned c frame => exact .quiet _ (sameFifo_log g _) (quietlyLonger_log g rfl)
  | rxDone c slot reuse frame =>
    exact .quiet _ (sameFifo_rxDone g c slot _ reuse) (quietlyLonger_rxDone g c slot _ reuse)
  | pick c slot length => exact .quiet _ { SameFifo.refl g with } (.refl _)
  | advertise c slot =>
    exact .quiet _ { SameFifo.refl g with } ⟨[.cleared c slot], rfl, by simp [Event.isQuiet]⟩
  | finishRelease => exact .finishRelease

theorem Step.effect {g g' : Link} (h : Step g g') : Effect g g' := by
  cases h with
  | turn t rest => exact .turn t rest
  | quiet s servicing releasing hsame =>
    exact .quiet _ { SameFifo.refl g with
      txLength := hsame.txLength, rxLength := hsame.rxLength, ourHead := hsame.txHead
      ourTail := hsame.rxTail, state := fun hs => hsame.state ▸ hs } (.refl _)
  | wait => exact .quiet _ { SameFifo.refl g with } (.refl _)
  | fail error command hactive =>
    refine .quiet _ { SameFifo.refl g with state := fun _ => ?_ } (.refl _)
    rcases hactive with h | h <;> simp [h]
  | flags c ch => exact .quiet _ (sameFifo_setCh g c ch) (.refl _)
  | closed c => exact .quiet _ (sameFifo_setCh g c _) (.refl _)
  | invalidate c slot => exact .quiet _ (sameFifo_setCh g c _) (.refl _)
  | abandon c slot => exact .quiet _ { SameFifo.refl g with } (.refl _)
  | refuse before frame ch sending part =>
    exact .quiet _ { SameFifo.refl g with }
      (quietlyLonger_log { g.setFilled _ _ 0 with s := _ } rfl)
  | keep before frame ch sending part b =>
    exact .quiet _ { SameFifo.refl g with } (quietlyLonger_log (g.keep _ _ b _ _) rfl)
  | complete before frame ch sending part b =>
    have hsame := sameFifo_deliver (g.keep part.c part.slot b part.first part.payload)
      part.c part.slot b
    exact .quiet _ { hsame with } ⟨[_], rfl, by simp [Event.isQuiet]⟩
  | act _ hstarted hsettled hact => exact hact.effect hstarted hsettled

theorem Step.trace_prefix {g g' : Link} (h : Step g g') : g.trace <+: g'.trace := by
  cases h.effect with
  | turn | spent => exact prefix_rfl
  | publish | take => exact prefix_append _ _
  | finishRelease =>
    obtain ⟨es, hes, _⟩ := quietlyLonger_finishRelease g
    rw [hes]
    exact prefix_append _ _
  | quiet _ _ htrace =>
    obtain ⟨es, hes, _⟩ := htrace
    rw [hes]
    exact prefix_append _ _

end Q1n1.Glink
