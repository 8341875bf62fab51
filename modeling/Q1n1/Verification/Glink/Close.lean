import Q1n1.Library.History
import Q1n1.Verification.Glink.Effects

/-! # The close handshake

Once a CLOSE of ours is out, no OPEN for that channel follows before its CLOSE_ACK. -/

namespace Q1n1.Glink

open Cut History List Function Command

/-- Whether a CLOSE of ours naming `lcid` is still unanswered, one event later. -/
def closeStep (lcid : ℕ) (pending : Bool) : Event → Bool
  | .sent frame _ =>
    if headerCmd frame = Command.close.code ∧ headerP1 frame = lcid then true else pending
  | .dispatched frame _ _ =>
    if headerCmd frame = Command.closeAck.code ∧ headerP1 frame = lcid then false else pending
  | _ => pending

/-- Whether a CLOSE of ours naming `lcid` is unanswered after these events. -/
def closePending (lcid : ℕ) (trace : List Event) : Bool := trace.foldl (closeStep lcid) false

/-- An OPEN is published only when no CLOSE for its channel is unanswered. -/
def OpensAfterAck (before : List Event) : Event → Prop
  | .sent frame _ =>
    headerCmd frame = Command.open.code → closePending (headerP1 frame) before = false
  | _ => True

/-- A CLOSE of the remote's finds no channel whose own CLOSE is unanswered. -/
def NotCrossed : Event → Prop
  | .dispatched frame ch _ =>
    headerCmd frame = Command.close.code →
      ∀ c, byRcid ch (headerP1 frame) = some c → (ch c).closeSent = false
  | _ => True

def CloseKept (trace : List Event) : Prop := Every OpensAfterAck trace

def NoCrossedClose (trace : List Event) : Prop := ∀ e ∈ trace, NotCrossed e

instance (before : List Event) : DecidablePred (OpensAfterAck before)
  | .sent frame _ => inferInstanceAs (Decidable (headerCmd frame = Command.open.code → _ = false))
  | .dispatched .. | .opening _ | .closing _ | .offered .. | .returned .. | .kept .. | .refused ..
  | .cleared .. | .delivered .. => isTrue trivial

instance : DecidablePred NotCrossed
  | .dispatched frame ch _ =>
    inferInstanceAs (Decidable (headerCmd frame = Command.close.code →
      ∀ c, byRcid ch (headerP1 frame) = some c → (ch c).closeSent = false))
  | .sent .. | .opening _ | .closing _ | .offered .. | .returned .. | .kept .. | .refused ..
  | .cleared .. | .delivered .. => isTrue trivial

instance (trace : List Event) : Decidable (CloseKept trace) :=
  inferInstanceAs (Decidable (Every OpensAfterAck trace))

instance (trace : List Event) : Decidable (NoCrossedClose trace) :=
  inferInstanceAs (Decidable (∀ e ∈ trace, NotCrossed e))

theorem closePending_concat (lcid : ℕ) (trace : List Event) (e : Event) :
    closePending lcid (trace ++ [e]) = closeStep lcid (closePending lcid trace) e := by
  simp [closePending]

theorem closeStep_quiet (lcid : ℕ) (pending : Bool) {e : Event} (h : e.isQuiet = true) :
    closeStep lcid pending e = pending := by
  cases e with
  | sent => cases h
  | dispatched => cases h
  | _ => rfl

variable {trace trace' : List Event}

theorem closePending_quiet (lcid : ℕ) (h : QuietlyLonger trace trace') :
    closePending lcid trace' = closePending lcid trace := by
  obtain ⟨es, rfl, hes⟩ := h
  induction es generalizing trace with
  | nil => simp
  | cons e es ih =>
    rw [← singleton_append, ← append_assoc, ih fun e' he' => hes e' (by simp [he']),
      closePending_concat, closeStep_quiet _ _ (hes e mem_cons_self)]

theorem CloseKept.quiet (h : CloseKept trace) (hq : QuietlyLonger trace trace') :
    CloseKept trace' := by
  obtain ⟨es, rfl, hes⟩ := hq
  apply Every.append h
  intro e he before
  have hq := hes e he
  cases e with
  | sent => cases hq
  | _ => trivial

/-! ## The invariant -/

/-- The CLOSE of this channel is the last thing that happened. -/
def JustClosed (lcid : ℕ) (trace : List Event) : Prop :=
  ∃ frame ch, trace.getLast? = some (.sent frame ch) ∧
    headerCmd frame = Command.close.code ∧ headerP1 frame = lcid

/-- An unanswered CLOSE is remembered by its flag, from the moment after it was sent. -/
structure CloseInv (lcid : ChannelIx → ℕ) (g : Link) : Prop where
  ids : ∀ c, (g.s.ch c).lcid = lcid c
  kept : CloseKept g.trace
  pending : ∀ c, closePending (lcid c) g.trace = true →
    (g.s.ch c).closeSent = true ∨ g.s.state ≠ .started ∨ JustClosed (lcid c) g.trace

variable {lcid : ChannelIx → ℕ} {g : Link}

theorem CloseInv.closeSent (h : CloseInv lcid g) (hstarted : g.s.state = .started)
    (hsettled : Settled g) {c : ChannelIx} (hp : closePending (lcid c) g.trace = true) :
    (g.s.ch c).closeSent = true := by
  rcases h.pending c hp with h1 | h2 | ⟨frame, ch, hlast, hcmd, hp1⟩
  · exact h1
  · exact absurd hstarted h2
  · unfold Settled at hsettled
    rw [hlast] at hsettled
    exact hsettled hcmd c ((h.ids c).trans hp1.symm)

variable {g' : Link}

theorem CloseInv.quiet (h : CloseInv lcid g) (htrace : QuietlyLonger g.trace g'.trace)
    (hlcid : ∀ c, (g'.s.ch c).lcid = (g.s.ch c).lcid)
    (hclose : ∀ c, (g.s.ch c).closeSent = true → (g'.s.ch c).closeSent = true)
    (hpending : ∀ c, closePending (lcid c) g.trace = true →
      (g.s.ch c).closeSent = true ∨ g'.s.state ≠ .started) :
    CloseInv lcid g' where
  ids c := (hlcid c).trans (h.ids c)
  kept := h.kept.quiet htrace
  pending c hp := by
    rw [closePending_quiet _ htrace] at hp
    rcases hpending c hp with hs | hs
    · exact .inl (hclose c hs)
    · exact .inr (.inl hs)

theorem CloseInv.still (h : CloseInv lcid g) (htrace : g'.trace = g.trace)
    (hstate : g.s.state ≠ .started → g'.s.state ≠ .started)
    (hlcid : ∀ c, (g'.s.ch c).lcid = (g.s.ch c).lcid)
    (hclose : ∀ c, (g.s.ch c).closeSent = true → (g'.s.ch c).closeSent = true) :
    CloseInv lcid g' where
  ids c := (hlcid c).trans (h.ids c)
  kept := htrace ▸ h.kept
  pending c hp := by
    rw [htrace] at hp ⊢
    rcases h.pending c hp with h1 | h2 | h3
    · exact .inl (hclose c h1)
    · exact .inr (.inl (hstate h2))
    · exact .inr (.inr h3)

theorem headerP1_openFrame (ch : Channel) : headerP1 (openFrame ch) = ch.lcid % 65536 := by
  obtain ⟨n, rest, h⟩ := openFrame_eq ch
  rw [h, headerP1_header]

theorem CloseInv.published_other (h : CloseInv lcid g) (hstarted : g.s.state = .started)
    (hsettled : Settled g) {hdr data : List UInt8}
    (hopen : headerCmd (hdr ++ data) ≠ open.code)
    (hclose : headerCmd (hdr ++ data) ≠ close.code) :
    CloseInv lcid (g.publish hdr data) where
  ids := h.ids
  kept := by
    exact every_concat.mpr ⟨h.kept, fun hcmd => absurd hcmd hopen⟩
  pending c hp := by
    have hp' : closePending (lcid c) (g.trace ++ [.sent (hdr ++ data) g.s.ch]) = true := hp
    rw [closePending_concat, closeStep, if_neg fun hc => hclose hc.1] at hp'
    exact .inl (h.closeSent hstarted hsettled hp')

theorem CloseInv.publish (hlt : ∀ c, lcid c < 65536) (h : CloseInv lcid g)
    (hstarted : g.s.state = .started) (hsettled : Settled g) {hdr data : List UInt8}
    (hallowed : Allowed g hdr data) : CloseInv lcid (g.publish hdr data) := by
  cases hallowed with
  | short cmd p1 p2 hshort =>
    apply h.published_other hstarted hsettled
    · rw [headerCmd_header]
      cases cmd <;> simp_all [isShort, code]
    · rw [headerCmd_header]
      cases cmd <;> simp_all [isShort, code]
  | intent l size id =>
    apply h.published_other hstarted hsettled
    · rw [append_assoc, append_assoc, headerCmd_header]
      decide
    · rw [append_assoc, append_assoc, headerCmd_header]
      decide
  | data w _ _ _ =>
    apply h.published_other hstarted hsettled
    · rw [dataHeader, append_assoc, append_assoc, headerCmd_header]
      decide
    · rw [dataHeader, append_assoc, append_assoc, headerCmd_header]
      decide
  | close c =>
    refine ⟨h.ids, every_concat.mpr ⟨h.kept, ?_⟩, ?_⟩
    · intro hcmd
      rw [headerCmd_header] at hcmd
      cases hcmd
    · intro c' hp
      by_cases hc : lcid c' = headerP1 (header .close (g.s.ch c).lcid 0 ++ [])
      · refine .inr (.inr ⟨header .close (g.s.ch c).lcid 0 ++ [], g.s.ch, ?_, ?_, hc.symm⟩)
        · simp [Link.publish]
        · rw [headerCmd_header]
      · have hp' : closePending (lcid c')
            (g.trace ++ [.sent (header .close (g.s.ch c).lcid 0 ++ []) g.s.ch]) = true := hp
        rw [closePending_concat, closeStep, if_neg fun h => hc h.2.symm] at hp'
        exact .inl (h.closeSent hstarted hsettled hp')
  | «open» c hclose =>
    have hcmd : headerCmd (openFrame (g.s.ch c) ++ []) = open.code := by
      rw [append_nil, headerCmd_openFrame]
    have hp1 : headerP1 (openFrame (g.s.ch c) ++ []) = lcid c := by
      rw [append_nil, headerP1_openFrame, h.ids, Nat.mod_eq_of_lt (hlt c)]
    refine ⟨h.ids, every_concat.mpr ⟨h.kept, ?_⟩, ?_⟩
    · intro _
      rw [hp1]
      by_contra hne
      have := h.closeSent hstarted hsettled (c := c) (by simpa using hne)
      simp [hclose] at this
    · intro c' hp
      have hp' : closePending (lcid c')
          (g.trace ++ [.sent (openFrame (g.s.ch c) ++ []) g.s.ch]) = true := hp
      rw [closePending_concat, closeStep, hcmd, if_neg (by simp [code])] at hp'
      exact .inl (h.closeSent hstarted hsettled hp')

theorem CloseInv.take (h : CloseInv lcid g) (hstarted : g.s.state = .started) (hsettled : Settled g)
    (n : ℕ) :
    CloseInv lcid (g.take n) where
  ids := h.ids
  kept := every_concat.mpr ⟨h.kept, trivial⟩
  pending c hp := by
    have hp' : closePending (lcid c)
        (g.trace ++ [.dispatched (g.rxPeek 0 n) g.s.ch g.sending]) = true := hp
    rw [closePending_concat, closeStep] at hp'
    split at hp'
    · cases hp'
    · exact .inl (h.closeSent hstarted hsettled hp')

theorem closePending_acked {lcid : ℕ} {frame : List UInt8} {ch : Channels}
    {sending : Option Sending} (hlast : trace.getLast? = some (.dispatched frame ch sending))
    (hcmd : headerCmd frame = closeAck.code) (hp1 : headerP1 frame = lcid) :
    closePending lcid trace = false := by
  obtain ⟨before, rfl⟩ := List.getLast?_eq_some_iff.mp hlast
  rw [closePending_concat, closeStep, if_pos ⟨hcmd, hp1⟩]

theorem byLcid_eq {ch : Channels} {lcid : ℕ} {c : ChannelIx} (h : byLcid ch lcid = some c) :
    (ch c).lcid = lcid := by
  unfold byLcid at h
  split at h
  · cases h
    exact ‹_ ∧ _›.2
  · split at h
    · cases h
      exact ‹_ ∧ _›.2
    · cases h

theorem CloseInv.act (hlt : ∀ c, lcid c < 65536) (h : CloseInv lcid g)
    (hgood : NoCrossedClose g.trace) (hstarted : g.s.state = .started) (hsettled : Settled g)
    (hact : Act g g') : CloseInv lcid g' := by
  have hflag : ∀ c, closePending (lcid c) g.trace = true → (g.s.ch c).closeSent = true :=
    fun c => h.closeSent hstarted hsettled
  have hset : ∀ (c : ChannelIx) (ch : Channel), ch.lcid = (g.s.ch c).lcid →
      ch.closeSent = (g.s.ch c).closeSent → ∀ {g'}, g'.s.ch = (g.setCh c ch).s.ch →
      QuietlyLonger g.trace g'.trace → CloseInv lcid g' := by
    intro c ch hl hc g' hch htrace
    apply h.quiet htrace _ _ fun c hp => .inl (hflag c hp)
    · intro c'
      rw [hch, setCh_keeps Channel.lcid g c _ hl]
    · intro c' hs
      rw [hch, setCh_keeps Channel.closeSent g c _ hc]
      exact hs
  cases hact with
  | publish hdr data hfits hallowed => exact h.publish hlt hstarted hsettled hallowed
  | take n => exact h.take hstarted hsettled n
  | spent n =>
    exact h.quiet (.refl _) (fun _ => rfl) (fun _ hs => hs) fun c hp => .inl (hflag c hp)
  | reset c frame hseen hcmd hby =>
    have hnot : (g.s.ch c).closeSent = false := hgood _ hseen hcmd c hby
    refine ⟨?_, h.kept.quiet (quietlyLonger_resetChannel g c), ?_⟩
    · intro c'
      exact (setCh_keeps Channel.lcid g c (resetChannel (g.s.ch c)) rfl c').trans (h.ids c')
    · intro c' hp
      rw [closePending_quiet _ (quietlyLonger_resetChannel g c)] at hp
      have hs := hflag c' hp
      have hne : c' ≠ c := by
        rintro rfl
        simp [hnot] at hs
      left
      show ((update g.s.ch c _) c').closeSent = true
      rw [update_of_ne hne]
      exact hs
  | closeAcked c frame hlast hcmd hby hclose =>
    have hacked : closePending (lcid c) g.trace = false :=
      closePending_acked hlast hcmd ((byLcid_eq hby).symm.trans (h.ids c))
    refine ⟨?_, h.kept, ?_⟩
    · intro c'
      exact (setCh_keeps Channel.lcid g c ((g.s.ch c).ackClose) rfl c').trans (h.ids c')
    · intro c' hp
      have hne : c' ≠ c := by
        rintro rfl
        have hp' : closePending (lcid c') g.trace = true := hp
        simp [hacked] at hp'
      left
      show ((update g.s.ch c _) c').closeSent = true
      rw [update_of_ne hne]
      exact hflag c' hp
  | opened c rcid =>
    exact hset c _ (opened_lcid rcid _) (opened_closeSent rcid _) (handleOpen_ch g c rcid)
      (quietlyLonger_handleOpen g c rcid)
  | offer c n frame =>
    exact hset c _ (offered_lcid _ _ _) (offered_closeSent _ _ _) (offer_ch g c _ _)
      (quietlyLonger_offer g c _ _)
  | returned c frame =>
    exact h.quiet (quietlyLonger_log g rfl) (fun _ => rfl) (fun _ hs => hs)
      fun c hp => .inl (hflag c hp)
  | rxDone c slot reuse frame =>
    exact hset c ((g.s.ch c).rxDone slot reuse) rfl rfl (rxDone_ch g c slot _ reuse)
      (quietlyLonger_rxDone g c slot _ reuse)
  | pick c slot length =>
    exact hset c ((g.s.ch c).setUsed slot true) rfl rfl rfl (.refl _)
  | advertise c slot =>
    exact hset c ((g.s.ch c).advertised slot g.s.nextLiid) rfl rfl rfl
      ⟨[.cleared c slot], rfl, by simp [Event.isQuiet]⟩
  | finishRelease =>
    refine ⟨?_, h.kept.quiet (quietlyLonger_finishRelease g), ?_⟩
    · intro c
      obtain ⟨wanted, hch⟩ := finishRelease_ch g c
      rw [hch]
      exact h.ids c
    · intro c _
      exact .inr (.inl (by simp [Link.finishRelease]))

theorem CloseInv.step (hlt : ∀ c, lcid c < 65536) (hstep : Step g g') (h : CloseInv lcid g)
    (hgood : NoCrossedClose g.trace) : CloseInv lcid g' := by
  -- A step that stores or refuses a part follows a received frame, not a CLOSE of ours.
  have hpart : ∀ {before frame ch sending}, g.trace = before ++ [.dispatched frame ch sending] →
      ∀ c, closePending (lcid c) g.trace = true →
        (g.s.ch c).closeSent = true ∨ g.s.state ≠ .started := by
    intro before frame ch sending htrace c hp
    rcases h.pending c hp with h1 | h2 | ⟨f, ch', hlast, _⟩
    · exact .inl h1
    · exact .inr h2
    · simp [htrace] at hlast
  cases hstep with
  | turn t rest => exact h.still rfl (fun hs => hs) (fun _ => rfl) fun _ hs => hs
  | wait => exact h.still rfl (fun hs => hs) (fun _ => rfl) fun _ hs => hs
  | quiet s servicing releasing hsame =>
    refine h.still rfl ?_ ?_ ?_
    · intro hs
      rwa [← hsame.state] at hs
    · intro c
      rw [hsame.ch]
    · intro c hs
      rwa [hsame.ch]
  | fail error command hactive =>
    exact h.still rfl (fun _ => by simp [Link.fail]) (fun _ => rfl) fun _ hs => hs
  | flags c ch hflags =>
    refine h.still rfl (fun hs => hs) ?_ ?_
    · exact setCh_keeps Channel.lcid g c _ hflags.lcid
    · intro c' hs
      exact (setCh_keeps Channel.closeSent g c _ hflags.closeSent c').trans hs
  | closed c hopen =>
    refine h.still rfl (fun hs => hs) ?_ ?_
    · exact setCh_keeps Channel.lcid g c ((g.s.ch c).setCloseSent) rfl
    · intro c' hs
      by_cases hc : c' = c
      · subst hc
        simp [Link.setCh, Channel.setCloseSent]
      · simpa [Link.setCh, update_of_ne hc] using hs
  | invalidate c slot =>
    refine h.still rfl (fun hs => hs) ?_ ?_
    · exact setCh_keeps Channel.lcid g c ((g.s.ch c).retire slot) rfl
    · intro c' hs
      exact (setCh_keeps Channel.closeSent g c ((g.s.ch c).retire slot) rfl c').trans hs
  | abandon c slot =>
    refine h.still rfl (fun hs => hs) ?_ ?_
    · exact setCh_keeps Channel.lcid g c ((g.s.ch c).setUsed slot false) rfl
    · intro c' hs
      exact (setCh_keeps Channel.closeSent g c ((g.s.ch c).setUsed slot false) rfl c').trans hs
  | refuse before frame ch sending part htrace =>
    exact h.quiet (quietlyLonger_log { g.setFilled _ _ 0 with s := _ } rfl) (fun _ => rfl)
      (fun _ hs => hs) (hpart htrace)
  | keep before frame ch sending part b capacity htrace =>
    exact h.quiet (quietlyLonger_log (g.keep _ _ b _ _) rfl) (fun _ => rfl)
      (fun _ hs => hs) (hpart htrace)
  | complete before frame ch sending part b capacity htrace =>
    obtain ⟨s, hs, heq⟩ := deliver_eq (g.keep part.c part.slot b part.first part.payload)
      part.c part.slot b
    have hkeeps : ∀ {β : Type} (f : Channel → β),
        f ((g.s.ch part.c).giveBack part.slot) = f (g.s.ch part.c) → ∀ c,
        f (((g.keep part.c part.slot b part.first part.payload).deliver part.c part.slot b).s.ch c)
          = f (g.s.ch c) := by
      intro β f hf c
      rw [heq]
      apply (setCh_keeps f { g with s := s } part.c _ ?_ c).trans
      · exact congrArg (fun ch => f (ch c)) hs.ch
      · exact hf.trans (congrArg (fun ch => f (ch part.c)) hs.ch.symm)
    apply h.quiet ⟨[_], rfl, by simp [Event.isQuiet]⟩ (hkeeps Channel.lcid rfl)
    · intro c hc
      rw [hkeeps Channel.closeSent rfl]
      exact hc
    · intro c hp
      rw [heq]
      rcases hpart htrace c hp with h1 | h2
      · exact .inl h1
      · right
        show s.state ≠ .started
        rw [hs.state]
        exact h2
  | act _ hstarted hsettled hact => exact h.act hlt hgood hstarted hsettled hact

theorem NoCrossedClose.of_prefix (h : NoCrossedClose trace') (hp : trace <+: trace') :
    NoCrossedClose trace :=
  fun e he => h e (hp.subset he)

theorem closeInv_steps (hlt : ∀ c, lcid c < 65536) (hsteps : Steps g g') (h : CloseInv lcid g)
    (hgood : NoCrossedClose g'.trace) : CloseInv lcid g' := by
  apply steps_keep (I := fun a => NoCrossedClose a.trace → CloseInv lcid a) _ hsteps
    (fun _ => h) hgood
  intro a b hstep ih hb
  have ha := hb.of_prefix hstep.trace_prefix
  exact CloseInv.step hlt hstep (ih ha) ha

theorem closeInv_restart {lcid : ℕ} (hok : LcidOk lcid) (g : Link) (name : List UInt8)
    (mode : RestartMode) (words : List ℕ) :
    CloseInv (Ctx.initial hok).lcid (g.restart name lcid mode words) where
  ids := (live_restart hok g name mode words).1.lcid
  kept := every_nil
  pending c hp := by cases hp

/-- The close handshake, for every run in which no CLOSE of the remote's reaches a
channel that still waits for the CLOSE_ACK of our own. -/
theorem restart_closeKept (name : List UInt8) (lcid : ℕ) (mode : RestartMode) (g₀ g : Link)
    (hrestart : restart name lcid mode g₀ = (some .ok, g)) (ops : List Op)
    (hcrossed : NoCrossedClose (runOps ops g).2.trace) : CloseKept (runOps ops g).2.trace := by
  obtain ⟨a, words, hr, hsteps⟩ := session_steps hrestart ops
  exact (closeInv_steps (Ctx.initial_lcid_lt hr.lcidOk) hsteps
    (closeInv_restart hr.lcidOk a name mode words) hcrossed).kept

/-- The remote acknowledges our CLOSE before it opens the channel again. -/
def ackedLink : Link :=
  scripted 256 (openA 7 ++ header .close 7 0 ++ header .closeAck 5 0 ++ openA 7) 30

theorem restart_closeKept_acked : (restart [0x61] 5 .linux ackedLink).1 = some .ok ∧
      CloseKept (runOps [.poll] (restart [0x61] 5 .linux ackedLink).2).2.trace :=
  ⟨by decide +kernel, restart_closeKept [0x61] 5 .linux ackedLink _
    restart_returned [.poll] (by decide +kernel)⟩

/-- The remote opens and closes the channel again before it acknowledges our CLOSE: the
second CLOSE clears the flag, and the OPEN after it is answered by one of ours. -/
def crossedLink : Link :=
  scripted 256 (openA 7 ++ header .close 7 0 ++ openA 7 ++ header .close 7 0 ++ openA 7) 30

theorem restart_crossed_not_closeKept :
    ∃ g, restart [0x61] 5 .linux crossedLink = (some .ok, g) ∧
      ¬CloseKept (runOps [.poll] g).2.trace :=
  ⟨_, restart_returned, by decide +kernel⟩

end Q1n1.Glink
