import Q1n1.Verification.Glink.Writing

/-! # Driving a channel and handling a frame move along the steps -/

namespace Q1n1.Glink

open Cut List Link LiveWith Channel

def anyChannels : Channels → Prop := fun _ => True

def NotClosing (c : ChannelIx) : Channels → Prop := fun ch => (ch c).closeSent = false

variable {x : Ctx} {g : Link} {R : Channels → Prop}

theorem LiveWith.any (h : LiveWith x R g) : LiveWith x anyChannels g := ⟨h.1, trivial⟩

theorem modifyCh_bind {α : Type} {Q : α → Link → Prop} (c : ChannelIx) {f : Channel → Channel}
    {k : Unit → M α} (hk : Does Step (LiveWith x anyChannels) (k ()) Q)
    (hf : ∀ ch, FlagsOnly ch (f ch) := by
      exact fun _ => ⟨rfl, rfl, rfl, rfl, rfl, rfl, rfl, rfl, id⟩) :
    Does Step (LiveWith x R) (modifyCh c f >>= k) Q :=
  (modifyCh_does c anyChannels (fun ch _ => hf (ch c)) fun _ _ => trivial).bind fun _ => hk

theorem Ends.mono {P Q : Link → Prop} (h : ∀ g, P g → Q g) {status : Status}
    (he : Ends P status g) :
    Ends Q status g :=
  ⟨fun hok => h g (he.1 hok), he.2⟩

theorem andThen_modifyCh_does {R' : Channels → Prop} {P : Link → Prop} {first : M Status}
    (hfirst : Does Step P first (Ends (LiveWith x R))) (c : ChannelIx) {f : Channel → Channel}
    (hf : ∀ ch, R ch → FlagsOnly (ch c) (f (ch c)))
    (hR : ∀ ch, R ch → R' (Function.update ch c (f (ch c)))) :
    Does Step P
      (andThen first do
        modifyCh c f
        return .ok) (Ends (LiveWith x R')) := by
  apply andThen_does hfirst
  apply (modifyCh_does c _ hf hR).bind
  intro _
  exact ends_ok

variable {c : ChannelIx} {ch : Channels}

theorem notClosing_update {ch' : Channel} (h : ch'.closeSent = false) :
    NotClosing c (Function.update ch c ch') := by
  simpa [NotClosing] using h

theorem advertiseFrom_does (c : ChannelIx) (slots : List (Fin 4)) :
    Does Step (LiveWith x (NotClosing c)) (advertiseFrom c slots)
      (Ends (LiveWith x (NotClosing c))) := by
  induction slots with
  | nil => exact ends_ok
  | cons slot slots ih =>
    exact andThen_does (advertise_does c slot fun ch id h => notClosing_update h) ih

theorem driveAck_does (c : ChannelIx) :
    Does Step (LiveWith x (NotClosing c)) (driveAck c) (Ends (LiveWith x (NotClosing c))) := by
  apply does_get
  intro a _
  apply does_cond
  · apply andThen_modifyCh_does (control_does _ _ rfl)
    · intro ch _
      exact ⟨rfl, rfl, rfl, rfl, rfl, rfl, rfl, rfl, fun h => h⟩
    · intro ch h
      exact notClosing_update h
  · exact ends_ok

theorem driveOpen_does (c : ChannelIx) :
    Does Step (LiveWith x (NotClosing c)) (driveOpen c) (Ends (LiveWith x (NotClosing c))) := by
  have hopen : Does Step (LiveWith x (NotClosing c)) (sendOpen c)
      (Ends (LiveWith x (NotClosing c))) :=
    sendOpen_does c (fun _ h => h) fun _ h => notClosing_update h
  apply does_get
  intro a _
  apply does_cond
  · exact ends_ok
  · apply does_cond
    · exact hopen
    · apply (now_does (stable x (NotClosing c)).patient).bind
      intro time
      apply does_cond
      · exact hopen
      · exact ends_ok

theorem driveIntents_does (c : ChannelIx) : Does Step (LiveWith x (NotClosing c)) (driveIntents c)
      (Ends (LiveWith x (NotClosing c))) := by
  apply does_get
  intro a _
  apply does_cond
  · apply andThen_modifyCh_does (advertiseFrom_does c _)
    · intro ch _
      refine ⟨rfl, rfl, rfl, rfl, rfl, rfl, rfl, rfl, ?_⟩
      simp only [ready, Bool.and_eq_true]
      rintro ⟨⟨⟨h1, h2⟩, _⟩, h4⟩
      exact ⟨⟨⟨h1, h2⟩, trivial⟩, h4⟩
    · intro ch h
      exact notClosing_update h
  · exact ends_ok

theorem drive_does (c : ChannelIx) :
    Does Step (LiveWith x anyChannels) (drive c) (Ends (LiveWith x anyChannels)) := by
  apply does_get_bind
  intro a ha
  apply does_ite
  · intro _
    apply does_pure
    rintro g rfl
    exact .ok ha
  · intro hnot
    have hclosing : (a.s.ch c).closeSent = false := by
      by_contra hne
      exact hnot (.inr (.inl (by simpa using hne)))
    have hpre : ∀ g, g = a → LiveWith x (NotClosing c) g := by
      rintro g rfl
      exact ⟨ha.1, hclosing⟩
    apply Does.post (andThen_does ((driveAck_does c).pre hpre)
      (andThen_does (driveOpen_does c) (driveIntents_does c)))
    intro status g h
    exact h.mono fun _ => any

/-! ## OPEN and CLOSE -/

/-- The context in which a frame's handler runs: the frame is on record. -/
def Ctx.with (x : Ctx) (e : Event) : Ctx := { x with seen := e :: x.seen }

theorem LiveWith.without {e : Event} (h : LiveWith (x.with e) R g) : LiveWith x R g :=
  ⟨{ h.1 with seen := fun e' he => h.1.seen e' (mem_cons_of_mem _ he) }, h.2⟩

variable {a : Link}

/-- The frame being handled is on record, so its handler may rely on it. -/
theorem Live.with (ha : Live x a) {e : Event} (he : e ∈ a.trace) : Live (x.with e) a := by
  refine { ha with seen := ?_ }
  intro e' he'
  rcases mem_cons.mp he' with rfl | he'
  · exact he
  · exact ha.seen e' he'

theorem settled_log {e : Event} (he : e.isQuiet = true) : Settled (g.log e) := by
  unfold Settled
  simp only [log, List.getLast?_append, List.getLast?_singleton, Option.some_or]
  cases e with
  | sent => cases he
  | dispatched => cases he
  | _ => trivial

variable {frame : List UInt8}

theorem settled_dispatched {sending : Option Sending}
    (h : g.trace.getLast? = some (.dispatched frame ch sending)) :
    Settled g ↔ dataPart ch frame = none := by
  simp [Settled, h]

theorem Live.handleOpen (h : Live x g) (c : ChannelIx) (rcid : ℕ) :
    Live x (g.handleOpen c rcid) := by
  unfold Link.handleOpen Link.recordOpen
  split
  · refine h.after rfl rfl rfl ?_ ?_ ?_
    · intro c'
      exact (setCh_keeps lcid (g.reopen c) c (((g.reopen c).s.ch c).recordOpen rcid) rfl c').trans
        (setCh_keeps lcid g c ((g.s.ch c).reopen) rfl c')
    · simp [log, Link.setCh, Link.reopen, clearFilled]
    · exact settled_log rfl
  · refine h.after rfl rfl rfl ?_ ?_ ?_
    · exact setCh_keeps lcid g c _ rfl
    · simp [log, Link.setCh]
    · exact settled_log rfl

theorem handleOpen_does (ha : Live x a) (hseen : .dispatched frame a.s.ch a.sending ∈ a.trace)
    (hcmd : headerCmd frame = Command.open.code)
    (hname : a.rxPeek 8 (headerP2 frame % 65536) = openName frame) (rcid : ℕ) :
    Does Step (fun g => g = a) (handleOpen rcid (headerP2 frame % 65536))
      (Ends (LiveWith x anyChannels)) := by
  apply does_get_bind
  rintro _ rfl
  rw [hname]
  cases hmatch : openMatch _ (headerP2 frame % 65536) (openName frame) with
  | none =>
    apply Does.pre (P := LiveWith x anyChannels)
    · exact modifyS_bind (stable x anyChannels) ends_ok
    · rintro g rfl
      exact ⟨ha, trivial⟩
  | some c =>
    apply Does.bind (Q := fun _ => LiveWith x anyChannels)
    · apply does_modify_at
      · exact .act _ ha.started ha.settled (.opened c rcid frame hseen hcmd hmatch)
      · exact ⟨ha.handleOpen c rcid, trivial⟩
    · intro _
      apply does_cond
      · exact ends_ok
      · apply andThen_does (control_does _ _ rfl)
        refine modifyCh_bind c ?_
        apply does_get_bind
        intro b hb
        apply does_ite
        · rintro ⟨_, hclose⟩
          have hopen : Does Step (LiveWith x (NotClosing c)) (sendOpen c)
              (Ends (LiveWith x (NotClosing c))) :=
            sendOpen_does c (fun _ h => h) fun _ h => notClosing_update h
          apply Does.weaken hopen
          · rintro g rfl
            exact ⟨hb.1, hclose⟩
          · intro status g h
            exact h.mono fun _ => any
        · intro _
          apply does_pure
          rintro g rfl
          exact .ok hb

theorem Live.resetChannel (h : Live x g) (c : ChannelIx) : Live x (g.resetChannel c) := by
  refine h.after rfl rfl rfl ?_ ?_ ?_
  · exact setCh_keeps lcid g c _ rfl
  · simp [Link.resetChannel, log, Link.setCh, clearFilled]
  · exact settled_log rfl

theorem sendClose_does (c : ChannelIx) :
    Does Step (LiveWith x fun ch => (ch c).remoteOpened = false)
      (andThen (control .close (x.lcid c) 0) do
        modifyCh c setCloseSent
        return .ok) (Ends (LiveWith x anyChannels)) := by
  have hcmd := headerCmd_header_nil .close (x.lcid c) 0
  have hreply : Does Step (LiveWith x fun ch => (ch c).remoteOpened = false)
      (control .close (x.lcid c) 0)
      (Ends (Published (LiveWith x fun ch => (ch c).remoteOpened = false)
        (header .close (x.lcid c) 0) [])) := by
    apply reply_does (stable _ _) live
    intro g hg
    rw [← hg.1.lcid c]
    exact .close c
  apply andThen_does hreply
  apply Does.bind (Q := fun _ => LiveWith x anyChannels)
  · apply does_modify
    · rintro g ⟨a, ha, ht⟩
      apply Step.closed
      rw [ht.ch]
      exact ha.2
    · rintro g ⟨a, ⟨ha, _⟩, ht⟩
      refine ⟨ha.after ht.state ht.current ?_ ?_ ?_ ?_, trivial⟩
      · apply ht.sending.trans
        simp [Link.publish, isData_eq_of_headerCmd hcmd]
      · intro c'
        rw [setCh_keeps lcid g c ((g.s.ch c).setCloseSent) rfl c', ht.ch]
        rfl
      · show a.trace <+: g.trace
        rw [ht.trace]
        exact prefix_append _ _
      · have htrace : (g.setCh c (g.s.ch c).setCloseSent).trace.getLast? =
            some (.sent (header .close (x.lcid c) 0 ++ []) a.s.ch) := by
          show g.trace.getLast? = _
          simp [ht.trace, Link.publish]
        unfold Settled
        rw [htrace]
        intro _ c' hc'
        rw [setCh_keeps lcid g c ((g.s.ch c).setCloseSent) rfl c', ht.ch,
          show (a.publish _ []).s.ch = a.s.ch from rfl, ha.lcid, headerP1_header] at hc'
        rw [x.lcid_inj c c' hc']
        simp [Link.setCh, setCloseSent]
  · intro _
    exact ends_ok

theorem handleClose_does (ha : Live x a) (hseen : .dispatched frame a.s.ch a.sending ∈ a.trace)
    (hcmd : headerCmd frame = Command.close.code) :
    Does Step (fun g => g = a) (handleClose (headerP1 frame)) (Ends (LiveWith x anyChannels)) := by
  apply does_get_bind
  rintro _ rfl
  rename_i a
  cases hby : byRcid a.s.ch (headerP1 frame) with
  | none =>
    apply does_pure
    rintro g rfl
    exact .ok ⟨ha, trivial⟩
  | some c =>
    let x' := x.with (.dispatched frame a.s.ch a.sending)
    apply Does.pre (P := LiveWith x' fun ch => ch = a.s.ch)
    · refine modifyS_bind (stable x' _) ?_
      apply andThen_does (control_does _ _ rfl)
      apply does_get_bind
      rintro b ⟨hb, hch⟩
      apply Does.bind (Q := fun _ => LiveWith x' fun ch => (ch c).remoteOpened = false)
      · apply does_modify_at
        · have hsending : b.sending = a.sending := hb.sending.trans ha.sending.symm
          apply Step.act _ hb.started hb.settled
          apply Act.reset c frame
          · rw [hch, hsending]
            exact hb.seen _ mem_cons_self
          · exact hcmd
          · rw [hch]
            exact hby
        · refine ⟨hb.resetChannel c, ?_⟩
          simp [Link.resetChannel, log, clearFilled, Link.setCh, resetChannel]
      · intro _
        apply does_cond
        · rw [hb.lcid c]
          exact (sendClose_does c).post fun _ _ h => h.mono fun _ => without
        · exact does_pure fun g hg => .ok hg.without.any
    · rintro g rfl
      exact ⟨ha.with hseen, rfl⟩

/-! ## Intents -/

theorem handleIntentFrom_none_does (n count : ℕ) :
    Does Step (LiveWith x anyChannels) (handleIntentFrom none n count)
      (Ends (LiveWith x anyChannels)) := by
  induction count generalizing n with
  | zero => exact ends_ok
  | succ count ih =>
    apply does_get
    intro a _
    apply ((drop_does (stable x anyChannels)).post fun _ _ h => h.2).bind
    intro _
    exact ih (n + 1)

theorem Live.offer (h : Live x g) (c : ChannelIx) (id size : ℕ) : Live x (g.offer c id size) := by
  unfold Link.offer
  split
  · refine h.after rfl rfl rfl (fun _ => rfl) ?_ ?_
    · simp [log]
    · exact settled_log rfl
  · rename_i slot _
    refine h.after rfl rfl rfl ?_ ?_ ?_
    · exact setCh_keeps lcid g c ((g.s.ch c).offer slot id size) rfl
    · simp [log, Link.setCh]
    · exact settled_log rfl

theorem offer_remoteOpened (g : Link) (c : ChannelIx) (id size : ℕ) :
    ((g.offer c id size).s.ch c).remoteOpened = (g.s.ch c).remoteOpened := by
  unfold Link.offer
  split <;> simp [log, Link.setCh, Channel.offer]

theorem offer_rx (g : Link) (c : ChannelIx) (id size offset count : ℕ) :
    (g.offer c id size).rxPeek offset count = g.rxPeek offset count := by
  unfold Link.offer
  split <;> rfl

theorem handleIntentFrom_some_does (hseen : .dispatched frame ch x.sending ∈ x.seen)
    (hcmd : headerCmd frame = Command.intent.code) (hby : byRcid ch (headerP1 frame) = some c)
    (n count : ℕ) (hcount : n + count = headerP2 frame) :
    Does Step
      (fun g => LiveWith x (fun ch => (ch c).remoteOpened = true) g ∧
        ∀ k < headerP2 frame, get32 (g.rxPeek (8 + 8 * k) 8) = intentSize frame k ∧
          get32 ((g.rxPeek (8 + 8 * k) 8).drop 4) = intentId frame k)
      (handleIntentFrom (some c) n count) (Ends (LiveWith x anyChannels)) := by
  induction count generalizing n with
  | zero => exact does_pure fun g hg => .ok hg.1.any
  | succ count ih =>
    apply does_get_bind
    rintro a ⟨⟨ha, hopen⟩, hpairs⟩
    obtain ⟨hsize, hid⟩ := hpairs n (by omega)
    apply Does.bind _ fun _ => ih (n + 1) (by omega)
    apply does_modify_at
    · rw [hsize, hid]
      apply Step.act _ ha.started ha.settled
      apply Act.offer c n frame ch _ hcmd hby (by omega) hopen
      rw [ha.sending]
      exact ha.seen _ hseen
    · refine ⟨⟨ha.offer c _ _, ?_⟩, ?_⟩
      · exact (offer_remoteOpened a c _ _).trans hopen
      · intro k hk
        rw [offer_rx]
        exact hpairs k hk

theorem byRcid_remoteOpened {rcid : ℕ} (h : byRcid ch rcid = some c) :
    (ch c).remoteOpened = true ∧ (ch c).rcid = rcid := by
  unfold byRcid at h
  split at h
  · cases h
    assumption
  · split at h
    · cases h
      assumption
    · cases h

theorem handleIntent_does (ha : Live x a) (hseen : .dispatched frame a.s.ch a.sending ∈ a.trace)
    (hcmd : headerCmd frame = Command.intent.code)
    (hpairs : ∀ k < headerP2 frame, get32 (a.rxPeek (8 + 8 * k) 8) = intentSize frame k ∧
      get32 ((a.rxPeek (8 + 8 * k) 8).drop 4) = intentId frame k) :
    Does Step (fun g => g = a) (handleIntent (headerP1 frame) (headerP2 frame))
      (Ends (LiveWith x anyChannels)) := by
  apply does_get_bind
  rintro _ rfl
  rename_i a
  cases hby : byRcid a.s.ch (headerP1 frame) with
  | none =>
    apply (handleIntentFrom_none_does 0 _).pre
    rintro g rfl
    exact ⟨ha, trivial⟩
  | some c =>
    let x' := x.with (.dispatched frame a.s.ch a.sending)
    have hmem : .dispatched frame a.s.ch x'.sending ∈ x'.seen := by
      show Event.dispatched frame a.s.ch x.sending ∈ _
      rw [← ha.sending]
      exact mem_cons_self
    apply Does.weaken (handleIntentFrom_some_does (x := x') hmem hcmd hby 0 _ (by omega))
    · rintro g rfl
      exact ⟨⟨ha.with hseen, (byRcid_remoteOpened hby).1⟩, hpairs⟩
    · intro status g h
      exact h.mono fun _ => without

theorem Live.noteReturn (h : Live x g) (c : ChannelIx) (id : ℕ) (reuse : Bool) :
    Live x (g.noteReturn c id reuse) := by
  unfold Link.noteReturn
  split
  · refine h.after rfl rfl rfl (fun _ => rfl) ?_ (settled_log rfl)
    simp [log]
  · exact h

theorem handleRxDone_does (ha : Live x a) (hseen : .dispatched frame a.s.ch a.sending ∈ a.trace)
    (reuse : Bool) (hcmd : reuse = true → headerCmd frame = Command.rxDoneWReuse.code) :
    Does Step (fun g => g = a) (handleRxDone (headerP1 frame) (headerP2 frame) reuse)
      (Ends (LiveWith x anyChannels)) := by
  have hdrop := drop_ends (stable x anyChannels)
  apply does_get_bind
  rintro _ rfl
  rename_i a
  cases hby : byRcid a.s.ch (headerP1 frame) with
  | none =>
    apply hdrop.pre
    rintro g rfl
    exact ⟨ha, trivial⟩
  | some c =>
    dsimp only
    cases hslot : remoteSlot (a.s.ch c) (headerP2 frame) with
    | none =>
      apply Does.bind _ fun _ => hdrop
      cases reuse with
      | false =>
        apply does_modify_id
        · intro g _
          rfl
        · rintro g rfl
          exact ⟨ha, trivial⟩
      | true =>
        apply does_modify_at
        · exact .act _ ha.started ha.settled (.returned c frame hslot)
        · exact ⟨ha.noteReturn c _ true, trivial⟩
    | some slot =>
      apply Does.bind (Q := fun _ => LiveWith x anyChannels)
      · apply does_modify_at
        · exact .act _ ha.started ha.settled (.rxDone c slot reuse frame hseen hcmd hby hslot)
        · refine ⟨?_, trivial⟩
          exact (ha.setCh c ((a.s.ch c).rxDone slot reuse) rfl rfl).noteReturn c _ reuse
      · intro _
        exact ends_ok

theorem handleIntentRequest_does (rcid size : ℕ) :
    Does Step (LiveWith x anyChannels) (handleIntentRequest rcid size)
      (Ends (LiveWith x anyChannels)) := by
  have hdrop := drop_ends (stable x anyChannels)
  apply does_get
  intro a _
  cases byRcid a.s.ch rcid with
  | none => exact hdrop
  | some c =>
    apply does_cond
    · exact hdrop
    · cases if size ≤ (a.s.ch c).localSize then freeSlot (a.s.ch c) else none with
      | none => exact control_does _ _ rfl
      | some slot =>
        exact andThen_does (advertise_does c slot fun _ _ _ => trivial) (control_does _ _ rfl)

theorem returnIntent_does (c : ChannelIx) (slot : Fin 4) :
    Does Step (LiveWith x anyChannels) (returnIntent c slot) (Ends (LiveWith x anyChannels)) := by
  apply does_get
  intro a _
  apply does_cond
  · exact control_does _ _ rfl
  · apply Does.bind (control_does _ _ rfl)
    intro status
    apply Does.bind (Q := fun _ => Ends (LiveWith x anyChannels) status)
    · apply does_modify
      · intro g _
        exact .invalidate c slot
      · intro g hg
        exact ⟨fun hok =>
          ⟨(hg.1 hok).1.setCh c ((g.s.ch c).retire slot) rfl rfl, trivial⟩, hg.2⟩
    · intro _
      apply does_ite
      · intro hok
        exact (advertise_does c slot fun _ _ _ => trivial).pre fun g hg => hg.1 hok
      · intro hne
        exact does_pure fun _ h => h

theorem dataBuffer_eq_some {slot : Fin 4} {total : ℕ} {b : Buffer}
    (h : g.dataBuffer c slot total = some b) :
    ∃ capacity, localBuffer c slot = some (b, capacity) := by
  unfold Link.dataBuffer at h
  split at h
  · cases h
  · rename_i b' capacity hb
    split at h
    · cases h
    · cases h
      exact ⟨capacity, hb⟩

theorem deliverSsr_same (s : Session) (data : List UInt8) : SameCore s (deliverSsr s data) := by
  unfold deliverSsr
  split <;> exact ⟨rfl, rfl, rfl, rfl, rfl, rfl⟩

theorem deliver_eq (g : Link) (c : ChannelIx) (slot : Fin 4) (b : Buffer) : ∃ s, SameCore g.s s ∧
      g.deliver c slot b = (({ g with s := s }.setCh c ((g.s.ch c).giveBack slot)).setFilled
        c slot 0).log (.delivered c slot ((g.buffer b).load 0 (g.filled c slot))) := by
  refine ⟨_, ?_, rfl⟩
  split
  · have h := deliverSsr_same { g.s with messages := g.s.messages + 1 }
      ((g.buffer b).load 0 (g.filled c slot))
    exact { h with }
  · exact ⟨rfl, rfl, rfl, rfl, rfl, rfl⟩

theorem handleData_does (ha : Held x a) {before : List Event}
    (htrace : a.trace = before ++ [.dispatched frame a.s.ch a.sending])
    (hdata : isData frame = true) (hchunk : get32 ((a.rxPeek 0 16).drop 8) = get32 (frame.drop 8))
    (hleft : get32 ((a.rxPeek 0 16).drop 12) = get32 (frame.drop 12))
    (hpayload : a.rxPeek 16 (get32 (frame.drop 8)) = (frame.drop 16).take (get32 (frame.drop 8))) :
    Does Step (fun g => g = a)
      (handleData (headerP1 frame) (headerP2 frame)
        (decide (headerCmd frame = Command.txData.code)))
      (Ends (LiveWith x anyChannels)) := by
  apply does_get_bind
  rintro _ rfl
  rename_i a
  dsimp only
  rw [hchunk, hleft, hpayload]
  have hdrop : dataPart a.s.ch frame = none →
      Does Step (fun g => g = a) drop (Ends (LiveWith x anyChannels)) := by
    intro hnone
    apply (drop_ends (stable x anyChannels)).pre
    rintro g rfl
    have hlast : g.trace.getLast? = some (.dispatched frame g.s.ch g.sending) := by
      simp [htrace]
    exact ⟨⟨ha, (settled_dispatched hlast).mpr hnone⟩, trivial⟩
  cases hby : byRcid a.s.ch (headerP1 frame) with
  | none =>
    apply hdrop
    simp [dataPart, hdata, hby]
  | some c =>
    dsimp only
    cases hslot : localSlot (a.s.ch c) (headerP2 frame) with
    | none =>
      apply hdrop
      simp [dataPart, hdata, hby, hslot]
    | some slot =>
      have hpart : dataPart a.s.ch frame = some
          ⟨c, slot, decide (headerCmd frame = Command.txData.code),
            (frame.drop 16).take (get32 (frame.drop 8)), get32 (frame.drop 12)⟩ := by
        simp [dataPart, hdata, hby, hslot]
      dsimp only
      split
      · apply Does.bind (Q := fun _ => LiveWith x anyChannels)
        · apply does_modify_at
          · exact .refuse before frame _ _ _ htrace hpart
          · refine ⟨ha.after rfl rfl rfl (fun _ => rfl) ?_ ?_, trivial⟩
            · exact prefix_append _ _
            · exact settled_log rfl
        · intro _
          exact ends_ok
      · rename_i b hbuffer
        obtain ⟨capacity, hb⟩ := dataBuffer_eq_some hbuffer
        apply does_ite
        · intro hne
          apply Does.bind (Q := fun _ => LiveWith x anyChannels)
          · apply does_modify_at
            · exact .keep before frame _ _ _ b capacity htrace hpart hne hb
            · refine ⟨ha.after rfl rfl rfl (fun _ => rfl) ?_ ?_, trivial⟩
              · exact prefix_append _ _
              · exact settled_log rfl
          · intro _
            exact ends_ok
        · intro hzero
          apply Does.bind (Q := fun _ => LiveWith x anyChannels) _
            fun _ => returnIntent_does c slot
          apply does_modify_at
          · exact .complete before frame _ _ _ b capacity htrace hpart (not_not.mp hzero) hb
          · obtain ⟨s, hs, heq⟩ := deliver_eq (a.keep c slot b _ _) c slot b
            rw [heq]
            refine ⟨ha.after hs.state rfl rfl ?_ ?_ ?_, trivial⟩
            · intro c'
              apply (setCh_keeps lcid { a with s := s } c ((a.s.ch c).giveBack slot) ?_ c').trans
              · exact congrArg (fun ch => (ch c').lcid) hs.ch
              · exact congrArg (fun ch => (ch c).lcid) hs.ch.symm
            · exact prefix_append _ _
            · exact settled_log rfl

end Q1n1.Glink
