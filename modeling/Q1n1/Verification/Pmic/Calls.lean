import Q1n1.Verification.Pmic.Phase

/-! # What the calls of the router keep -/

namespace Q1n1.Pmic

open Cut List Does Client

/-! ## What a step keeps -/

/-- The remote has kept its promise, and never let more frames wait than one poll handles. -/
structure Good (c : Client Wire) : Prop where
  answering : Answering c.link c.router
  roomy : c.link.crowded = false

/-- What only grows. -/
structure Grows (c c' : Client Wire) : Prop where
  stream : c.link.stream <+: c'.link.stream
  expired : c.router.expired <+: c'.router.expired
  crowded : c'.link.crowded = false → c.link.crowded = false

/-- At most one reply is owed, and none was discarded that did not answer a request timed out. -/
structure Safe (c : Client Wire) : Prop where
  orphans : c.router.orphans ≤ 1
  fair : Fair c.router.fates c.link.delivered c.router.expired

/-- The client moves on, and stays safe as long as the remote keeps its promise. -/
def SafeStep (c c' : Client Wire) : Prop := Grows c c' ∧ (Good c' → Safe c')

variable {c : Client Wire}

theorem Good.of_grows {c' : Client Wire} (h : Good c') (hg : Grows c c') : Good c := by
  have hmem : ∀ a ∈ c.link.stream, a ∈ c'.link.stream := fun a ha => hg.stream.subset ha
  refine ⟨⟨fun a ha => h.answering.marked a (hmem a ha), ?_,
    fun a ha => h.answering.asked a (hmem a ha), ?_⟩, hg.crowded h.roomy⟩
  · exact h.answering.ordered.sublist (hg.stream.sublist.filterMap _)
  · intro a ha k hk t ht
    exact h.answering.prompt a (hmem a ha) k hk t (hg.expired.subset ht)

/-- The state between two steps of a call: `n` requests are out, and the last is awaited or not. -/
structure At (n : ℕ) (waiting : Bool) (c : Client Wire) : Prop where
  wf : c.link.WF
  waiting : c.router.waiting = waiting
  paired : Good c → Safe c ∧ Phase c.link c.router ∧ Unread c.link ∧ c.link.requests.length = n

/-- The state between two calls: a link that is lost stays as it is. -/
structure Rest (c : Client Wire) : Prop where
  wf : c.link.WF
  waiting : c.router.waiting = false
  safe : Good c → Safe c
  paired : c.link.failed = false → Good c → Phase c.link c.router ∧ Unread c.link

theorem At.rest {n : ℕ} (h : At n false c) : Rest c :=
  ⟨h.wf, h.waiting, fun hg => (h.paired hg).1, fun _ hg => ⟨(h.paired hg).2.1, (h.paired hg).2.2.1⟩⟩

theorem Rest.at (h : Rest c) (hf : c.link.failed = false) : At c.link.requests.length false c :=
  ⟨h.wf, h.waiting, fun hg => ⟨h.safe hg, (h.paired hf hg).1, (h.paired hf hg).2, rfl⟩⟩

variable {w : Wire}

theorem Phase.orphans_le {r : Router} (h : Phase w r) : r.orphans ≤ 1 := by
  cases hw : r.waiting with
  | false =>
    rcases h.idle hw with ⟨h0, -⟩ | ⟨h1, -⟩
    · omega
    · omega
  | true =>
    have := (h.awaiting hw).1
    omega

/-! ### Calls of the link -/

theorem foldl_receive_keeps (as : List Arrival) (r : Router) :
    (as.foldl Router.receive r).waiting = r.waiting ∧
      (as.foldl Router.receive r).expired = r.expired ∧
      (r.waiting = false → (as.foldl Router.receive r).haveReply = r.haveReply) ∧
      (r.orphans = 0 → (as.foldl Router.receive r).orphans = 0) := by
  induction as generalizing r with
  | nil => simp
  | cons a as ih =>
    have hrec := r.received a
    obtain ⟨hw, he, hh, ho⟩ := ih (r.receive a)
    refine ⟨hw.trans hrec.waiting, he.trans hrec.expired, ?_, ?_⟩
    · intro hidle
      refine (hh (hrec.waiting.trans hidle)).trans ?_
      rcases hrec.cases with ⟨-, h, -⟩ | ⟨_, _, _, _, _, _, h, -⟩ | ⟨_, _, _, _, _, _, h, -⟩
      · exact h
      · exact h
      · rw [hidle] at h
        cases h
    · intro h0
      refine ho ?_
      rcases hrec.cases with ⟨h, -⟩ | ⟨_, _, _, _, hne, -⟩ | ⟨_, _, _, _, _, h, -⟩
      · exact h.trans h0
      · exact absurd h0 hne
      · exact h

section

variable {e : World} {α β : Type} {n : ℕ} {b : Bool} {m : Cut Wire α}

theorem onLink_moves (hw : c.link.WF) (hm : Moves c.link (m c.link).2) : (onLink e.ops m c).2 =
      { link := (m c.link).2
        router := (consumed c.link (m c.link).2).foldl Router.receive c.router } := by
  simp only [onLink, World.ops]
  rw [hm.deliver_new hw]

def Client.moved (c : Client Wire) (w : Wire) : Client Wire :=
  { link := w, router := (consumed c.link w).foldl Router.receive c.router }

theorem Client.grows_moved (hm : Moves c.link w) : Grows c (c.moved w) := by
  obtain ⟨new, hs, -⟩ := hm.stream
  refine ⟨⟨new, hs.symm⟩, ?_, hm.crowded⟩
  have hexp := (foldl_receive_keeps (consumed c.link w) c.router).2.1
  exact ⟨[], by rw [append_nil]; exact hexp.symm⟩

theorem onLink_sent {s : Wire} {p : List Arrival → Prop} (hw : c.link.WF) (hs : Moves c.link s)
    (hread : (m c.link).2.read = s.read)
    (hstream : ∃ new, (m c.link).2.stream = s.stream ++ new ∧ p new) :
    (onLink e.ops m c).2 = { c.moved s with link := (m c.link).2 } := by
  obtain ⟨new, hstream, -⟩ := hstream
  have hinbox : (m c.link).2.inbox = s.inbox := by
    rw [Wire.inbox, hread, hstream, Wire.inbox, take_append_of_le_length (hs.wf hw).within]
  simp only [onLink, World.ops, Client.moved]
  rw [hinbox, hs.deliver_new hw]

theorem At.moved (h : At n b c) (hm : Moves c.link w) : At n b (c.moved w) := by
  obtain ⟨hwait, hexp, -, -⟩ := foldl_receive_keeps (consumed c.link w) c.router
  refine ⟨hm.wf h.wf, hwait.trans h.waiting, ?_⟩
  intro hg
  obtain ⟨hsafe, hp, hu, hn⟩ := h.paired (hg.of_grows (grows_moved hm))
  have hr : Answering w c.router := by
    have := hg.answering
    exact ⟨this.marked, this.ordered, this.asked, by
      intro a ha k hk t ht
      refine this.prompt a ha k hk t ?_
      rw [Client.moved, hexp]
      exact ht⟩
  obtain ⟨hp', hu', hfair⟩ := hp.moveAll hu hsafe.fair hm h.wf hr
  exact ⟨⟨hp'.orphans_le, hfair⟩, hp', hu', hm.requests ▸ hn⟩

variable {P : Client Wire → Prop}

theorem does_onLink {Q : α → Client Wire → Prop}
    (hm : ∀ c, P c → At n b c ∧ Moves c.link (m c.link).2)
    (hQ : ∀ c a, P c → (m c.link).1 = some a → At n b (c.moved (m c.link).2) →
      Q a (c.moved (m c.link).2)) : Does SafeStep P (onLink e.ops m) Q := by
  intro c hc
  obtain ⟨hat, hmove⟩ := hm c hc
  have hnext := hat.moved hmove
  rw [onLink_moves hat.wf hmove]
  refine ⟨.single ⟨grows_moved hmove, fun hg => (hnext.paired hg).1⟩, ?_⟩
  intro a ha
  exact hQ c a hc ha hnext

theorem consumed_of_read {w' : Wire} (h : w'.read = w.read) : consumed w w' = [] := by
  rw [consumed, h, Nat.sub_self, take_zero]

theorem Client.moved_of_read (h : w.read = c.link.read) : c.moved w = { c with link := w } := by
  rw [Client.moved, consumed_of_read h, foldl_nil]

theorem does_modifyRouter {f : Router → Router} {Q : Unit → Client Wire → Prop}
    (hsafe : ∀ c, P c → SafeStep c { c with router := f c.router })
    (hQ : ∀ c, P c → Q () { c with router := f c.router }) : Does SafeStep P (modifyRouter f) Q :=
  does_modify hsafe hQ

theorem does_getRouter {Q : β → Client Wire → Prop} {f : Router → Cut (Client Wire) β}
    (h : ∀ c, P c → Does SafeStep (fun s => s = c) (f c.router) Q) :
    Does SafeStep P (getRouter >>= f) Q := by
  intro c hc
  exact h c hc c rfl

theorem SafeStep.of_router {r : Router} (hsafe : Good c → Safe c)
    (hexp : r.expired = c.router.expired) (hfates : r.fates = c.router.fates)
    (ho : Good c → r.orphans ≤ 1) : SafeStep c { c with router := r } := by
  have hgrows : Grows c { c with router := r } :=
    ⟨prefix_rfl, ⟨[], by rw [append_nil]; exact hexp.symm⟩, id⟩
  refine ⟨hgrows, fun hg => ?_⟩
  have hg' := hg.of_grows hgrows
  refine ⟨ho hg', ?_⟩
  have hfair := (hsafe hg').fair
  rw [← hexp, ← hfates] at hfair
  exact hfair

theorem Good.of_router {r : Router} (hg : Good { c with router := r })
    (hexp : r.expired = c.router.expired) : Good c :=
  ⟨⟨hg.answering.marked, hg.answering.ordered, hg.answering.asked, by
    rw [← hexp]; exact hg.answering.prompt⟩, hg.roomy⟩

theorem At.giveUp (h : At n false c) (ho : c.router.orphans ≠ 0)
    (hlate : orphanGiveUpUs < c.link.clock - c.router.orphanSinceUs) :
    At n false { c with router := { c.router with orphans := 0 } } := by
  have hclock : c.router.orphanSinceUs + orphanGiveUpUs < c.link.clock := by omega
  refine ⟨h.wf, h.waiting, ?_⟩
  intro hg
  obtain ⟨hsafe, hp, hu, hn⟩ := h.paired (hg.of_router rfl)
  refine ⟨⟨Nat.zero_le 1, hsafe.fair⟩, ⟨hp.count, hp.older, ?_, ?_⟩, hu, hn⟩
  · intro _
    refine .inl ⟨rfl, fun _ => ?_⟩
    rcases hp.idle h.waiting with ⟨h0, -⟩ | ⟨-, hexp⟩
    · exact absurd h0 ho
    · exact .inr ⟨_, hexp, hclock⟩
  · intro hw
    exact ⟨rfl, (hp.awaiting hw).2⟩

/-! ### A request goes out -/

/-- Ready to send: nothing is owed, and no reply is held. -/
structure Ready (n : ℕ) (c : Client Wire) : Prop extends At n false c where
  orphans : c.router.orphans = 0
  empty : c.router.haveReply = false

/-- A request has just gone out. -/
structure Sending (n : ℕ) (c : Client Wire) : Prop where
  wf : c.link.WF
  safe : Good c → Safe c
  paired : Good c → Phase c.link c.router.asked ∧ Unread c.link ∧ c.link.requests.length = n + 1

theorem Ready.moved (h : Ready n c) (hm : Moves c.link w) : Ready n (c.moved w) := by
  obtain ⟨-, -, hhave, hzero⟩ := foldl_receive_keeps (consumed c.link w) c.router
  exact ⟨h.toAt.moved hm, hzero h.orphans, (hhave h.waiting).trans h.empty⟩

theorem Wire.WF.publish (h : w.WF) (data : List UInt8) : (w.publish data).WF := ⟨h.within, h.roomy⟩

theorem Ready.no_reply (h : Ready n c) {s : Wire} (hs : Cleared c.link s) (hg : Good (c.moved s)) :
    ∀ a ∈ s.waiting, ∀ k, a.frame.answers? ≠ some k := by
  obtain ⟨hsafe, hp, hu, hn⟩ := h.paired (hg.of_grows (grows_moved hs.moves))
  obtain ⟨-, -, hu', hn'⟩ := (h.toAt.moved hs.moves).paired hg
  have hexp := (foldl_receive_keeps (consumed c.link s) c.router).2.1
  have hr : Answering s c.router :=
    ⟨hg.answering.marked, hg.answering.ordered, hg.answering.asked, by
      rw [← hexp]; exact hg.answering.prompt⟩
  obtain ⟨new, hstream, hnew⟩ := hs.moves.stream
  intro a ha k hk
  have hkn : k = c.link.requests.length := by rw [hu' a ha k hk, hn', hn]
  have hin : a ∈ new := by
    have hemptied := hs.emptied hg.roomy
    have hdrop : a ∈ s.stream.drop c.link.stream.length := by
      rw [Wire.waiting, ← Nat.add_sub_of_le hemptied, ← drop_drop] at ha
      exact mem_of_mem_drop ha
    rw [hstream, drop_left] at hdrop
    exact hdrop
  have h1 := (hr.asked a (mem_of_mem_drop ha) k hk).1
  rcases hp.idle h.waiting with ⟨-, hgone⟩ | ⟨h1', -⟩
  · refine (hgone (by omega)).not_arrives hstream (fun b hb => (hnew b hb).1) hr a hin ?_
    rw [hk, hkn]
  · rw [h.orphans] at h1'
    cases h1'

theorem Ready.send (h : Ready n c) {s : Wire} {data : List UInt8} (hs : Cleared c.link s)
    (hm : Moves (s.publish data) w) (hread : w.read = s.read) :
    Grows c { c.moved s with link := w } ∧ Sending n { c.moved s with link := w } := by
  obtain ⟨new, hstream, hnew⟩ := hm.stream
  have hnext : Ready n (c.moved s) := h.moved hs.moves
  have hgrows : Grows (c.moved s) { c.moved s with link := w } :=
    ⟨⟨new, hstream.symm⟩, prefix_rfl, hm.crowded⟩
  have hgrows' := grows_moved (c := c) hs.moves
  replace hstream : w.stream = s.stream ++ new := hstream
  have hwithin : s.read ≤ s.stream.length := hnext.wf.within
  have hdelivered : w.delivered = s.delivered := by
    rw [Wire.delivered, hread, hstream, take_append_of_le_length hwithin, Wire.delivered]
  have hlen : w.requests.length = s.requests.length + 1 := by
    rw [hm.requests]
    simp [Wire.publish]
  refine ⟨⟨hgrows'.stream.trans hgrows.stream, hgrows'.expired,
    fun hc => hgrows'.crowded (hgrows.crowded hc)⟩, hm.wf (hnext.wf.publish data), ?_, ?_⟩
  · intro hg
    obtain ⟨hsafe, -⟩ := hnext.paired (hg.of_grows hgrows)
    refine ⟨hsafe.orphans, ?_⟩
    have hfair := hsafe.fair
    rw [show (c.moved s).link.delivered = w.delivered from hdelivered.symm] at hfair
    exact hfair
  intro hg
  have hg' := hg.of_grows hgrows
  obtain ⟨-, hp, -, hn⟩ := hnext.paired hg'
  change s.requests.length = n at hn
  have hgone : ∀ k, Gone s (c.moved s).router k → Gone w (c.moved s).router.asked k := fun k hk =>
    hk.mono (fun a ha => by rw [hstream]; exact mem_append_left _ ha) (fun _ h => h) hm.clock
  have holder : ∀ k, 1 ≤ k → k ≤ n → Gone s (c.moved s).router k := by
    intro k h1 hk
    rcases Nat.lt_or_eq_of_le hk with hlt | rfl
    · exact hp.older k h1 (hn ▸ hlt)
    · rcases hp.idle hnext.waiting with ⟨-, hlast⟩ | ⟨h1', -⟩
      · change 1 ≤ s.requests.length → Gone s _ s.requests.length at hlast
        rw [hn] at hlast
        exact hlast h1
      · rw [hnext.orphans] at h1'
        cases h1'
  refine ⟨⟨?_, ?_, fun hw => (by cases hw), fun _ => ⟨hnext.orphans, ?_⟩⟩, ?_, by rw [hlen, hn]⟩
  · change (c.moved s).router.requests + 1 = w.requests.length
    rw [hlen, hp.count]
    rfl
  · intro k h1 hk
    change k < w.requests.length at hk
    exact hgone k (holder k h1 (by omega))
  · intro hhave
    change (c.moved s).router.haveReply = true at hhave
    rw [hnext.empty] at hhave
    cases hhave
  -- what is unread has arrived since the request went out
  intro a ha k hk
  change a ∈ w.stream.drop w.read at ha
  change k = w.requests.length
  rw [hread, hstream, drop_append_of_le_length hwithin] at ha
  rcases mem_append.mp ha with ha | ha
  · exact absurd hk (h.no_reply hs hg' a ha k)
  · have hin : a ∈ w.stream := by rw [hstream]; exact mem_append_right _ ha
    obtain ⟨h1, hle⟩ := hg.answering.asked a hin k hk
    rw [(hnew a ha).2] at hle
    simp only [Wire.publish, length_append, length_singleton] at hle
    by_contra hne
    exact (holder k h1 (by omega)).not_arrives (w := s) hstream (fun b hb => (hnew b hb).1)
      hg.answering a ha hk

/-! ### A request is answered, or times out -/

def Router.expiring (r : Router) : Router :=
  { r with waiting := false, orphans := r.orphans + 1 }

def Router.noteExpiry (r : Router) (time : ℕ) : Router :=
  { r with orphanSinceUs := time, expired := r.expired ++ [(r.requests, time)] }

theorem At.expired (h : At n true c) (time : ℕ) :
    At n false { c with router := c.router.expiring.noteExpiry time } := by
  have hgrows : Grows c { c with router := c.router.expiring.noteExpiry time } :=
    ⟨prefix_rfl, prefix_append _ _, id⟩
  refine ⟨h.wf, rfl, ?_⟩
  intro hg
  obtain ⟨hsafe, hp, hu, hn⟩ := h.paired (hg.of_grows hgrows)
  have hzero := (hp.awaiting h.waiting).1
  have hone : (c.router.expiring.noteExpiry time).orphans = 1 := by
    change c.router.orphans + 1 = 1
    rw [hzero]
  refine ⟨⟨hone.le, hsafe.fair.aligned, ?_⟩, ⟨hp.count, ?_, ?_, fun hw => (by cases hw)⟩, hu, hn⟩
  · intro p hp' hstale
    obtain ⟨hnone, k, t, hk, ht⟩ := hsafe.fair.stale p hp' hstale
    exact ⟨hnone, k, t, hk, mem_append_left _ ht⟩
  · intro k h1 hk
    exact (hp.older k h1 hk).mono (fun _ h => h) (fun _ h => mem_append_left _ h) le_rfl
  · intro _
    refine .inr ⟨hone, mem_append_right _ ?_⟩
    rw [← hp.count]
    exact mem_singleton.mpr rfl

theorem At.expiring_safe (h : At n true c) : SafeStep c { c with router := c.router.expiring } := by
  refine SafeStep.of_router (fun hg => (h.paired hg).1) rfl rfl ?_
  intro hg
  obtain ⟨-, hp, -, -⟩ := h.paired hg
  change c.router.orphans + 1 ≤ 1
  rw [(hp.awaiting h.waiting).1]

theorem At.answered (h : At n true c) (hhave : c.router.haveReply = true) :
    At n false { c with router := { c.router with waiting := false } } := by
  refine ⟨h.wf, rfl, ?_⟩
  intro hg
  obtain ⟨hsafe, hp, hu, hn⟩ := h.paired (hg.of_router rfl)
  obtain ⟨hzero, hgot⟩ := hp.awaiting h.waiting
  obtain ⟨a, ha, m, hf, -⟩ := hgot hhave
  refine ⟨⟨hsafe.orphans, hsafe.fair⟩, ⟨hp.count, hp.older, ?_, fun hw => (by cases hw)⟩, hu, hn⟩
  intro _
  exact .inl ⟨hzero, fun _ => .inl ⟨a, ha, _, by rw [hf, Frame.answers?], le_rfl⟩⟩

theorem At.lost (h : At n b c) (hf : c.link.failed = true) :
    Rest { c with router := { c.router with waiting := false } } :=
  ⟨h.wf, rfl, fun hg => ⟨((h.paired (hg.of_router rfl)).1).orphans,
    ((h.paired (hg.of_router rfl)).1).fair⟩, fun hnf => by
      change c.link.failed = false at hnf
      rw [hf] at hnf
      cases hnf⟩

section Lawful

variable (he : e.Lawful) {P : Client Wire → Prop}

include he

theorem now_spec (w : Wire) : Moves w (e.now w).2 ∧ (e.now w).2.read = w.read ∧
    ∀ t, (e.now w).1 = some t → t = (e.now w).2.clock := by
  simp only [World.now, bind_apply]
  have hm := he.moves w
  have hr := he.read w
  cases hturn : e.turn w with
  | mk r s =>
    rw [hturn] at hm hr
    cases r with
    | none => exact ⟨hm, hr, fun t ht => by cases ht⟩
    | some _ => exact ⟨hm, hr, fun t ht => by cases ht; rfl⟩

section

variable (hat : ∀ c, P c → At n b c)
include hat

theorem does_clientNow {Q : ℕ → Client Wire → Prop}
    (hQ : ∀ c w, P c → At n b { c with link := w } → Q w.clock { c with link := w }) :
    Does SafeStep P (Pmic.now e.ops) Q := by
  refine does_onLink (fun c hc => ⟨hat c hc, (now_spec he c.link).1⟩) ?_
  intro c t hc ht hnext
  obtain ⟨-, hread, hclock⟩ := now_spec he c.link
  change (e.now c.link).1 = some t at ht
  rw [hclock t ht]
  have hmoved : c.moved (e.ops.now c.link).2 = { c with link := (e.now c.link).2 } :=
    moved_of_read hread
  rw [hmoved] at hnext ⊢
  exact hQ c _ hc hnext

theorem does_relax {Q : Unit → Client Wire → Prop}
    (hQ : ∀ c w, P c → At n b { c with link := w } → Q () { c with link := w }) :
    Does SafeStep P (onLink e.ops e.ops.relax) Q := by
  refine does_onLink (fun c hc => ⟨hat c hc, he.moves c.link⟩) ?_
  intro c _ hc _ hnext
  have hmoved : c.moved (e.ops.relax c.link).2 = { c with link := (e.turn c.link).2 } :=
    moved_of_read (he.read c.link)
  rw [hmoved] at hnext ⊢
  exact hQ c _ hc hnext

theorem does_clientPoll : Does SafeStep P (onLink e.ops e.ops.poll) fun r c =>
      At n b c ∧ ∀ x, r = .error x → c.link.failed = true := by
  have hpoll : ∀ c, P c → Relation.ReflTransGen Moves c.link (e.poll c.link).2 ∧
      ∀ r, (e.poll c.link).1 = some r → Polled false c.link r (e.poll c.link).2 :=
    fun c hc => he.does_poll (hat c hc).wf c.link rfl
  refine does_onLink (fun c hc => ⟨hat c hc, Moves.of_steps (hpoll c hc).1⟩) ?_
  intro c r hc hr hnext
  exact ⟨hnext, ((hpoll c hc).2 r hr).lost⟩

end

omit he in
theorem does_pollFailed (hf : ∀ c, P c → c.link.failed = true) (servicing : Bool) (limit : ℕ) :
    Does SafeStep P (onLink e.ops (e.pollUpTo servicing limit)) fun r c =>
      r = .error .failed ∧ P c := by
  intro c hc
  have hpoll : e.pollUpTo servicing limit c.link = (some (.error .failed), c.link) := by
    simp [World.pollUpTo, bind_apply, hf c hc]
  have hstate : onLink e.ops (e.pollUpTo servicing limit) c = (some (.error .failed), c) := by
    simp [onLink, hpoll, World.ops]
  rw [hstate]
  exact ⟨.refl, fun r hr => by cases hr; exact ⟨rfl, hc⟩⟩

theorem does_awaitOrphans (deadline bound : ℕ) :
    Does SafeStep (At n false) (awaitOrphans e.ops deadline bound) fun s c =>
      At n false c ∧ (s = .ok → c.router.orphans = 0) := by
  induction bound with
  | zero => exact does_stop
  | succ bound ih =>
    refine does_getRouter fun c hc => does_ite (fun h0 => does_pure ?_) fun hne => ?_
    · rintro _ rfl
      exact ⟨hc, fun _ => h0⟩
    -- the time is read while the reply is owed
    refine bind (Q := fun t s => At n false s ∧ s.router.orphans ≠ 0 ∧ t = s.link.clock)
      (does_clientNow he (P := fun s => s = c) (by rintro _ rfl; exact hc) ?_) fun time => ?_
    · rintro _ w rfl hat
      exact ⟨hat, hne, rfl⟩
    refine does_getRouter fun s hs => does_ite (fun hlate => ?_) fun _ => ?_
    · refine bind (Q := fun _ s => At n false s ∧ s.router.orphans = 0)
        (does_modifyRouter ?_ ?_) fun _ => does_pure fun _ h => ⟨h.1, fun _ => h.2⟩
      · rintro _ rfl
        exact SafeStep.of_router (fun hg => (hs.1.paired hg).1) rfl rfl fun _ => Nat.zero_le 1
      · rintro _ rfl
        exact ⟨hs.1.giveUp hs.2.1 (by rw [← hs.2.2]; exact hlate), rfl⟩
    refine bind (Q := fun _ => At n false)
      (does_clientNow he (P := fun t => t = s) (by rintro _ rfl; exact hs.1) ?_) fun time => ?_
    · rintro _ w rfl hat
      exact hat
    refine does_cond (does_pure fun _ h => ⟨h, fun h => by cases h⟩) ?_
    refine bind (Q := fun _ => At n false) (does_relax he (fun _ h => h)
      fun _ _ _ hat => hat) fun _ => ?_
    refine (does_clientPoll he fun _ h => h).bind ?_
    rintro (x | k)
    · exact does_pure fun _ h => ⟨h.1, fun h => by cases h⟩
    · exact ih.pre fun _ h => h.1

theorem onLink_send (h : Ready n c) (data : List UInt8) (deadline : ℕ) :
    SafeStep c (onLink e.ops (e.send data deadline) c).2 ∧
      (∀ x, (e.send data deadline c.link).1 = some (.error x) →
        Rest (onLink e.ops (e.send data deadline) c).2) ∧
      ((e.send data deadline c.link).1 = some (.ok ()) →
        Sending n (onLink e.ops (e.send data deadline) c).2) := by
  have hsent := he.send_sent data deadline h.wf
  generalize hr : (e.send data deadline c.link).1 = r at hsent ⊢
  cases hsent with
  | unsent hm hne =>
    rw [onLink_moves h.wf hm]
    have hnext := h.toAt.moved hm
    exact ⟨⟨grows_moved hm, fun hg => (hnext.paired hg).1⟩, fun _ _ => hnext.rest,
      fun hok => absurd hok hne⟩
  | @sent s _ _ hs hm hread hlost =>
    obtain ⟨hgrows, hsending⟩ := h.send hs hm hread
    have hstate := onLink_sent (e := e) (m := e.send data deadline) h.wf hs.moves hread hm.stream
    rw [hstate]
    refine ⟨⟨hgrows, hsending.safe⟩, ?_, fun _ => hsending⟩
    intro x hx
    refine ⟨hsending.wf, (h.moved hs.moves).waiting, hsending.safe, ?_⟩
    intro hf
    change (e.send data deadline c.link).2.failed = false at hf
    rw [hlost x hx] at hf
    cases hf

theorem does_send (data : List UInt8) (deadline : ℕ) :
    Does SafeStep (Ready n) (onLink e.ops (e.ops.send data deadline)) fun r c =>
      (∀ x, r = .error x → Rest c) ∧ (r = .ok () → Sending n c) := by
  intro c hc
  obtain ⟨hstep, herror, hok⟩ := onLink_send he hc data deadline
  refine ⟨.single hstep, ?_⟩
  intro r hr
  change (e.send data deadline c.link).1 = some r at hr
  exact ⟨fun x hx => herror x (hr.trans (congrArg some hx)),
    fun hx => hok (hr.trans (congrArg some hx))⟩

omit he in
theorem does_asked : Does SafeStep (Sending n) (modifyRouter fun r =>
      { r with waiting := true, requests := r.requests + 1 }) fun _ => At (n + 1) true := by
  refine does_modifyRouter ?_ ?_
  · intro c hc
    exact SafeStep.of_router hc.safe rfl rfl fun hg => (hc.safe hg).orphans
  · intro c hc
    refine ⟨hc.wf, rfl, ?_⟩
    intro hg
    have hg' := hg.of_router rfl
    obtain ⟨hp, hu, hn⟩ := hc.paired hg'
    exact ⟨⟨(hc.safe hg').orphans, (hc.safe hg').fair⟩, hp, hu, hn⟩

theorem does_expire : Does SafeStep (At n true) (do
      modifyRouter fun r => { r with waiting := false, orphans := r.orphans + 1 }
      let time ← Pmic.now e.ops
      modifyRouter fun r =>
        { r with orphanSinceUs := time, expired := r.expired ++ [(r.requests, time)] }
      return (Status.timedOut : Status LinkError)) fun s c => s = .timedOut ∧ Rest c := by
  let Expiring : Client Wire → Prop := fun c => ∃ r, c.router = r.expiring ∧
    At n true { c with router := r }
  refine bind (Q := fun _ => Expiring) (does_modifyRouter (fun c hc => hc.expiring_safe) ?_)
    fun _ => ?_
  · intro c hc
    exact ⟨c.router, rfl, hc⟩
  refine bind (Q := fun _ => Expiring) ?_ fun time => ?_
  · -- time passes, and nothing is read
    rintro c ⟨r, hr, hat⟩
    obtain ⟨hm, hread, -⟩ := now_spec he c.link
    have hnext : At n true { c with link := (e.now c.link).2, router := r } := by
      have hmoved := hat.moved (w := (e.now c.link).2) hm
      rw [moved_of_read (c := { c with router := r }) hread] at hmoved
      exact hmoved
    have hstate : (Pmic.now e.ops c).2 = { c with link := (e.now c.link).2 } :=
      (onLink_moves (e := e) (m := e.now) (c := c) hat.wf hm).trans (moved_of_read hread)
    rw [hstate]
    refine ⟨.single ⟨?_, ?_⟩, fun _ _ => ⟨r, hr, hnext⟩⟩
    · have hgrows := grows_moved (c := c) hm
      rw [moved_of_read hread] at hgrows
      exact hgrows
    · intro hg
      have hsafe := hnext.expiring_safe.2
      rw [← hr] at hsafe
      exact hsafe hg
  refine bind (Q := fun _ => At n false) (does_modifyRouter ?_ ?_) fun _ =>
    does_pure fun _ h => ⟨rfl, h.rest⟩
  · rintro c ⟨r, hr, hat⟩
    refine ⟨⟨prefix_rfl, prefix_append _ _, id⟩, ?_⟩
    have hnext := (hat.expired time).paired
    intro hg
    rw [hr] at hg ⊢
    exact (hnext hg).1
  · rintro c ⟨r, hr, hat⟩
    rw [hr]
    exact hat.expired time

theorem does_awaitReply (deadline bound : ℕ) :
    Does SafeStep (At n true) (awaitReply e.ops deadline bound) fun s c =>
      (s = .ok → At n true c ∧ c.router.haveReply = true) ∧ (s ≠ .ok → Rest c) := by
  induction bound with
  | zero => exact does_stop
  | succ bound ih =>
    refine bind (does_clientPoll he fun _ h => h) ?_
    rintro (x | k)
    · refine bind (Q := fun _ => Rest) (does_modifyRouter ?_ ?_) fun _ =>
        does_pure fun _ h => ⟨fun h => (by cases h), fun _ => h⟩
      · rintro c ⟨hat, -⟩
        exact SafeStep.of_router (fun hg => (hat.paired hg).1) rfl rfl
          fun hg => (hat.paired hg).1.orphans
      · rintro c ⟨hat, hlost⟩
        exact hat.lost (hlost x rfl)
    refine does_getRouter fun c hc => does_ite (fun hhave => does_pure ?_) fun _ => ?_
    · rintro _ rfl
      exact ⟨fun _ => ⟨hc.1, hhave⟩, fun h => absurd rfl h⟩
    refine bind (Q := fun _ => At n true)
      (does_clientNow he (P := fun s => s = c) (by rintro _ rfl; exact hc.1) ?_) fun time => ?_
    · rintro _ w rfl hat
      exact hat
    refine does_cond ((does_expire he).post ?_) ?_
    · rintro _ s ⟨rfl, hrest⟩
      exact ⟨fun h => (by cases h), fun _ => hrest⟩
    · exact bind (Q := fun _ => At n true)
        (does_relax he (fun _ h => h) fun _ _ _ hat => hat) fun _ => ih

/-! ### A sample -/

/-- The data of a sample are those of the reply to request `n`. -/
def FromReply (n size : ℕ) (data : List UInt8) (c : Client Wire) : Prop :=
  c.link.requests.length = n ∧ ∃ a ∈ c.link.stream, ∃ m,
    a.frame = .message m (some n) ∧ data = (m.drop 12).take size

omit he in
theorem At.judged (h : At n true c) (hhave : c.router.haveReply = true) (hg : Good c) {size : ℕ}
    {data : List UInt8} (hj : c.router.judge (ε := LinkError) size = .ok data) :
    FromReply n size data c := by
  obtain ⟨-, hp, -, hn⟩ := h.paired hg
  obtain ⟨a, ha, m, hf, hreply, hlength⟩ := (hp.awaiting h.waiting).2 hhave
  rw [hn] at hf
  refine ⟨hn, a, ha, m, hf, ?_⟩
  rw [Router.judge] at hj
  split at hj
  · cases hj
  · rename_i hshape
    split at hj
    · cases hj
    · cases hj
      have hfull : m.length = replyBytes := by rw [← hlength]; simpa using (not_or.mp hshape).1
      rw [hreply, take_of_length_le hfull.le]

omit he in
theorem does_takeReply (size : ℕ) : Does SafeStep (fun c => At n true c ∧ c.router.haveReply = true)
      (takeReply (ε := LinkError) size) fun r c =>
        Rest c ∧ ∀ data, r = .ok data → Good c → FromReply n size data c := by
  let Taken : Client Wire → Prop := fun c => At n false c ∧
    ∀ data, c.router.judge (ε := LinkError) size = .ok data → Good c → FromReply n size data c
  refine bind (Q := fun _ => Taken) (does_modifyRouter ?_ ?_) fun _ => ?_
  · rintro c ⟨hat, -⟩
    exact SafeStep.of_router (fun hg => (hat.paired hg).1) rfl rfl
      fun hg => (hat.paired hg).1.orphans
  · rintro c ⟨hat, hhave⟩
    exact ⟨hat.answered hhave, fun data hj hg => hat.judged hhave (hg.of_router rfl) hj⟩
  refine does_getRouter fun c hc => ?_
  split
  · -- a reply of another shape is counted
    refine bind (Q := fun _ => At n false) (does_modifyRouter ?_ ?_) fun _ =>
      does_pure fun _ h => ⟨h.rest, fun _ h => (by cases h)⟩
    · rintro _ rfl
      exact SafeStep.of_router (fun hg => (hc.1.paired hg).1) rfl rfl
        fun hg => (hc.1.paired hg).1.orphans
    · rintro s rfl
      refine ⟨hc.1.wf, hc.1.waiting, fun hg => ?_⟩
      obtain ⟨hsafe, hp, hu, hn⟩ := hc.1.paired (hg.of_router rfl)
      exact ⟨⟨hsafe.orphans, hsafe.fair⟩, { hp with }, hu, hn⟩
  · refine does_pure ?_
    rintro _ rfl
    exact ⟨hc.1.rest, hc.2⟩

theorem does_exchange (reg size deadline : ℕ) :
    Does SafeStep (fun c => At n false c ∧ c.router.orphans = 0)
      (exchange e.ops reg size deadline) fun r c =>
        Rest c ∧ ∀ data, r = .ok data → Good c → FromReply (n + 1) size data c := by
  refine bind (Q := fun _ => Ready n) (does_modifyRouter ?_ ?_) fun _ => ?_
  · rintro c ⟨hat, h0⟩
    exact SafeStep.of_router (fun hg => (hat.paired hg).1) rfl rfl 
      fun _ => h0.le.trans zero_le_one
  · rintro c ⟨hat, h0⟩
    refine ⟨⟨hat.wf, rfl, fun hg => ?_⟩, h0, rfl⟩
    obtain ⟨hsafe, hp, hu, hn⟩ := hat.paired (hg.of_router rfl)
    exact ⟨⟨hsafe.orphans, hsafe.fair⟩,
      ⟨hp.count, hp.older, fun _ => hp.idle hat.waiting, fun hw => (by cases hw)⟩, hu, hn⟩
  refine (does_send he (requestFor reg size) deadline).bind ?_
  rintro (x | _)
  · exact does_pure fun _ h => ⟨h.1 x rfl, fun _ h => (by cases h)⟩
  refine bind (Q := fun _ => At (n + 1) true) (does_asked.pre fun _ h => h.2 rfl) fun _ => ?_
  refine does_get_bind fun c hc => ?_
  refine ((does_awaitReply he deadline _).pre (by rintro _ rfl; exact hc)).bind fun s => ?_
  by_cases hs : s = .ok
  · subst hs
    exact (does_takeReply size).pre fun _ h => h.1 rfl
  · cases s with
    | ok => exact absurd rfl hs
    | _ => exact does_pure fun _ h => ⟨h.2 (by simp), fun _ h => (by cases h)⟩

theorem does_sample (reg size deadline : ℕ) {c₀ : Client Wire} (h₀ : Rest c₀) :
    Does SafeStep (fun c => c = c₀) (Pmic.sample e.ops reg size deadline) fun r c =>
      Rest c ∧ ∀ data, r = .ok data → Good c →
        FromReply (c₀.link.requests.length + 1) size data c := by
  refine does_cond (does_pure ?_) ?_
  · rintro _ rfl
    exact ⟨h₀, fun _ h => (by cases h)⟩
  cases hf : c₀.link.failed with
  | true =>
    refine (does_pollFailed (fun c hc => by rw [hc]; exact hf) false _).bind fun r => ?_
    refine does_of_forall ?_
    rintro _ ⟨rfl, rfl⟩
    refine does_pure ?_
    rintro _ rfl
    exact ⟨h₀, fun _ h => (by cases h)⟩
  | false =>
    have hat := h₀.at hf
    refine (does_clientPoll he (by rintro _ rfl; exact hat)).bind ?_
    rintro (x | k)
    · exact does_pure fun _ h => ⟨h.1.rest, fun _ h => (by cases h)⟩
    refine does_get_bind fun c hc => ?_
    refine ((does_awaitOrphans he deadline _).pre (by rintro _ rfl; exact hc.1)).bind
      fun s => ?_
    by_cases hs : s = .ok
    · subst hs
      exact (does_exchange he reg size deadline).pre fun _ h => ⟨h.1, h.2 rfl⟩
    · cases s with
      | ok => exact absurd rfl hs
      | _ => exact does_pure fun _ h => ⟨h.1.rest, fun _ h => (by cases h)⟩

theorem does_sample_rest (reg size deadline : ℕ) :
    Does SafeStep Rest (Pmic.sample e.ops reg size deadline) fun _ => Rest :=
  does_of_forall fun _ h => (does_sample he reg size deadline h).post fun _ _ hq => hq.1

/-! ### Other calls -/

theorem does_read (reg size deadline : ℕ) :
    Does SafeStep Rest (Pmic.read e.ops reg size deadline) fun _ => Rest := by
  refine does_cond does_skip ?_
  refine (does_sample_rest he reg size deadline).bind ?_
  rintro (x | first)
  · exact does_skip
  refine (does_sample_rest he reg size deadline).bind ?_
  rintro (x | second)
  · exact does_skip
  refine bind (Q := fun _ => Rest) (does_gets fun _ h => h) fun r => ?_
  refine does_cond does_skip (does_cond does_skip ?_)
  refine bind (Q := fun _ => Rest) (does_modifyRouter ?_ ?_) fun _ => does_skip
  · intro c hc
    exact SafeStep.of_router hc.safe rfl rfl fun hg => (hc.safe hg).orphans
  · intro c hc
    refine ⟨hc.wf, hc.waiting, fun hg => ?_, fun hf hg => ?_⟩
    · have hsafe := hc.safe (hg.of_router rfl)
      exact { hsafe with }
    · obtain ⟨hp, hu⟩ := hc.paired hf (hg.of_router rfl)
      exact ⟨{ hp with }, hu⟩

theorem does_battery (deadline : ℕ) :
    Does SafeStep Rest (Pmic.battery e.ops deadline) fun _ => Rest := by
  refine (does_read he bst bstBytes deadline).bind ?_
  rintro (x | bstData)
  · exact does_skip
  refine (does_read he bix bixBytes deadline).bind ?_
  rintro (x | bixData)
  · exact does_skip
  refine (does_read he psr psrBytes deadline).bind ?_
  rintro (x | psrData)
  · exact does_skip
  · exact does_skip

theorem does_pollUpTo (servicing : Bool) (limit : ℕ)
    (hlimit : servicing = false → limit = framesPerPoll) :
    Does SafeStep Rest (onLink e.ops (e.pollUpTo servicing limit)) fun _ => Rest := by
  refine does_of_forall fun c hc => ?_
  cases hf : c.link.failed with
  | true =>
    refine (does_pollFailed (P := fun s => s = c) (by rintro _ rfl; exact hf) servicing limit).post
      ?_
    rintro _ _ ⟨-, rfl⟩
    exact hc
  | false =>
    refine does_onLink (n := c.link.requests.length) (b := false) ?_ fun _ _ _ _ hat => hat.rest
    rintro _ rfl
    exact ⟨hc.at hf, Moves.of_steps (he.does_pollUpTo servicing limit hc.wf hlimit _ rfl).1⟩

theorem does_op (op : Op) : Does SafeStep Rest (op.run e) fun _ => Rest := by
  cases op with
  | poll =>
    exact (does_pollUpTo he false framesPerPoll fun _ => rfl).bind fun _ =>
      does_skip
  | service maxFrames =>
    exact (does_pollUpTo he true _ fun h => by cases h).bind fun _ => does_skip
  | sample reg size deadline =>
    exact (does_sample_rest he reg size deadline).bind fun _ => does_skip
  | read reg size deadline =>
    exact (does_read he reg size deadline).bind fun _ => does_skip
  | battery deadline =>
    exact (does_battery he deadline).bind fun _ => does_skip

theorem does_runOps (ops : List Op) : Does SafeStep Rest (runOps e ops) fun _ => Rest := by
  induction ops with
  | nil => exact does_skip
  | cons op ops ih => exact (does_op he op).bind fun _ => ih

end Lawful

end

theorem rest_fresh (turns : List Turn) : Rest (fresh turns) where
  wf := ⟨le_rfl, fun _ => Nat.zero_le _⟩
  waiting := rfl
  safe := fun _ => ⟨Nat.zero_le 1, rfl, fun p hp => by cases hp⟩
  paired := fun _ _ => ⟨⟨rfl, fun k h1 hk => (by cases hk),
    fun _ => .inl ⟨rfl, fun h => by cases h⟩,
    fun hw => (by cases hw)⟩, fun a ha => by cases ha⟩

end Q1n1.Pmic
