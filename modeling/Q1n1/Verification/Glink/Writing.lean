import Q1n1.Verification.Glink.Steps

/-! # Writing a frame moves along the steps

The contracts of the FIFO functions, from a turn of the world up to `advertise`. -/

namespace Q1n1.Glink

open Cut List

/-! ## What waiting leaves alone -/

/-- The second link differs in the world, the FIFOs and the counters only. -/
structure Turned (a b : Link) : Prop where
  ch : b.s.ch = a.s.ch
  state : b.s.state = a.s.state
  trace : b.trace = a.trace
  current : b.current = a.current
  sending : b.sending = a.sending

theorem turned_turn (g : Link) (t : Turn) (rest : List Turn) : Turned g (g.turn t rest) :=
  ⟨rfl, rfl, rfl, rfl, rfl⟩

theorem turned_quiet (g : Link) {s : Session} (servicing : ℕ) (releasing : Bool)
    (h : SameCore g.s s) :
    Turned g { g with s := s, servicing := servicing, releasing := releasing } :=
  ⟨h.ch, h.state, rfl, rfl, rfl⟩

theorem Settled.turned {a b : Link} (h : Turned a b) (hs : Settled a) : Settled b := by
  unfold Settled at *
  rw [h.trace, h.ch]
  exact hs

/-- A condition that no wait can break. -/
def Stable (P : Link → Prop) : Prop := ∀ a b, Turned a b → P a → P b

/-- A condition that no turn of the world can break. -/
def Patient (P : Link → Prop) : Prop := ∀ g t rest, P g → P (g.turn t rest)

variable {P : Link → Prop}

theorem Stable.patient (h : Stable P) : Patient P :=
  fun g t rest hg => h g _ (turned_turn g t rest) hg

/-- What a handler relies on from its caller and keeps for it. -/
structure Ctx where
  current : Option ℕ
  sending : Option Sending
  lcid : ChannelIx → ℕ
  lcid_inj : ∀ c c', lcid c' = lcid c % 65536 → c' = c
  seen : List Event

/-- The context holds, with the last event perhaps still to be followed up. -/
structure Held (x : Ctx) (g : Link) : Prop where
  started : g.s.state = .started
  current : g.current = x.current
  sending : g.sending = x.sending
  lcid : ∀ c, (g.s.ch c).lcid = x.lcid c
  seen : ∀ e ∈ x.seen, e ∈ g.trace

structure Live (x : Ctx) (g : Link) : Prop extends Held x g where
  settled : Settled g

variable {x : Ctx}

theorem Held.after {a b : Link} (ha : Held x a) (hstate : b.s.state = a.s.state)
    (hcurrent : b.current = a.current) (hsending : b.sending = a.sending)
    (hlcid : ∀ c, (b.s.ch c).lcid = (a.s.ch c).lcid) (htrace : a.trace <+: b.trace)
    (hsettled : Settled b) : Live x b where
  started := hstate.trans ha.started
  settled := hsettled
  current := hcurrent.trans ha.current
  sending := hsending.trans ha.sending
  lcid c := (hlcid c).trans (ha.lcid c)
  seen e he := htrace.subset (ha.seen e he)

/-- A live session whose channel table satisfies `R`. -/
def LiveWith (x : Ctx) (R : Channels → Prop) (g : Link) : Prop := Live x g ∧ R g.s.ch

theorem LiveWith.stable (x : Ctx) (R : Channels → Prop) : Stable (LiveWith x R) := by
  rintro a b h ⟨hl, hR⟩
  refine ⟨hl.after h.state h.current h.sending (fun c => ?_) ?_ (hl.settled.turned h), ?_⟩
  · rw [h.ch]
  · exact h.trace ▸ prefix_rfl
  · rw [h.ch]
    exact hR

/-- The usual postcondition: on success `P`, on an error the session has failed. -/
def Ends (P : Link → Prop) (status : Status) (g : Link) : Prop :=
  (status = .ok → P g) ∧ (status ≠ .ok → g.s.state = .failed)

variable {g : Link}

theorem Ends.ok (h : P g) : Ends P .ok g := ⟨fun _ => h, fun hne => absurd rfl hne⟩

theorem ends_ok : Does Step P (pure .ok) (Ends P) := does_pure fun _ h => .ok h

theorem Ends.error {e : Status} (he : e ≠ .ok) (h : g.s.state = .failed) : Ends P e g :=
  ⟨fun h => absurd h he, fun _ => h⟩

/-- What a function that may return a value leaves: the session live, or over. -/
def Returns {α : Type} (P : Link → Prop) (result : Except Status α) (g : Link) : Prop :=
  (∀ v, result = .ok v → P g) ∧ ∀ e, result = .error e → e ≠ .ok ∧ g.s.state = .failed

theorem Returns.ok {α : Type} {v : α} (h : P g) : Returns P (.ok v) g := ⟨fun _ _ => h, nofun⟩

theorem Returns.error {α : Type} {e : Status} (he : e ≠ .ok) (h : g.s.state = .failed) :
    Returns P (.error e : Except Status α) g := by
  refine ⟨nofun, ?_⟩
  rintro e' heq
  cases heq
  exact ⟨he, h⟩

section Rules

variable {P Q : Link → Prop}

theorem turn_does (hP : Patient P) : Does Step P turn fun _ g => P g := by
  intro g hg
  unfold turn
  split
  · exact ⟨.refl, fun _ h => by cases h⟩
  · rename_i t rest hturns
    exact ⟨.single (.turn t rest hturns), fun _ _ => hP g t rest hg⟩

theorem now_does (hP : Patient P) : Does Step P now fun _ g => P g :=
  (turn_does hP).bind fun _ => does_gets fun _ h => h

theorem rxAvail_does (hP : Patient P) :
    Does Step P rxAvail fun avail g => avail = g.rxAvail ∧ P g :=
  (turn_does hP).bind fun _ => does_gets fun _ h => ⟨rfl, h⟩

theorem txAvail_does (hP : Patient P) :
    Does Step P txAvail fun avail g => avail = g.txAvail ∧ P g :=
  (turn_does hP).bind fun _ => does_gets fun _ h => ⟨rfl, h⟩

theorem fail_does {error : Status} {command : ℕ} (he : error ≠ .ok) (hP : ∀ g, P g → Active g) :
    Does Step P (fail error command) fun status g =>
      status = error ∧ status ≠ .ok ∧ g.s.state = .failed := by
  apply Does.bind (Q := fun _ g => g.s.state = .failed)
  · apply does_modify
    · intro g hg
      exact .fail error command (hP g hg)
    · intro g _
      simp [Link.fail]
  · intro _
    exact does_pure fun g hg => ⟨rfl, he, hg⟩

theorem fail_ends {error : Status} {command : ℕ} (he : error ≠ .ok) (hP : ∀ g, P g → Active g) :
    Does Step P (fail error command) (Ends Q) :=
  (fail_does he hP).post fun _ _ h => .error h.2.1 h.2.2

theorem modifyS_does (hP : Stable P) {f : Session → Session} (hf : ∀ s, SameCore s (f s)) :
    Does Step P (modifyS f) fun _ g => P g := by
  apply does_modify
  · intro g _
    exact .quiet (f g.s) g.servicing g.releasing (hf g.s)
  · intro g hg
    exact hP _ _ (turned_quiet g g.servicing g.releasing (hf g.s)) hg

theorem modifyS_bind {α : Type} (hP : Stable P) {f : Session → Session} {k : Unit → M α}
    {Q : α → Link → Prop} (hk : Does Step P (k ()) Q)
    (hf : ∀ s, SameCore s (f s) := by exact fun _ => ⟨rfl, rfl, rfl, rfl, rfl, rfl⟩) :
    Does Step P (modifyS f >>= k) Q :=
  (modifyS_does hP hf).bind fun _ => hk

theorem drop_does (hP : Stable P) : Does Step P drop fun status g => status = .ok ∧ P g := by
  refine modifyS_bind hP ?_
  exact does_pure fun _ h => ⟨rfl, h⟩

theorem drop_ends (hP : Stable P) : Does Step P drop (Ends P) :=
  (drop_does hP).post fun _ _ h => h.1 ▸ .ok h.2

theorem andThen_does {first rest : M Status} (hfirst : Does Step P first (Ends Q))
    {R : Link → Prop} (hrest : Does Step Q rest (Ends R)) :
    Does Step P (andThen first rest) (Ends R) := by
  apply hfirst.bind
  intro status
  apply does_ite
  · intro hok
    exact hrest.pre fun g hg => hg.1 hok
  · intro hne
    exact does_pure fun g hg => .error hne (hg.2 hne)

/-! ## Writing a frame -/

theorem ring_does (hP : Stable P) (hactive : ∀ g, P g → Active g) : Does Step P ring (Ends P) := by
  refine modifyS_bind hP ?_
  apply (turn_does hP.patient).bind
  intro _
  apply (does_gets (Q := fun _ g => P g) fun _ h => h).bind
  intro faults
  apply does_cond
  · exact fail_ends (by decide) hactive
  · exact does_pure fun _ h => .ok h

/-- What a blocked write may run between two looks at the FIFO. -/
def DrainDoes (P : Link → Prop) (drain : Drain) : Prop :=
  ∀ poll, drain = some poll → Does Step P poll (Returns P)

/-- A wait for room ends with room, with the deadline, or with the session over. -/
def Waited (P : Link → Prop) (size : ℕ) (space : Except Status Unit) (g : Link) : Prop :=
  (∀ u, space = .ok u → P g ∧ Fits g size) ∧
    ∀ e, space = .error e → e ≠ .ok ∧ ((e = .etimedout ∧ P g) ∨ g.s.state = .failed)

theorem wait_does (hP : Stable P) : Does Step P (modify Link.wait) fun _ g => P g := by
  apply does_modify
  · intro g _
    exact .wait
  · intro g hg
    exact hP g _ ⟨rfl, rfl, rfl, rfl, rfl⟩ hg

theorem awaitSpace_does (hP : Stable P) (hactive : ∀ g, P g → Active g) {drain : Drain}
    (hdrain : DrainDoes P drain)
    (size command deadline bound : ℕ) :
    Does Step P (awaitSpace size command deadline drain bound) (Waited P size) := by
  induction bound with
  | zero => exact does_stop
  | succ bound ih =>
    apply (txAvail_does hP.patient).bind
    intro avail
    cases avail with
    | none =>
      apply (fail_does (by decide) fun g hg => hactive g hg.2).bind
      intro e
      refine does_pure fun g hg => ⟨nofun, ?_⟩
      rintro e' he
      cases he
      exact ⟨hg.2.1, .inr hg.2.2⟩
    | some avail =>
      apply does_ite
      · intro hsize
        refine does_pure fun g hg => ⟨fun _ _ => ⟨hg.2, avail, hg.1.symm, hsize⟩, nofun⟩
      · intro _
        apply ((wait_does hP).pre fun g hg => hg.2).bind
        intro _
        apply (now_does hP.patient).bind
        intro time
        apply does_cond
        · refine does_pure fun g hg => ⟨nofun, ?_⟩
          rintro e he
          cases he
          exact ⟨by decide, .inl ⟨rfl, hg⟩⟩
        · cases drain with
          | none => exact (turn_does hP.patient).bind fun _ => ih
          | some poll =>
            apply (hdrain poll rfl).bind
            intro handled
            cases handled with
            | error e =>
              refine does_pure fun g hg => ⟨nofun, ?_⟩
              rintro e' he
              cases he
              exact ⟨(hg.2 e rfl).1, .inr (hg.2 e rfl).2⟩
            | ok n =>
              exact ((turn_does hP.patient).pre fun g hg => hg.1 n rfl).bind fun _ => ih

/-- A frame was published from a state that satisfied `P`, and its doorbell rung. -/
def Published (P : Link → Prop) (hdr data : List UInt8) (g : Link) : Prop :=
  ∃ a, P a ∧ Turned (a.publish hdr data) g

theorem Published.stable (P : Link → Prop) (hdr data : List UInt8) :
    Stable (Published P hdr data) := by
  rintro a b h ⟨p, hp, ht⟩
  exact ⟨p, hp, h.ch.trans ht.ch, h.state.trans ht.state, h.trace.trans ht.trace,
    h.current.trans ht.current, h.sending.trans ht.sending⟩

theorem writeFrame_does (hP : Stable P) (hlive : ∀ g, P g → g.s.state = .started ∧ Settled g)
    (hdr data : List UInt8) (hallowed : ∀ g, P g → Allowed g hdr data) {drain : Drain}
    (hdrain : DrainDoes P drain) (deadline : ℕ) :
    Does Step P (writeFrame hdr data deadline drain) fun status g =>
      (status = .ok → Published P hdr data g) ∧
        (status ≠ .ok → (status = .etimedout ∧ P g) ∨ g.s.state = .failed) := by
  have hactive : ∀ g, P g → Active g := fun g hg => .inl (hlive g hg).1
  apply does_get_bind
  intro a ha
  apply does_cond
  · apply Does.post (fail_does (by decide) fun g hg => by
      rw [hg]
      exact hactive a ha)
    intro status g h
    exact ⟨fun hok => absurd hok h.2.1, fun _ => .inr h.2.2⟩
  · apply ((awaitSpace_does hP hactive hdrain _ _ _ _).pre fun g hg => by rw [hg]; exact ha).bind
    intro space
    cases space with
    | error e =>
      exact does_pure fun g hg => ⟨fun hok => absurd hok (hg.2 e rfl).1, fun _ => (hg.2 e rfl).2⟩
    | ok u =>
      apply Does.bind (Q := fun _ => Published P hdr data)
      · apply does_modify
        · intro g hg
          obtain ⟨hp, hfits⟩ := hg.1 u rfl
          obtain ⟨hstarted, hsettled⟩ := hlive g hp
          rw [← length_append] at hfits
          exact .act _ hstarted hsettled (.publish hdr data hfits (hallowed g hp))
        · intro g hg
          exact ⟨g, (hg.1 u rfl).1, rfl, rfl, rfl, rfl, rfl⟩
      · intro _
        have hpub : ∀ g, Published P hdr data g → Active g := by
          rintro g ⟨a, ha, ht⟩
          exact .inl (ht.state.trans (hlive a ha).1)
        exact (ring_does (Published.stable P hdr data) hpub).post fun status g h =>
          ⟨h.1, fun hne => .inr (h.2 hne)⟩

theorem drainDoes_none (P : Link → Prop) : DrainDoes P none := nofun

variable {frame : List UInt8}

theorem reply_does (hP : Stable P) (hlive : ∀ g, P g → g.s.state = .started ∧ Settled g)
    (hallowed : ∀ g, P g → Allowed g frame []) (cmd : Command) :
    Does Step P (reply cmd frame) (Ends (Published P frame [])) := by
  apply (now_does hP.patient).bind
  intro time
  apply (writeFrame_does hP hlive frame [] hallowed (drainDoes_none P) _).bind
  intro status
  apply does_ite
  · intro htime
    apply fail_ends (by decide)
    intro g hg
    rcases hg.2 (by simp [htime]) with ⟨_, hp⟩ | hfailed
    · exact .inl (hlive g hp).1
    · exact .inr hfailed
  · intro hne
    refine does_pure fun g hg => ⟨hg.1, fun h => ?_⟩
    rcases hg.2 h with ⟨ht, _⟩ | hstate
    · exact absurd ht hne
    · exact hstate

end Rules

/-! ## Frames written by a live session -/

variable {R : Channels → Prop}

theorem LiveWith.live (g : Link) (h : LiveWith x R g) : g.s.state = .started ∧ Settled g :=
  ⟨h.1.started, h.1.settled⟩

theorem LiveWith.active (g : Link) (h : LiveWith x R g) : Active g := .inl h.1.started

theorem LiveWith.published (hdata : isData frame = false)
    (hclose : headerCmd frame ≠ Command.close.code) (h : Published (LiveWith x R) frame [] g) :
    LiveWith x R g := by
  obtain ⟨a, ⟨hl, hR⟩, ht⟩ := h
  apply LiveWith.stable x R _ _ ht
  refine ⟨hl.after rfl rfl ?_ (fun _ => rfl) (prefix_append _ _) ?_, hR⟩
  · simp [Link.publish, hdata]
  · simp [Settled, Link.publish, hclose]

@[simp] theorem headerCmd_header_nil (cmd : Command) (p1 p2 : ℕ) :
    headerCmd (header cmd p1 p2) = cmd.code := by
  simpa using headerCmd_header cmd p1 p2 []

theorem isData_eq_of_headerCmd {cmd : Command} (h : headerCmd frame = cmd.code) :
    isData frame = (cmd == .txData || cmd == .txDataCont) := by
  unfold isData
  rw [h, Command.ofCode?_code]
  cases cmd <;> rfl

theorem control_does {cmd : Command} (p1 p2 : ℕ) (h : cmd.isShort = true) :
    Does Step (LiveWith x R) (control cmd p1 p2) (Ends (LiveWith x R)) := by
  have hcmd := headerCmd_header_nil cmd p1 p2
  apply (reply_does (LiveWith.stable x R) LiveWith.live (fun g _ => .short cmd p1 p2 h) cmd).post
  intro status g hg
  refine ⟨fun hok => LiveWith.published ?_ ?_ (hg.1 hok), hg.2⟩
  · rw [isData_eq_of_headerCmd hcmd]
    cases cmd <;> simp_all [Command.isShort]
  · rw [hcmd]
    cases cmd <;> simp_all [Command.isShort, Command.code]

theorem sendVersion_does : Does Step (LiveWith x R) sendVersion (Ends (LiveWith x R)) := by
  exact does_get fun _ _ => control_does 1 _ rfl

theorem setCh_keeps {β : Type} (f : Channel → β) (g : Link) (c : ChannelIx) (ch : Channel)
    (h : f ch = f (g.s.ch c)) (c' : ChannelIx) : f ((g.setCh c ch).s.ch c') = f (g.s.ch c') := by
  by_cases hc : c' = c
  · subst hc
    simpa [Link.setCh] using h
  · simp [Link.setCh, Function.update_of_ne hc]

theorem Live.setCh (h : Live x g) (c : ChannelIx) (ch : Channel) (hlcid : ch.lcid = (g.s.ch c).lcid)
    (hclose : ch.closeSent = (g.s.ch c).closeSent) : Live x (g.setCh c ch) := by
  refine h.after rfl rfl rfl (setCh_keeps Channel.lcid g c _ hlcid) prefix_rfl ?_
  have hs := h.settled
  unfold Settled at hs ⊢
  simp only [setCh_keeps Channel.lcid g c _ hlcid, setCh_keeps Channel.closeSent g c _ hclose]
  exact hs

theorem modifyCh_does (c : ChannelIx) (R' : Channels → Prop) {f : Channel → Channel}
    (hf : ∀ ch, R ch → FlagsOnly (ch c) (f (ch c)))
    (hR : ∀ ch, R ch → R' (Function.update ch c (f (ch c)))) :
    Does Step (LiveWith x R) (modifyCh c f) fun _ => LiveWith x R' := by
  apply does_modify
  · rintro g ⟨_, hg⟩
    exact .flags c _ (hf _ hg)
  · rintro g ⟨hl, hg⟩
    exact ⟨hl.setCh c _ (hf _ hg).lcid (hf _ hg).closeSent, hR _ hg⟩

theorem openFrame_eq (ch : Channel) : ∃ n rest, openFrame ch = header .open ch.lcid n ++ rest :=
  ⟨_, _, by rw [openFrame, append_assoc]⟩

theorem headerCmd_openFrame (ch : Channel) : headerCmd (openFrame ch) = Command.open.code := by
  obtain ⟨n, rest, h⟩ := openFrame_eq ch
  rw [h, headerCmd_header]

theorem LiveWith.of_eq {a : Link} (ha : LiveWith x R a) :
    ∀ g, g = a → LiveWith x (fun ch => R ch ∧ ch = a.s.ch) g := by
  rintro g rfl
  exact ⟨ha.1, ha.2, rfl⟩

theorem LiveWith.mono {R' : Channels → Prop} (h : ∀ ch, R ch → R' ch) (hg : LiveWith x R g) :
    LiveWith x R' g :=
  ⟨hg.1, h _ hg.2⟩

theorem sendOpen_does (c : ChannelIx) (hclose : ∀ ch, R ch → (ch c).closeSent = false)
    (hR : ∀ ch, R ch → R (Function.update ch c { ch c with openSent := true })) :
    Does Step (LiveWith x R) (sendOpen c) (Ends (LiveWith x R)) := by
  apply does_get_bind
  intro a ha
  have hcmd := headerCmd_openFrame (a.s.ch c)
  have hreply : Does Step (LiveWith x fun ch => R ch ∧ ch = a.s.ch)
      (reply .open (openFrame (a.s.ch c)))
      (Ends (Published (LiveWith x fun ch => R ch ∧ ch = a.s.ch) (openFrame (a.s.ch c)) [])) := by
    apply reply_does (LiveWith.stable _ _) LiveWith.live
    rintro g ⟨_, hg, hch⟩
    rw [← hch]
    exact .open c (hclose _ hg)
  apply Does.bind (hreply.pre ha.of_eq)
  intro status
  apply does_ite
  · intro hok
    apply Does.bind (Q := fun _ => LiveWith x R)
    · apply Does.pre (modifyCh_does c _
        (fun ch _ => ⟨rfl, rfl, rfl, rfl, rfl, rfl, rfl, rfl, fun h => h⟩) hR)
      intro g hg
      have hpub := LiveWith.published (by rw [isData_eq_of_headerCmd hcmd]; rfl)
        (by rw [hcmd]; decide) (hg.1 hok)
      exact hpub.mono fun _ h => h.1
    · intro _
      refine does_pure fun g hg => ⟨fun _ => hg, fun hne => absurd hok hne⟩
  · intro hne
    exact does_pure fun g hg => .error hne (hg.2 hne)

theorem advertise_does (c : ChannelIx) (slot : Fin 4)
    (hR : ∀ ch id, R ch → R (Function.update ch c ((ch c).advertised slot id))) :
    Does Step (LiveWith x R) (advertise c slot) (Ends (LiveWith x R)) := by
  apply Does.bind (Q := fun _ => LiveWith x R)
  · apply does_modify
    · intro g hg
      exact .act _ hg.1.started hg.1.settled (.advertise c slot)
    · rintro g ⟨hl, hg⟩
      refine ⟨hl.after rfl rfl rfl ?_ (prefix_append _ _) ?_, hR _ _ hg⟩
      · exact setCh_keeps Channel.lcid g c ((g.s.ch c).advertised slot g.s.nextLiid) rfl
      · simp [Settled, Link.advertise]
  · intro _
    apply does_get_bind
    intro a ha
    have hcmd : ∀ lcid size id,
        headerCmd (header .intent lcid 1 ++ put32 size ++ put32 id) = Command.intent.code := by
      intro lcid size id
      rw [append_assoc, headerCmd_header]
    apply Does.weaken (reply_does (LiveWith.stable x R) LiveWith.live
      (fun g _ => .intent _ _ _) .intent)
    · rintro g rfl
      exact ha
    · intro status g hg
      refine ⟨fun hok => LiveWith.published ?_ ?_ (hg.1 hok), hg.2⟩
      · rw [isData_eq_of_headerCmd (hcmd _ _ _)]
        rfl
      · rw [hcmd]
        decide

end Q1n1.Glink
