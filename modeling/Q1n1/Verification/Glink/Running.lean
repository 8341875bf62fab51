import Q1n1.Verification.Glink.Polling

/-! # Sending, releasing, restarting and whole runs move along the steps -/

namespace Q1n1.Glink

open Cut LiveWith Does

/-- A call that may stop short of success leaves the session live or over. -/
def Leaves (x : Ctx) (status : Status) (g : Link) : Prop :=
  (status = .ok → LiveWith x anyChannels g) ∧ Idle x g

variable {g : Link} {status : Status} {x : Ctx} {R : Channels → Prop}

theorem Leaves.ok (h : LiveWith x R g) : Leaves x status g := ⟨fun _ => h.any, h.idle⟩

theorem Leaves.error (hne : status ≠ .ok) (h : Idle x g) : Leaves x status g :=
  ⟨fun hok => absurd hok hne, h⟩

theorem leaves_ok : Does Step (LiveWith x R) (pure status) (Leaves x) := does_pure fun _ h => .ok h

theorem leaves_error (h : Idle x g) (hne : status ≠ .ok := by decide) :
    Does Step (fun a => a = g) (pure status) (Leaves x) :=
  does_pure fun _ ha => .error hne (ha ▸ h)

theorem Ends.leaves (h : Ends (LiveWith x R) status g) : Leaves x status g := by
  by_cases hok : status = .ok
  · exact .ok (h.1 hok)
  · exact .error hok (idle_of_failed (h.2 hok))

variable {P : Link → Prop}

theorem andThen_leaves {first rest : M Status} (hfirst : Does Step P first (Leaves x))
    (hrest : Does Step (LiveWith x anyChannels) rest (Leaves x)) :
    Does Step P (andThen first rest) (Leaves x) := by
  apply hfirst.bind
  intro status
  apply does_ite
  · intro hok
    exact hrest.pre fun g hg => hg.1 hok
  · intro hne
    exact does_pure fun g hg => .error hne hg.2

theorem andThen_idle {first rest : M Status} (hfirst : Does Step P first (Leaves x))
    (hrest : Does Step (LiveWith x anyChannels) rest fun _ => Idle x) :
    Does Step P (andThen first rest) fun _ => Idle x := by
  apply hfirst.bind
  intro status
  apply does_ite
  · intro hok
    exact hrest.pre fun g hg => hg.1 hok
  · intro _
    exact does_pure fun g hg => hg.2

theorem drive_idle (c : ChannelIx) : Does Step (Idle x) (drive c) fun _ => Idle x := by
  intro g hg
  by_cases hstarted : g.s.state = .started
  · exact ((drive_does c).post fun _ _ h => h.leaves.2) g (hg hstarted)
  · have hskip : drive c g = (some .ok, g) := by
      simp [drive, bind_apply, hstarted]
    rw [hskip]
    exact ⟨.refl, fun _ _ => hg⟩

section Waiting

variable {x : Ctx} (hx : x.current = none)
include hx

theorem waitChannelFor_does (c : ChannelIx) (deadline bound : ℕ) :
    Does Step (Idle x) (waitChannelFor c deadline bound) (Leaves x) := by
  induction bound with
  | zero => exact does_stop
  | succ bound ih =>
    apply (poll_idle hx).bind
    intro polled
    cases polled with
    | error e => exact does_pure fun g hg => .error (hg.2.1 e rfl) hg.2.2
    | ok n =>
      apply ((drive_does c).pre fun g hg => hg.1 n rfl).bind
      intro status
      apply does_ite
      · intro _
        exact does_pure fun g hg => hg.leaves
      · intro hok
        apply pre (P := LiveWith x anyChannels) _ fun g hg => hg.1 (not_not.mp hok)
        apply does_get
        intro a _
        apply does_cond
        · exact leaves_ok
        · apply (now_does (stable x anyChannels).patient).bind
          intro time
          apply does_cond
          · exact leaves_ok
          · exact (turn_does (stable x anyChannels).patient).bind fun _ =>
              ih.pre fun g hg => hg.idle

theorem waitChannel_does (c : ChannelIx) (deadline : ℕ) :
    Does Step (Idle x) (waitChannel c deadline) (Leaves x) := by
  exact does_get fun _ _ => waitChannelFor_does hx c deadline _

/-! ## Sending -/

omit hx in
theorem requestIntent_does (c : ChannelIx) (length : ℕ) :
    Does Step (LiveWith x anyChannels) (requestIntent c length)
      (Ends (LiveWith x anyChannels)) := by
  apply does_get
  intro a _
  apply does_cond
  · exact ends_ok
  · refine modifyCh_bind c ?_
    exact control_does _ _ rfl

/-- What `awaitIntent` finds: a ready channel and the intent to use on it. -/
def Chosen (c : ChannelIx) (length : ℕ) (slot : Fin 8) : Channels → Prop := fun ch =>
  (ch c).ready = true ∧ chooseIntent (ch c) length = some slot

theorem awaitIntent_does (c : ChannelIx) (length deadline bound : ℕ) :
    Does Step (LiveWith x anyChannels) (awaitIntent c length deadline bound) fun chosen g =>
      (∀ slot, chosen = .ok slot → LiveWith x (Chosen c length slot) g) ∧
        ∀ e, chosen = .error e → e ≠ .ok ∧ Idle x g := by
  have herror : ∀ {e : Status} {g : Link}, e ≠ .ok → Idle x g →
      (∀ slot, (.error e : Except Status (Fin 8)) = .ok slot →
        LiveWith x (Chosen c length slot) g) ∧
        ∀ e', (.error e : Except Status (Fin 8)) = .error e' → e' ≠ .ok ∧ Idle x g := by
    intro e g he hg
    refine ⟨nofun, ?_⟩
    rintro e' heq
    cases heq
    exact ⟨he, hg⟩
  induction bound with
  | zero => exact does_stop
  | succ bound ih =>
    apply (poll_does hx).bind
    intro polled
    cases polled with
    | error e =>
      exact does_pure fun g hg => herror (hg.2 e rfl).1 (idle_of_failed (hg.2 e rfl).2)
    | ok n =>
      apply pre (P := LiveWith x anyChannels) _ fun g hg => hg.1 n rfl
      apply does_get_bind
      intro a hlive
      apply does_ite
      · intro _
        exact does_pure fun g hg => herror (by decide) (hg ▸ hlive.idle)
      · intro hready
        have hready' : (a.s.ch c).ready = true := by
          rw [Bool.not_eq_false, Link.channelReady, Bool.and_eq_true] at hready
          exact hready.2
        cases hchoose : chooseIntent (a.s.ch c) length with
        | some slot =>
          apply does_pure
          rintro g rfl
          refine ⟨?_, nofun⟩
          rintro slot' hslot
          cases hslot
          exact ⟨hlive.1, hready', hchoose⟩
        | none =>
          apply ((requestIntent_does c length).pre fun g hg => hg ▸ hlive).bind
          intro status
          apply does_ite
          · intro hne
            exact does_pure fun g hg => herror hne (idle_of_failed (hg.2 hne))
          · intro hok
            have hpatient := (stable x anyChannels).patient
            apply ((now_does hpatient).pre fun g hg => hg.1 (not_not.mp hok)).bind
            intro time
            apply does_cond
            · refine modifyCh_bind c ?_
              exact does_pure fun g hg => herror (by decide) hg.idle
            · exact (turn_does hpatient).bind fun _ => ih

def Ctx.carrying (x : Ctx) (w : Sending) : Ctx := { x with sending := some w }

omit hx in
theorem Live.pick (h : Live x g) (c : ChannelIx) (slot : Fin 8) (length : ℕ) :
    Live (x.carrying ⟨c, slot, ((g.s.ch c).remoteIntent slot).id, length⟩)
      (g.pick c slot length) := by
  have h' := h.setCh c ((g.s.ch c).setUsed slot true) rfl rfl
  exact ⟨⟨h'.started, h'.current, rfl, h'.lcid, h'.seen⟩, h'.settled⟩

omit hx in
theorem Live.abandon {w : Sending} (hnone : x.sending = none) (h : Live (x.carrying w) g)
    (c : ChannelIx) (slot : Fin 8) : Live x (g.abandon c slot) := by
  have h' := h.setCh c ((g.s.ch c).setUsed slot false) rfl rfl
  exact ⟨⟨h'.started, h'.current, hnone.symm, h'.lcid, h'.seen⟩, h'.settled⟩

omit hx in
theorem headerCmd_dataHeader (lcid id length : ℕ) :
    headerCmd (dataHeader lcid id length) = Command.txData.code := by
  rw [dataHeader, List.append_assoc, headerCmd_header]

omit hx in
theorem published_data {w : Sending} (hnone : x.sending = none) {lcid id length : ℕ}
    {data : List UInt8}
    (h : Published (LiveWith (x.carrying w) anyChannels) (dataHeader lcid id length) data g) :
    LiveWith x anyChannels g := by
  obtain ⟨a, ⟨ha, _⟩, ht⟩ := h
  have hcmd := headerCmd_dataHeader lcid id length
  apply stable x anyChannels _ _ ht
  refine ⟨⟨⟨ha.started, ha.current, ?_, ha.lcid, ?_⟩, ?_⟩, trivial⟩
  · simp [Link.publish, isData_eq_of_headerCmd hcmd, hnone]
  · intro e he
    exact List.mem_append_left _ (ha.seen e he)
  · have hframe : headerCmd (dataHeader lcid id length ++ data) = Command.txData.code := by
      rw [dataHeader, List.append_assoc, List.append_assoc, headerCmd_header]
    simp [Settled, Link.publish, hframe, Command.code]

theorem transmit_does (hnone : x.sending = none) (c : ChannelIx) (slot : Fin 8)
    (data : List UInt8) (deadline : ℕ) :
    Does Step (LiveWith x (Chosen c data.length slot)) (transmit c slot data deadline)
      (Leaves x) := by
  apply does_get_bind
  rintro a ⟨ha, hready, hchoose⟩
  let w : Sending := ⟨c, slot, ((a.s.ch c).remoteIntent slot).id, data.length⟩
  apply bind (Q := fun _ => LiveWith (x.carrying w) anyChannels)
  · apply does_modify_at
    · exact .act _ ha.started ha.settled
        (.pick c slot data.length (ha.sending.trans hnone) hready hchoose)
    · exact ⟨ha.pick c slot data.length, trivial⟩
  · intro _
    have hdrain : DrainDoes (LiveWith (x.carrying w) anyChannels) (some poll) := by
      intro p hp
      cases hp
      exact poll_does (x := x.carrying w) hx
    have hallowed : ∀ g, LiveWith (x.carrying w) anyChannels g →
        Allowed g (dataHeader (a.s.ch c).lcid ((a.s.ch c).remoteIntent slot).id data.length)
          data := by
      rintro g ⟨hg, _⟩
      have hlcid : (a.s.ch c).lcid = (g.s.ch w.c).lcid := (ha.lcid c).trans (hg.lcid c).symm
      rw [hlcid]
      exact .data w data hg.sending rfl
    apply bind (writeFrame_does (stable _ _) live _ data hallowed hdrain deadline)
    intro status
    apply does_ite
    · intro hne
      apply bind (Q := fun _ => Idle x)
      · apply does_modify
        · intro g hg
          apply Step.abandon
          intro hstarted
          rcases hg.2 hne with ⟨_, hlive⟩ | hover
          · exact ⟨w, hlive.1.sending, rfl, rfl⟩
          · simp [hover] at hstarted
        · intro g hg
          rcases hg.2 hne with ⟨_, hlive⟩ | hover
          · exact idle (R := anyChannels) ⟨hlive.1.abandon hnone c slot, trivial⟩
          · exact idle_of_failed hover
      · intro _
        exact does_pure fun g hg => .error hne hg
    · intro hok
      exact does_pure fun g hg => .ok (published_data hnone (hg.1 (not_not.mp hok)))

theorem send_does (hnone : x.sending = none) (c : ChannelIx) (data : List UInt8) (deadline : ℕ) :
    Does Step (Idle x) (send c data deadline) (Leaves x) := by
  apply does_get_bind
  intro a ha
  apply does_cond
  · exact leaves_error ha
  · apply does_ite
    · intro _
      apply does_cond
      · exact leaves_error ha
      · exact leaves_error ha
    · intro hready
      have hstarted : a.s.state = .started := by
        rw [Bool.not_eq_false, Link.channelReady, Bool.and_eq_true] at hready
        exact of_decide_eq_true hready.1
      apply does_cond
      · exact leaves_error ha
      · apply ((awaitIntent_does hx c data.length deadline _).pre fun g hg => by
          rw [hg]
          exact ha hstarted).bind
        intro chosen
        cases chosen with
        | error e =>
          exact does_pure fun g hg => .error (hg.2 e rfl).1 (hg.2 e rfl).2
        | ok slot =>
          exact (transmit_does hx hnone c slot data deadline).pre fun g hg => hg.1 slot rfl

/-! ## Releasing -/

omit hx in
theorem check_does : Does Step (Idle x) check (Leaves x) := by
  apply does_get_bind
  intro a ha
  have hpatient := (stable x anyChannels).patient
  apply does_cond
  · exact leaves_error ha
  · apply does_ite
    · intro _
      exact leaves_error ha
    · intro hstate
      apply does_cond
      · exact leaves_error ha
      · apply pre (P := LiveWith x anyChannels) _ fun g hg => by
          rw [hg]
          exact ha (not_not.mp hstate)
        apply (turn_does hpatient).bind
        intro _
        apply (does_gets (Q := fun _ => LiveWith x anyChannels) fun g hg => hg).bind
        intro t
        apply (turn_does hpatient).bind
        intro _
        apply (does_gets (Q := fun _ => LiveWith x anyChannels) fun g hg => hg).bind
        intro h
        apply does_cond
        · exact leaves_ok
        · exact leaves_ok

omit hx in
theorem readTxTail_does (hP : Patient P) : Does Step P readTxTail fun _ g => P g :=
  (turn_does hP).bind fun _ => does_gets fun _ h => h

omit hx in
theorem readRxHead_does (hP : Patient P) : Does Step P readRxHead fun _ g => P g :=
  (turn_does hP).bind fun _ => does_gets fun _ h => h

theorem awaitCaughtUp_does (deadline bound : ℕ) :
    Does Step (LiveWith x anyChannels) (awaitCaughtUp deadline bound) (Leaves x) := by
  have hpatient := (stable x anyChannels).patient
  induction bound with
  | zero => exact does_stop
  | succ bound ih =>
    apply (readTxTail_does hpatient).bind
    intro tail
    apply does_get
    intro a _
    apply does_cond
    · exact leaves_ok
    · apply (poll_does hx).bind
      intro polled
      cases polled with
      | error e =>
        exact does_pure fun g hg => .error (hg.2 e rfl).1 (idle_of_failed (hg.2 e rfl).2)
      | ok n =>
        apply ((now_does hpatient).pre fun g hg => hg.1 n rfl).bind
        intro time
        apply does_cond
        · exact leaves_ok
        · exact (turn_does hpatient).bind fun _ => ih

theorem leaveZero_does (deadline : ℕ) :
    Does Step (LiveWith x anyChannels) (leaveZero deadline) (Leaves x) := by
  apply (readTxTail_does (stable x anyChannels).patient).bind
  intro tail
  apply does_cond
  · exact leaves_ok
  · apply does_get
    intro a _
    apply andThen_leaves
    · apply does_cond
      · exact post (control_does _ _ rfl) fun _ _ h => h.leaves
      · exact leaves_ok
    · exact does_get fun _ _ => awaitCaughtUp_does hx deadline _

omit hx in
theorem pause_does (hP : Patient P) (deadline bound : ℕ) :
    Does Step P (pause deadline bound) fun _ g => P g := by
  induction bound with
  | zero => exact does_stop
  | succ bound ih =>
    apply (now_does hP).bind
    intro time
    apply does_cond
    · exact (turn_does hP).bind fun _ => ih
    · exact does_skip

theorem awaitZeroWords_does (deadline tailAtSend : ℕ) (consumed padded : Bool) (bound : ℕ) :
    Does Step (LiveWith x anyChannels)
      (awaitZeroWords deadline tailAtSend consumed padded bound) (Leaves x) := by
  have hstable := stable x anyChannels
  induction bound generalizing consumed padded with
  | zero =>
    rw [awaitZeroWords]
    exact does_stop
  | succ bound ih =>
    have hagain : ∀ consumed padded, Does Step (LiveWith x anyChannels)
        (awaitZeroWords.again deadline tailAtSend consumed padded bound) (Leaves x) := by
      intro consumed padded
      rw [awaitZeroWords.again]
      apply (now_does hstable.patient).bind
      intro time
      apply does_cond
      · exact (fail_does (by decide) active).post fun status g h =>
          .error h.2.1 (idle_of_failed h.2.2)
      · exact (turn_does hstable.patient).bind fun _ => ih consumed padded
    rw [awaitZeroWords]
    apply (readTxTail_does hstable.patient).bind
    intro w0
    apply (readRxHead_does hstable.patient).bind
    intro w3
    apply does_get
    intro a _
    apply does_cond
    · apply (control_does _ _ rfl).bind
      intro status
      apply does_ite
      · intro _
        exact does_pure fun g hg => hg.leaves
      · intro hok
        apply pre (P := LiveWith x anyChannels) _ fun g hg => hg.1 (not_not.mp hok)
        exact modifyS_bind hstable (hagain _ _)
    · apply does_cond
      · apply (now_does hstable.patient).bind
        intro time
        apply does_get
        intro b _
        apply (pause_does hstable.patient _ _).bind
        intro _
        apply (readTxTail_does hstable.patient).bind
        intro t
        apply does_cond
        · exact hagain _ _
        · apply (readRxHead_does hstable.patient).bind
          intro h
          apply does_cond
          · exact leaves_ok
          · exact hagain _ _
      · apply (poll_does hx).bind
        intro polled
        cases polled with
        | error e =>
          exact does_pure fun g hg => .error (hg.2 e rfl).1 (idle_of_failed (hg.2 e rfl).2)
        | ok n => exact (hagain _ _).pre fun g hg => hg.1 n rfl

omit hx in
theorem setReleasing_does (hP : Stable P) (on : Bool) :
    Does Step P (setReleasing on) fun _ g => P g := by
  apply does_modify
  · intro g _
    exact .quiet g.s g.servicing on ⟨rfl, rfl, rfl, rfl, rfl, rfl⟩
  · intro g hg
    exact hP g _ ⟨rfl, rfl, rfl, rfl, rfl⟩ hg

theorem awaitRemote_does (deadline tailAtSend : ℕ) :
    Does Step (LiveWith x anyChannels) (awaitRemote deadline tailAtSend) (Leaves x) := by
  have hstable := stable x anyChannels
  apply (setReleasing_does hstable true).bind
  intro _
  apply does_get
  intro a _
  apply bind (awaitZeroWords_does hx deadline tailAtSend false false _)
  intro status
  apply bind (Q := fun _ => Leaves x status)
  · apply setReleasing_does
    intro a b h hl
    exact ⟨fun hok => hstable a b h (hl.1 hok), Idle.stable x a b h hl.2⟩
  · intro _
    exact does_pure fun _ h => h

theorem release_does (hnone : x.sending = none) (deadline : ℕ) :
    Does Step (Idle x) (release deadline) fun _ => Idle x := by
  have hstable := stable x anyChannels
  apply andThen_idle check_does
  refine modifyS_bind hstable ?_
  refine modifyCh_bind chSsr ?_
  apply andThen_idle ((waitChannel_does hx chSsr deadline).pre fun g hg => hg.idle)
  apply andThen_idle (leaveZero_does hx deadline)
  apply bind (readTxTail_does hstable.patient)
  intro tailAtSend
  apply andThen_idle ((send_does hx hnone chSsr cleanupMessage deadline).pre fun g hg => hg.idle)
  refine modifyS_bind hstable ?_
  apply andThen_idle (awaitRemote_does hx deadline tailAtSend)
  apply bind (Q := fun _ => Idle x)
  · apply does_modify
    · intro g hg
      exact .act _ hg.1.started hg.1.settled .finishRelease
    · intro g _
      exact idle_of_over (by simp [Link.finishRelease])
  · intro _
    exact does_pure fun _ h => h

theorem run_does (hnone : x.sending = none) (op : Op) :
    Does Step (Idle x) op.run fun _ => Idle x := by
  have hforget : ∀ {α : Type} {m : M α} {Q : α → Link → Prop}, Does Step (Idle x) m Q →
      (∀ a g, Q a g → Idle x g) →
      Does Step (Idle x) (do let _ ← m; return ()) fun _ => Idle x :=
    fun h hQ => h.bind fun a => does_pure fun g hg => hQ a g hg
  cases op with
  | poll =>
    exact hforget (poll_idle hx) fun _ _ h => h.2.2
  | service maxFrames => exact hforget (service_does hx maxFrames) fun _ _ h => h
  | drive c => exact hforget (drive_idle c) fun _ _ h => h
  | waitReady deadline => exact hforget (waitChannel_does hx chClient deadline) fun _ _ h => h.2
  | send c data deadline => exact hforget (send_does hx hnone c data deadline) fun _ _ h => h.2
  | release deadline => exact hforget (release_does hx hnone deadline) fun _ _ h => h

theorem runOps_does (hnone : x.sending = none) (ops : List Op) :
    Does Step (Idle x) (runOps ops) fun _ => Idle x := by
  induction ops with
  | nil => exact does_skip
  | cons op ops ih => exact (run_does hx hnone op).bind fun _ => ih

end Waiting

/-! ## Restarting -/

theorem channelIx_cases (c : ChannelIx) : c = chClient ∨ c = chSsr := by
  match c with
  | 0 => exact .inl rfl
  | 1 => exact .inr rfl

/-- The local ids a restart accepts for the client's channel. -/
structure LcidOk (lcid : ℕ) : Prop where
  pos : lcid ≠ 0
  le : lcid ≤ 0xffff
  ne : lcid ≠ ssrLcid

def Ctx.initial {lcid : ℕ} (h : LcidOk lcid) : Ctx where
  current := none
  sending := none
  lcid c := if c = chClient then lcid else ssrLcid
  lcid_inj := by
    have hle := h.le
    have hne := h.ne
    have hssr : ssrLcid = 2 := rfl
    intro c c' heq
    rcases channelIx_cases c with rfl | rfl <;> rcases channelIx_cases c' with rfl | rfl <;>
      simp [chClient, chSsr] at heq ⊢ <;> omega
  seen := []

theorem Ctx.initial_lcid_lt {lcid : ℕ} (h : LcidOk lcid) (c : ChannelIx) :
    (Ctx.initial h).lcid c < 65536 := by
  have hle := h.le
  rcases channelIx_cases c with rfl | rfl
  · show lcid < 65536
    omega
  · show ssrLcid < 65536
    decide

/-- The local ids of a session: nonzero, sixteen bits, one for each channel. -/
structure Lcids (lcid : ChannelIx → ℕ) : Prop where
  pos : ∀ c, lcid c ≠ 0
  lt : ∀ c, lcid c < 65536
  inj : ∀ c c', lcid c = lcid c' → c = c'

theorem lcids_initial {lcid : ℕ} (h : LcidOk lcid) : Lcids (Ctx.initial h).lcid where
  pos c := by
    rcases channelIx_cases c with rfl | rfl
    · exact h.pos
    · exact (by decide : ssrLcid ≠ 0)
  lt := Ctx.initial_lcid_lt h
  inj c c' heq := by
    apply (Ctx.initial h).lcid_inj c' c
    rw [heq, Nat.mod_eq_of_lt (Ctx.initial_lcid_lt h c')]

theorem Lcids.byLcid {lcid : ChannelIx → ℕ} (h : Lcids lcid) {ch : Channels}
    (hids : ∀ c, (ch c).lcid = lcid c) (c : ChannelIx) : byLcid ch (lcid c) = some c := by
  unfold Glink.byLcid
  rw [hids, hids]
  rcases channelIx_cases c with rfl | rfl
  · exact if_pos ⟨h.pos _, rfl⟩
  · rw [if_neg, if_pos ⟨h.pos _, rfl⟩]
    · rfl
    · intro hc
      exact absurd (h.inj 0 chSsr hc.2) (by decide)

theorem readWords_does (hP : Patient P) : Does Step P readWords fun _ g => P g := by
  have hread : ∀ f : Link → ℕ, Does Step P (Cut.gets f) fun _ g => P g :=
    fun f => does_gets fun _ h => h
  apply (turn_does hP).bind
  intro _
  apply (hread _).bind
  intro w0
  apply (hread _).bind
  intro w1
  apply (hread _).bind
  intro w2
  apply (turn_does hP).bind
  intro _
  apply (hread _).bind
  intro w3
  exact does_skip

theorem sample_does (delay : ℕ) : Does Step (fun _ => True) (sample delay) fun sampled g =>
      (∀ words, sampled = .ok words → indexOk (words.getD 0 0) g.s.txLength = true ∧
        indexOk (words.getD 3 0) g.s.rxLength = true) ∧ sampled ≠ .error .ok := by
  have hP : Patient fun _ => True := fun _ _ _ _ => trivial
  apply (readWords_does hP).bind
  intro first
  apply (now_does hP).bind
  intro time
  apply does_get_bind
  intro a _
  apply ((pause_does hP _ _).pre fun _ _ => trivial).bind
  intro _
  apply (readWords_does hP).bind
  intro words
  apply does_get_bind
  intro b _
  apply does_ite
  · intro hok
    simp only [Bool.and_eq_true] at hok
    apply does_cond
    · apply does_pure
      rintro g rfl
      refine ⟨?_, nofun⟩
      rintro words' heq
      cases heq
      exact ⟨hok.1.1.1, hok.2⟩
    · exact does_pure fun g _ => ⟨nofun, nofun⟩
  · intro _
    exact does_pure fun g _ => ⟨nofun, nofun⟩

theorem live_restart {lcid : ℕ} (h : LcidOk lcid) (g : Link) (name : List UInt8)
    (mode : RestartMode) (words : List ℕ) :
    LiveWith (Ctx.initial h) anyChannels (g.restart name lcid mode words) := by
  refine ⟨⟨⟨rfl, rfl, rfl, ?_, nofun⟩, trivial⟩, trivial⟩
  intro c
  rcases channelIx_cases c with rfl | rfl <;> rfl

/-- A successful restart resets the session over words it has sampled, and sends its
VERSION. -/
structure Restarted (name : List UInt8) (lcid : ℕ) (mode : RestartMode) (g₀ a : Link)
    (words : List ℕ) : Prop where
  lcidOk : LcidOk lcid
  sampled : Steps g₀ a
  txTail : indexOk (words.getD 0 0) a.s.txLength = true
  rxHead : indexOk (words.getD 3 0) a.s.rxLength = true

variable {name : List UInt8} {mode : RestartMode}

theorem restart_steps {lcid : ℕ} {g₀ : Link} (h : restart name lcid mode g₀ = (some .ok, g)) :
    ∃ (a : Link) (words : List ℕ) (hr : Restarted name lcid mode g₀ a words),
      Steps (a.restart name lcid mode words) g ∧
        LiveWith (Ctx.initial hr.lcidOk) anyChannels g := by
  unfold restart at h
  split at h
  · cases h
  · rename_i hargs
    simp only [not_or, not_lt, not_le] at hargs
    have hlcid : LcidOk lcid := ⟨hargs.1, hargs.2.1, hargs.2.2.1⟩
    obtain ⟨sampled, a, hsample, h⟩ := bind_eq_some h
    have hdoes := sample_does 2000 g₀ trivial
    rw [hsample] at hdoes
    cases sampled with
    | error e =>
      cases h
      exact absurd rfl (hdoes.2 _ rfl).2
    | ok words =>
      obtain ⟨_, b, hmodify, h⟩ := bind_eq_some h
      cases hmodify
      obtain ⟨htail, hhead⟩ := (hdoes.2 _ rfl).1 words rfl
      refine ⟨a, words, ⟨hlcid, hdoes.1, htail, hhead⟩, ?_⟩
      have hstable := stable (Ctx.initial hlcid) anyChannels
      have hversion : Does Step (LiveWith (Ctx.initial hlcid) anyChannels) (do
            let time ← now
            modifyS fun s => { s with startedUs := time }
            sendVersion) (Ends (LiveWith (Ctx.initial hlcid) anyChannels)) := by
        apply (now_does hstable.patient).bind
        intro time
        exact modifyS_bind hstable sendVersion_does
      have hrun := hversion _ (live_restart hlcid a name mode words)
      rw [h] at hrun
      exact ⟨hrun.1, (hrun.2 _ rfl).1 rfl⟩

theorem session_steps {lcid : ℕ} {g₀ : Link} (h : restart name lcid mode g₀ = (some .ok, g))
    (ops : List Op) :
    ∃ a words, Restarted name lcid mode g₀ a words ∧
      Steps (a.restart name lcid mode words) (runOps ops g).2 := by
  obtain ⟨a, words, hr, hsteps, hlive⟩ := restart_steps h
  have hrun := runOps_does (x := Ctx.initial hr.lcidOk) rfl rfl ops g hlive.idle
  exact ⟨a, words, hr, hsteps.trans hrun.1⟩

theorem session_idle {lcid : ℕ} {g₀ : Link} (h : restart name lcid mode g₀ = (some .ok, g))
    {ops : List Op} (hend : (runOps ops g).1 = some ())
    (hstarted : (runOps ops g).2.s.state = .started) : (runOps ops g).2.current = none := by
  obtain ⟨a, words, hr, _, hlive⟩ := restart_steps h
  have hrun := runOps_does (x := Ctx.initial hr.lcidOk) rfl rfl ops g hlive.idle
  exact (hrun.2 _ hend hstarted).1.current

/-! ## Scripted remotes

Concrete schedules, for runs that show a condition to be needed or to be met. -/

def bytesFrom (index : ℕ) (bytes : List UInt8) : List (ℕ × UInt8) :=
  bytes.zipIdx.map fun p => (index + p.2, p.1)

/-- A turn in which the remote has read up to `tail` and written up to `head`. -/
def later (tail head : ℕ) (rx : List (ℕ × UInt8)) : Turn :=
  { txTail := tail, rxHead := head, rx := rx, now := 3000 }

/-- A link over empty FIFOs of `length` bytes, with the ten turns a restart takes. -/
def freshLink (length : ℕ) (turns : List Turn) : Link :=
  { s := { txLength := length, rxLength := length }
    turns := List.replicate 3 { txTail := 0, rxHead := 0 } ++ List.replicate 7 (later 0 0 []) ++
      turns }

/-- A remote that stores its frames at once, reads nothing and then waits. -/
def scripted (length : ℕ) (script : List UInt8) (turns : ℕ) : Link :=
  freshLink length (later 0 script.length (bytesFrom 0 script) ::
    List.replicate turns (later 0 script.length []))

theorem restart_returned {lcid : ℕ}
    (h : (restart name lcid mode g).1 = some .ok := by decide +kernel) :
    restart name lcid mode g = (some .ok, (restart name lcid mode g).2) :=
  Prod.ext h rfl

/-- An OPEN for the channel `"a"`. -/
def openA (rcid : ℕ) : List UInt8 := header .open rcid 2 ++ 0x61 :: List.replicate 7 0

end Q1n1.Glink
