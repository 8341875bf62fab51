import Q1n1.Verification.Glink.Indices

/-! # What the remote reads is what we sent -/

namespace Q1n1.Glink

open Cut Q1n1.Ring

def Link.txPending (g : Link) : List UInt8 :=
  Ring.copyOut g.s.txLength g.tx g.txTail (Ring.used g.s.txLength g.txTail g.txHead)

/-- Nothing published is lost, changed or repeated. -/
structure Recovers (tx : ℕ) (g : Link) : Prop where
  fifo : TxInv tx g
  frames : g.s.state ≠ .released →
    ∃ frames, Encodes tx g.txPending frames ∧ sentFrames g.trace = g.taken ++ frames

variable {g : Link}

theorem txPending_turn {t : Turn} (rest : List Turn) (htail : g.txTail < g.s.txLength)
    (hhead : g.txHead < g.s.txLength) (hlawful : g.lawfulTail t = true) :
    g.txPending = g.readBy t ++ (g.turn t rest).txPending := by
  simp only [Link.lawfulTail, Bool.and_eq_true, decide_eq_true_eq] at hlawful
  obtain ⟨hok, hle⟩ := hlawful
  have htail' := (indexOk_iff.mp hok).1
  have hused := used_lawful_le htail htail' hhead hle
  obtain ⟨left, hleft⟩ := Nat.exists_eq_add_of_le hle
  have hnew : Ring.used g.s.txLength t.txTail g.txHead = left := by omega
  show Ring.copyOut _ _ _ _ = Ring.copyOut _ _ _ _ ++
    Ring.copyOut g.s.txLength g.tx t.txTail (Ring.used g.s.txLength t.txTail g.txHead)
  rw [hnew, hleft, copyOut_add _ htail, add_dist_mod htail htail']

theorem txPending_publish {hdr data : List UInt8} (hlength : g.s.txLength % 8 = 0)
    (hpub : g.txHead = g.s.txHead) (hhead : indexOk g.s.txHead g.s.txLength = true)
    (htail : indexOk g.txTail g.s.txLength = true)
    (hfree : Ring.used g.s.txLength g.txTail g.s.txHead +
    (hdr ++ data).length + 16 ≤ g.s.txLength) :
    ∃ pad, (hdr ++ data).length + pad.length = align8 (hdr ++ data).length ∧
      (g.publish hdr data).txPending = g.txPending ++ ((hdr ++ data) ++ pad) := by
  obtain ⟨hh, _⟩ := indexOk_iff.mp hhead
  obtain ⟨ht, _⟩ := indexOk_iff.mp htail
  obtain ⟨_, hused, hroom⟩ := published_head hlength hhead htail hfree
  have hle := le_align8 (hdr ++ data).length
  generalize hframe : hdr ++ data = frame at *
  obtain ⟨k, hk⟩ := Nat.exists_eq_add_of_le hle
  refine ⟨Ring.copyOut g.s.txLength (g.publish hdr data).tx
    ((g.s.txHead + frame.length) % g.s.txLength) k, by simp [hk], ?_⟩
  show Ring.copyOut g.s.txLength (g.publish hdr data).tx g.txTail
    (Ring.used g.s.txLength g.txTail (g.publish hdr data).s.txHead) = _
  have htx : (g.publish hdr data).tx = (Ring.copyIn g.s.txLength g.tx g.s.txHead frame).1 := by
    rw [publish_tx, hframe]
  rw [hused, hk, copyOut_add _ ht]
  unfold Ring.used at hfree hroom ⊢
  rw [add_dist_mod ht hh, copyOut_add _ hh, htx, copyOut_copyIn _ hh _ (by omega),
    copyOut_copyIn_of_disjoint _ ht hh _ _ (le_refl _) (by omega)]
  rw [Link.txPending, hpub]
  rfl

theorem Recovers.turn {tx : ℕ} (h : Recovers tx g) {t : Turn} (rest : List Turn)
    (hlawful : g.lawfulTail t = true) (htorn : (g.turn t rest).torn = false) :
    Recovers tx (g.turn t rest) := by
  refine ⟨h.fifo.turn rest hlawful, fun hs => ?_⟩
  obtain ⟨frames, hencodes, hsent⟩ := h.frames hs
  obtain ⟨rfl, hpub, hhead, htail, _⟩ := h.fifo
  rw [← hpub] at hhead
  rw [txPending_turn rest (indexOk_iff.mp htail).1 (indexOk_iff.mp hhead).1 hlawful] at hencodes
  simp only [Link.turn, Bool.or_eq_false_iff] at htorn
  cases hread : readFrames g.s.txLength (g.readBy t).length (g.readBy t) with
  | none => simp [hread] at htorn
  | some taken =>
    obtain ⟨left, rfl, hleft⟩ := hencodes.split hread
    refine ⟨left, hleft, ?_⟩
    show sentFrames g.trace = g.taken ++ (readFrames _ _ _).getD [] ++ left
    rw [hsent, hread, List.append_assoc]
    rfl

theorem Recovers.publish {tx : ℕ} (hok : fifoLengthOk tx = true) (h : Recovers tx g)
    {hdr data : List UInt8} (hfits : Fits g (hdr ++ data).length) (hallowed : Allowed g hdr data) :
    Recovers tx (g.publish hdr data) := by
  refine ⟨h.fifo.publish hok hfits hallowed, fun hs => ?_⟩
  obtain ⟨frames, hencodes, hsent⟩ := h.frames hs
  obtain ⟨rfl, hpub, hhead, htail, _⟩ := h.fifo
  obtain ⟨_, hmod, hmax⟩ := fifoLengthOk_iff.mp hok
  have hfree := hfits.reserve hallowed.length_pos (indexOk_iff.mp htail).1 (indexOk_iff.mp hhead).1
  obtain ⟨pad, hpad, hpending⟩ := txPending_publish hmod hpub hhead htail hfree
  refine ⟨frames ++ [hdr ++ data], ?_, ?_⟩
  · rw [hpending]
    exact hencodes.append (encodes_single (hallowed.wellFramed hmax (by omega)) hpad)
  · show sentFrames (g.trace ++ [.sent (hdr ++ data) g.s.ch]) = g.taken ++ (frames ++ [hdr ++ data])
    rw [sentFrames_append, hsent, List.append_assoc]
    rfl

theorem Recovers.effect {tx : ℕ} (hok : fifoLengthOk tx = true) {g' : Link} (heffect : Effect g g')
    (h : Recovers tx g) (hruly : g'.txUnruly = false) (htorn : g'.torn = false) :
    Recovers tx g' := by
  cases heffect with
  | turn t rest =>
    simp only [Link.turn, Bool.or_eq_false_iff, Bool.not_eq_false'] at hruly
    exact h.turn rest hruly.2 htorn
  | publish hdr data _ _ hfits hallowed => exact h.publish hok hfits hallowed
  | take n hstarted hsettled hnone hframed =>
    refine ⟨h.fifo.effect hok (.take n hstarted hsettled hnone hframed) hruly, fun hs => ?_⟩
    have hframes : sentFrames (g.take n).trace = sentFrames g.trace := by
      simp [Link.take, sentFrames, Event.sent?]
    rw [hframes]
    exact h.frames hs
  | spent n hstarted hcurrent =>
    exact ⟨h.fifo.effect hok (.spent n hstarted hcurrent) hruly, h.frames⟩
  | finishRelease => exact ⟨h.fifo.effect hok .finishRelease hruly, fun hs => absurd rfl hs⟩
  | quiet _ hsame htrace =>
    refine ⟨h.fifo.same hsame htrace, fun hs => ?_⟩
    have hpending : g'.txPending = g.txPending := by
      unfold Link.txPending
      rw [hsame.txLength, hsame.tx, hsame.txTail, hsame.txHead]
    rw [htrace.sentFrames, hsame.taken, hpending]
    exact h.frames (hsame.state hs)

theorem Effect.torn {g' : Link} (h : Effect g g') (htorn : g'.torn = false) : g.torn = false := by
  cases h with
  | turn t rest =>
    simp only [Link.turn, Bool.or_eq_false_iff] at htorn
    exact htorn.1
  | quiet _ hsame => exact hsame.torn ▸ htorn
  | _ => exact htorn

theorem recovers_steps {tx : ℕ} (hok : fifoLengthOk tx = true) {g' : Link} (hsteps : Steps g g')
    (h : Recovers tx g) (hruly : g'.txUnruly = false) (htorn : g'.torn = false) :
    Recovers tx g' := by
  apply steps_keep (I := fun a => a.txUnruly = false → a.torn = false → Recovers tx a) _ hsteps
    (fun _ _ => h) hruly htorn
  intro a b hstep ih hb htorn
  have heffect := hstep.effect
  exact Recovers.effect hok heffect (ih (heffect.ruly.1 hb) (heffect.torn htorn)) hb htorn

/-! ## Runs -/

/-- A session with nothing under way and an empty FIFO, its head anywhere. -/
structure FreshSession (g : Link) : Prop where
  started : g.s.state = .started
  lcids : Lcids fun c => (g.s.ch c).lcid
  lengthOk : fifoLengthOk g.s.txLength = true
  headOk : indexOk g.s.txHead g.s.txLength = true
  published : g.txHead = g.s.txHead
  empty : g.txTail = g.s.txHead
  untrampled : g.trampled = false
  current : g.current = none
  sending : g.sending = none
  trace : g.trace = []
  taken : g.taken = []

theorem FreshSession.recovers (h : FreshSession g) : Recovers g.s.txLength g where
  fifo := ⟨rfl, h.published, h.headOk, h.empty ▸ h.headOk, h.untrampled,
    by simp [h.trace, sentFrames]⟩
  frames _ := by
    refine ⟨[], ?_, by simp [h.trace, h.taken, sentFrames]⟩
    rw [Link.txPending, h.empty, h.published, used_self]
    exact .nil

def FreshSession.ctx {g : Link} (h : FreshSession g) : Ctx where
  current := none
  sending := none
  lcid c := (g.s.ch c).lcid
  lcid_inj c c' heq := by
    rw [Nat.mod_eq_of_lt (h.lcids.lt c)] at heq
    exact h.lcids.inj c' c heq
  seen := []

theorem FreshSession.idle (h : FreshSession g) : Idle h.ctx g := by
  intro _
  refine ⟨⟨⟨h.started, h.current, h.sending, fun _ => rfl, nofun⟩, ?_⟩, trivial⟩
  simp [Settled, h.trace]

/-- The transmit round trip, for every run of a session whose remote reads whole frames
and keeps its tail within what we published. -/
theorem runOps_recovered (g₀ : Link) (hfresh : FreshSession g₀) (ops : List Op)
    (hruly : (runOps ops g₀).2.txUnruly = false) (htorn : (runOps ops g₀).2.torn = false)
    (hlive : (runOps ops g₀).2.s.state ≠ .released) :
    ∃ frames, readFrames g₀.s.txLength (runOps ops g₀).2.txPending.length
        (runOps ops g₀).2.txPending = some frames ∧
      sentFrames (runOps ops g₀).2.trace = (runOps ops g₀).2.taken ++ frames := by
  have hrun := runOps_does (x := hfresh.ctx) rfl rfl ops g₀ hfresh.idle
  have hrec := recovers_steps hfresh.lengthOk hrun.1 hfresh.recovers hruly htorn
  obtain ⟨frames, hencodes, hsent⟩ := hrec.frames hlive
  exact ⟨frames, hencodes.readFrames (le_refl _), hsent⟩

/-- A session with one intent to spend, its head near the end of a FIFO of 64 bytes. -/
def openSession : Link :=
  let client : Channel :=
    { name := [0x61], lcid := 5, rcid := 7, wanted := true, openAcked := true,
      remoteOpened := true, intentsSent := true,
      remoteIntent := fun i => { id := i.val, size := 40, valid := true } }
  { s := { txLength := 64, rxLength := 64, state := .started, txHead := 48, versionAcked := true,
           ch := fun c => if c = chClient then client else { name := ssrName, lcid := ssrLcid } }
    txHead := 48
    txTail := 48
    turns := List.replicate 4 (later 48 0 []) ++ List.replicate 16 (later 8 0 []) }

theorem openSession_fresh : FreshSession openSession where
  started := rfl
  lcids := by
    constructor
    · decide
    · decide
    · decide
  lengthOk := rfl
  headOk := rfl
  published := rfl
  empty := rfl
  untrampled := rfl
  current := rfl
  sending := rfl
  trace := rfl
  taken := rfl

theorem scrubWords_apply {length : ℕ} (hlength : length % 4 = 0) (n : ℕ) {at_ : ℕ}
    (hat : at_ % 4 = 0) (hlt : at_ < length) (hn : 4 * n ≤ length) (fifo : Memory) (i : ℕ) :
    scrubWords length n at_ fifo i =
      if at_ ≤ i ∧ i < length ∧ i < at_ + 4 * n ∨ i + length < at_ + 4 * n then 0
      else fifo i := by
  induction n generalizing at_ fifo with
  | zero => rw [scrubWords, if_neg (by omega)]
  | succ n ih =>
    have hstore : fifo.store (at_ / 4 * 4) (List.replicate 4 0) i =
        if at_ ≤ i ∧ i < at_ + 4 then 0 else fifo i := by
      rw [Nat.div_mul_cancel (Nat.dvd_of_mod_eq_zero hat)]
      rw [Memory.store, List.getD_eq_getElem?_getD, List.getElem?_getD_replicate_default_eq]
      rfl
    rw [scrubWords]
    by_cases hend : at_ + 4 = length
    · rw [if_pos hend, ih rfl (by omega) (by omega), hstore]
      split_ifs <;> first | rfl | omega
    · rw [if_neg hend, ih (by omega) (by omega) (by omega), hstore]
      split_ifs <;> first | rfl | omega

/-- What lies from our head up to the remote's tail becomes zero; the frames that wait
between the tail and the head stay. -/
theorem scrub_exactly (g : Link) (hlength : g.s.txLength % 8 = 0)
    (htail : indexOk g.txTail g.s.txLength = true)
    (hhead : indexOk g.s.txHead g.s.txLength = true) :
    if g.txHead = g.s.txHead then g.scrub.1 = .ok ∧
      g.scrub.2 = { g with tx := g.scrub.2.tx, s.scrubbed := g.s.scrubbed + 1 } ∧
      ∀ i, g.scrub.2.tx i =
        if i < g.s.txLength ∧ (if g.s.txHead < g.txTail then g.s.txHead ≤ i ∧ i < g.txTail
          else g.s.txHead ≤ i ∨ i < g.txTail) then 0 else g.tx i
    else g.scrub = (.estate, g) := by
  obtain ⟨ht, ht8⟩ := indexOk_iff.mp htail
  obtain ⟨hh, hh8⟩ := indexOk_iff.mp hhead
  split
  · rename_i hpub
    have hscrub : g.scrub = _ := if_neg (by simp [htail, hhead, hpub])
    rw [hscrub]
    refine ⟨rfl, rfl, fun i => ?_⟩
    show scrubWords _ _ _ _ i = _
    rw [scrubWords_apply (by omega) _ (by omega) hh (by split_ifs <;> omega)]
    split_ifs <;> first | rfl | omega
  · exact if_pos (by simp [*])

/-- The frames that wait go round the end of the FIFO. -/
def wrappedSession : Link :=
  { openSession with tx := fun _ => 7, txTail := 56, txHead := 8, s.txHead := 8 }

theorem scrub_exactly_wrapped : wrappedSession.scrub.1 = .ok ∧
    wrappedSession.scrub.2.tx 60 = 7 ∧ wrappedSession.scrub.2.tx 20 = 0 :=
  have h := (if_pos rfl).mp (scrub_exactly wrappedSession rfl rfl rfl)
  ⟨h.1, (h.2.2 60).trans (if_neg (by decide)), (h.2.2 20).trans (if_pos (by decide))⟩

def openSessionOps : List Op := [.send chClient [1, 2, 3, 4, 5] 100000, .drive chClient]

theorem runOps_recovered_openSession :
    FreshSession openSession ∧
      ∃ frames, readFrames 64 (runOps openSessionOps openSession).2.txPending.length
          (runOps openSessionOps openSession).2.txPending = some frames ∧
        sentFrames (runOps openSessionOps openSession).2.trace =
          (runOps openSessionOps openSession).2.taken ++ frames :=
  ⟨openSession_fresh, runOps_recovered openSession openSession_fresh openSessionOps
    (by decide +kernel) (by decide +kernel) (by decide +kernel)⟩

end Q1n1.Glink
