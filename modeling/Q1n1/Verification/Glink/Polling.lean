import Q1n1.Verification.Glink.Handling

/-! # Polling moves along the steps -/

namespace Q1n1.Glink

open Cut Bytes List

/-! ## The frame at our tail -/

section Peek

variable (g : Link)

@[simp] theorem rxPeek_length (offset count : ℕ) : (g.rxPeek offset count).length = count :=
  Ring.copyOut_length _ _ _ _

variable {g} (hpos : 0 < g.s.rxLength)
include hpos

theorem rxPeek_take {offset a b : ℕ} (h : a ≤ b) : (g.rxPeek offset b).take a = g.rxPeek offset a :=
  Ring.copyOut_take g.rx (Nat.mod_lt _ hpos) h

theorem rxPeek_drop {a b : ℕ} (h : a ≤ b) : (g.rxPeek 0 b).drop a = g.rxPeek a (b - a) := by
  unfold Link.rxPeek
  rw [Ring.copyOut_drop g.rx (Nat.mod_lt _ hpos) h, add_zero, Nat.mod_add_mod]

theorem rxPeek_piece {offset count total : ℕ} (h : offset + count ≤ total) :
    ((g.rxPeek 0 total).drop offset).take count = g.rxPeek offset count := by
  rw [rxPeek_drop hpos (by omega), rxPeek_take hpos (by omega)]

end Peek

variable {h : List UInt8}

theorem header_fields_of_take {h' : List UInt8} (heq : h.take 8 = h'.take 8) :
    headerCmd h = headerCmd h' ∧ headerP1 h = headerP1 h' ∧ headerP2 h = headerP2 h' := by
  have hdrop : ∀ k, (h.take 8).drop k = (h'.take 8).drop k := fun k => by rw [heq]
  refine ⟨?_, ?_, ?_⟩
  · unfold headerCmd get16
    rw [← getLe_take (show 2 ≤ 8 by omega) h, heq, getLe_take (by omega)]
  · have h2 := hdrop 2
    simp only [drop_take] at h2
    unfold headerP1 get16
    rw [← getLe_take (show 2 ≤ 8 - 2 by omega) (h.drop 2), h2, getLe_take (by omega)]
  · have h4 := hdrop 4
    simp only [drop_take] at h4
    unfold headerP2 get32
    rw [← getLe_take (show 4 ≤ 8 - 4 by omega) (h.drop 4), h4, getLe_take (by omega)]

variable {n : ℕ}

theorem ofCode?_eq_some {cmd : Command} (h : Command.ofCode? n = some cmd) : n = cmd.code := by
  unfold Command.ofCode? at h
  split at h <;> cases h <;> rfl

variable {avail : ℕ}

theorem frameLength_whole {fifo : ℕ} (hw : frameLength fifo h avail = .whole n) :
    frameSpan h = some n ∧ n < fifo ∧ n ≤ avail ∧ (isData h = true → 16 ≤ avail) := by
  unfold frameLength at hw
  split at hw
  · cases hw
  · rename_i hdata
    cases hspan : frameSpan h with
    | none =>
      rw [hspan] at hw
      cases hw
    | some length =>
      rw [hspan] at hw
      dsimp only at hw
      split at hw
      · cases hw
      · split at hw
        · cases hw
        · cases hw
          refine ⟨rfl, by omega, by omega, fun h16 => ?_⟩
          by_contra hlt
          exact hdata ⟨h16, by omega⟩

theorem frameSpan_ge (hs : frameSpan h = some n) : 8 ≤ n := by
  unfold frameSpan at hs
  split at hs
  · cases hs
  · split at hs
    · cases hs
    · cases hs
      omega
  · cases hs
    omega
  · cases hs
    exact le_trans (by omega) (le_align8 _)
  · cases hs
    exact le_trans (by omega) (le_align8 _)
  · cases hs
    exact le_refl 8

theorem frameSpan_of_isData (hdata : isData h = true) :
    frameSpan h = some (align8 (16 + get32 (h.drop 8))) := by
  unfold isData at hdata
  unfold frameSpan
  split at hdata <;> simp_all

/-- What the handlers read of a whole frame is what was logged of it. -/
structure FrameAt (g : Link) (h frame : List UInt8) : Prop where
  cmd : headerCmd h = headerCmd frame
  p1 : headerP1 h = headerP1 frame
  p2 : headerP2 h = headerP2 frame
  name : headerCmd frame = Command.open.code → g.rxPeek 8 (headerP2 frame % 65536) = openName frame
  pairs : headerCmd frame = Command.intent.code → ∀ k < headerP2 frame,
    get32 (g.rxPeek (8 + 8 * k) 8) = intentSize frame k ∧
      get32 ((g.rxPeek (8 + 8 * k) 8).drop 4) = intentId frame k
  data : isData frame = true → get32 ((g.rxPeek 0 16).drop 8) = get32 (frame.drop 8) ∧
      get32 ((g.rxPeek 0 16).drop 12) = get32 (frame.drop 12) ∧
      g.rxPeek 16 (get32 (frame.drop 8)) = (frame.drop 16).take (get32 (frame.drop 8))

theorem isData_congr {h' : List UInt8} (hcmd : headerCmd h = headerCmd h') :
    isData h = isData h' := by
  unfold isData
  rw [hcmd]

theorem rxHeader_take (g : Link) (hpos : 0 < g.s.rxLength) (avail : ℕ) :
    (g.rxHeader avail).take 8 = g.rxPeek 0 8 := by
  unfold Link.rxHeader
  split
  · rw [take_append_of_le_length (by simp)]
    exact rxPeek_take hpos (le_refl 8)
  · exact rxPeek_take hpos (by omega)

variable {g : Link}

theorem frameAt_rxHeader (hw : frameLength g.s.rxLength (g.rxHeader avail) avail = .whole n) :
    FrameAt g (g.rxHeader avail) (g.rxPeek 0 n) := by
  obtain ⟨hspan, hlt, hle, hdata⟩ := frameLength_whole hw
  have hpos : 0 < g.s.rxLength := by omega
  have h8 := frameSpan_ge hspan
  have htake : (g.rxHeader avail).take 8 = (g.rxPeek 0 n).take 8 := by
    rw [rxHeader_take g hpos, rxPeek_take hpos h8]
  obtain ⟨hcmd, hp1, hp2⟩ := header_fields_of_take htake
  refine ⟨hcmd, hp1, hp2, ?_, ?_, ?_⟩
  · intro hopen
    rw [← hcmd] at hopen
    unfold frameSpan at hspan
    rw [hopen, Command.ofCode?_code] at hspan
    dsimp only at hspan
    split at hspan
    · cases hspan
    · cases hspan
      have hname := le_align8 (headerP2 (g.rxHeader avail) % 65536)
      rw [openName, ← hp2, rxPeek_piece hpos (by omega)]
  · intro hintent k hk
    rw [← hcmd] at hintent
    unfold frameSpan at hspan
    rw [hintent, Command.ofCode?_code] at hspan
    cases hspan
    rw [← hp2] at hk
    have hpiece := rxPeek_piece hpos
      (show 8 + 8 * k + 8 ≤ 8 + 8 * headerP2 (g.rxHeader avail) by omega)
    rw [← hpiece]
    constructor
    · exact getLe_take (by omega) _
    · rw [drop_take, drop_drop]
      unfold intentId get32
      rw [getLe_take (by omega)]
      congr 2
      omega
  · intro hd
    have hd' : isData (g.rxHeader avail) = true := by rwa [isData_congr hcmd]
    have h16 := hdata hd'
    have hheader : g.rxHeader avail = g.rxPeek 0 16 := by
      simp [Link.rxHeader, Nat.not_lt.mpr h16]
    rw [frameSpan_of_isData hd', Option.some.injEq, hheader] at hspan
    have halign := le_align8 (16 + get32 ((g.rxPeek 0 16).drop 8))
    have h16n : 16 ≤ n := by omega
    rw [← rxPeek_take hpos h16n, drop_take] at hspan halign ⊢
    have hchunk : get32 (((g.rxPeek 0 n).drop 8).take (16 - 8)) = get32 ((g.rxPeek 0 n).drop 8) :=
      getLe_take (by omega) _
    rw [hchunk] at hspan halign ⊢
    refine ⟨rfl, ?_, ?_⟩
    · rw [drop_take]
      exact getLe_take (by omega) _
    · rw [rxPeek_piece hpos (by omega)]

/-! ## Dispatch -/

section Dispatch

variable {x : Ctx} {a : Link}

theorem handleVersion_does (p1 p2 : ℕ) :
    Does Step (LiveWith x anyChannels) (handleVersion p1 p2) (Ends (LiveWith x anyChannels)) := by
  apply does_cond
  · exact ends_ok
  · refine modifyS_bind (LiveWith.stable x anyChannels) ?_
    exact does_get fun _ _ => control_does _ _ rfl

theorem handleVersionAck_does (p1 p2 : ℕ) :
    Does Step (LiveWith x anyChannels) (handleVersionAck p1 p2)
      (Ends (LiveWith x anyChannels)) := by
  have hstable := LiveWith.stable x anyChannels
  apply does_get
  intro a _
  apply does_cond
  · exact modifyS_bind hstable ends_ok
  · apply does_cond
    · exact modifyS_bind hstable ends_ok
    · refine modifyS_bind hstable ?_
      apply does_cond
      · exact fail_ends (by decide) LiveWith.active
      · exact modifyS_bind hstable sendVersion_does

theorem handleOpenAck_does (p1 : ℕ) :
    Does Step (LiveWith x anyChannels) (handleOpenAck p1) (Ends (LiveWith x anyChannels)) := by
  have hdrop := drop_ends (LiveWith.stable x anyChannels)
  apply does_get
  intro a _
  split
  · exact hdrop
  · rename_i c _
    apply does_cond
    · apply (modifyCh_does c anyChannels ?_ fun _ _ => trivial).bind
      · intro _
        exact ends_ok
      · intro ch _
        refine ⟨rfl, rfl, rfl, rfl, rfl, rfl, rfl, rfl, ?_⟩
        simp only [Channel.ready, Bool.and_eq_true]
        rintro ⟨⟨⟨_, h2⟩, h3⟩, h4⟩
        exact ⟨⟨⟨trivial, h2⟩, h3⟩, h4⟩
    · exact hdrop

theorem handleIntentReqAck_does (p1 p2 : ℕ) :
    Does Step (LiveWith x anyChannels) (handleIntentReqAck p1 p2)
      (Ends (LiveWith x anyChannels)) := by
  apply does_get
  intro a _
  split
  · exact ends_ok
  · rename_i c _
    refine modifyCh_bind c ?_
    exact ends_ok

theorem handleCloseAck_does (ha : Live x a) {frame : List UInt8}
    (hlast : a.trace.getLast? = some (.dispatched frame a.s.ch a.sending))
    (hcmd : headerCmd frame = Command.closeAck.code) :
    Does Step (fun g => g = a) (handleCloseAck (headerP1 frame))
      (Ends (LiveWith x anyChannels)) := by
  have hpre : ∀ g, g = a → LiveWith x anyChannels g := by
    rintro g rfl
    exact ⟨ha, trivial⟩
  apply does_get_bind
  rintro _ rfl
  rename_i a
  split
  · exact does_pure fun g hg => .ok (hpre g hg)
  · rename_i c hby
    apply does_ite
    · intro hclose
      apply Does.bind (Q := fun _ => LiveWith x anyChannels)
      · apply does_modify_at
        · exact .act _ ha.started ha.settled (.closeAcked c frame hlast hcmd hby hclose)
        · refine ⟨ha.after rfl rfl rfl ?_ prefix_rfl ?_, trivial⟩
          · exact setCh_keeps Channel.lcid a c ((a.s.ch c).ackClose) rfl
          · rw [settled_dispatched (g := a.setCh c (a.s.ch c).ackClose) hlast,
              ← settled_dispatched hlast]
            exact ha.settled
      · intro _
        exact ends_ok
    · intro _
      exact does_pure fun g hg => .ok (hpre g hg)

theorem dispatch_does (ha : Held x a) {before : List Event} {frame : List UInt8}
    (htrace : a.trace = before ++ [.dispatched frame a.s.ch a.sending])
    (hframe : FrameAt a h frame) :
    Does Step (fun g => g = a) (dispatch h) (Ends (LiveWith x anyChannels)) := by
  have hlast : a.trace.getLast? = some (.dispatched frame a.s.ch a.sending) := by simp [htrace]
  have hseen : .dispatched frame a.s.ch a.sending ∈ a.trace := by simp [htrace]
  have hlive : isData frame = false → Live x a := by
    intro hdata
    refine ⟨ha, (settled_dispatched hlast).mpr ?_⟩
    simp [dataPart, hdata]
  have hpre : isData frame = false → ∀ g, g = a → LiveWith x anyChannels g := by
    rintro hdata g rfl
    exact ⟨hlive hdata, trivial⟩
  unfold dispatch
  rw [hframe.cmd, hframe.p1, hframe.p2]
  cases hcode : Command.ofCode? (headerCmd frame) with
  | none =>
    apply fail_ends (by decide)
    rintro g rfl
    exact .inl ha.started
  | some cmd =>
    have hcmd := ofCode?_eq_some hcode
    have hdata := isData_eq_of_headerCmd hcmd
    have htx : cmd = .txData ∨ cmd = .txDataCont → isData frame = true := by
      rintro (rfl | rfl) <;> exact hdata
    cases cmd with
    | version => exact (handleVersion_does _ _).pre (hpre hdata)
    | versionAck => exact (handleVersionAck_does _ _).pre (hpre hdata)
    | «open» => exact handleOpen_does (hlive hdata) hseen hcmd (hframe.name hcmd) _
    | close => exact handleClose_does (hlive hdata) hseen hcmd
    | openAck => exact (handleOpenAck_does _).pre (hpre hdata)
    | intent => exact handleIntent_does (hlive hdata) hseen hcmd (hframe.pairs hcmd)
    | rxDone => exact handleRxDone_does (hlive hdata) hseen false (by simp)
    | rxIntentReq => exact (handleIntentRequest_does _ _).pre (hpre hdata)
    | rxIntentReqAck => exact (handleIntentReqAck_does _ _).pre (hpre hdata)
    | txData =>
      obtain ⟨hchunk, hleft, hpayload⟩ := hframe.data (htx (.inl rfl))
      have h := handleData_does ha htrace (htx (.inl rfl)) hchunk hleft hpayload
      simpa [hcmd] using h
    | closeAck => exact handleCloseAck_does (hlive hdata) hlast hcmd
    | txDataCont =>
      obtain ⟨hchunk, hleft, hpayload⟩ := hframe.data (htx (.inr rfl))
      have h := handleData_does ha htrace (htx (.inr rfl)) hchunk hleft hpayload
      simpa [hcmd, Command.code] using h
    | readNotif => exact ends_ok.pre (hpre hdata)
    | rxDoneWReuse => exact handleRxDone_does (hlive hdata) hseen true fun _ => hcmd
    | signals => exact ends_ok.pre (hpre hdata)

end Dispatch

/-! ## Polling -/

/-- The bytes counted at an earlier look are still there, if the remote is lawful. -/
def Peeked (avail : ℕ) (g : Link) : Prop :=
  g.rxUnruly = false → g.rxTail = g.s.rxTail → g.s.rxTail < g.s.rxLength →
    avail ≤ Ring.used g.s.rxLength g.rxTail g.rxHead

theorem peeked_rxAvail (h : g.rxAvail = some avail) : Peeked avail g := by
  intro _ heq hlt
  unfold Link.rxAvail at h
  split at h
  · cases h
  · rename_i hok
    simp only [indexOk, Bool.and_eq_false_iff, decide_eq_false_iff_not, not_or, not_not] at hok
    unfold Ring.used
    rw [heq, Ring.dist_eq hlt hok.1]
    split at h
    · cases h
      omega
    · split at h <;> cases h <;> split <;> omega

theorem peeked_patient (avail : ℕ) : Patient (Peeked avail) := by
  intro g t rest h hunruly heq hlt
  simp only [Link.turn, Bool.or_eq_false_iff, Bool.not_eq_false'] at hunruly
  have hlawful := hunruly.2
  simp only [Link.lawfulHead, Bool.and_eq_true, decide_eq_true_eq] at hlawful
  exact (h hunruly.1 heq hlt).trans hlawful.1.2

/-- The context while a frame of `n` bytes is being handled. -/
def Ctx.handling (x : Ctx) (n : ℕ) : Ctx := { x with current := some n }

variable {x : Ctx}

theorem Live.take (h : Live x g) (n : ℕ) : Held (x.handling n) (g.take n) :=
  ⟨h.started, rfl, h.sending, h.lcid, fun e he => mem_append_left _ (h.seen e he)⟩

theorem Live.spent (hx : x.current = none) (h : Live (x.handling n) g) : Live x (g.spent n) :=
  ⟨⟨h.started, hx.symm, h.sending, h.lcid, h.seen⟩, h.settled⟩

theorem takeFrame_does (hx : x.current = none) {a : Link} (ha : LiveWith x anyChannels a)
    (h8 : 8 ≤ avail) (hw : frameLength a.s.rxLength (a.rxHeader avail) avail = .whole n)
    (hpeek : Peeked avail a) :
    Does Step (fun g => g = a) (takeFrame (a.rxHeader avail) n)
      (Returns (LiveWith x anyChannels)) := by
  apply Does.bind (Q := fun _ g => g = a.take n)
  · apply does_modify
    · rintro g rfl
      exact .act _ ha.1.started ha.1.settled
        (.take n (ha.1.current.trans hx) ⟨avail, h8, hw, hpeek⟩)
    · rintro g rfl
      rfl
  · intro _
    have hframe : FrameAt (a.take n) (a.rxHeader avail) (a.rxPeek 0 n) := by
      have h := frameAt_rxHeader hw
      exact { h with }
    apply (dispatch_does (ha.1.take n) rfl hframe).bind
    intro status
    apply does_ite
    · intro hne
      exact does_pure fun g hg => .error hne (hg.2 hne)
    · intro hok
      apply does_get_bind
      intro b hb
      obtain ⟨hlive, _⟩ := hb.1 (not_not.mp hok)
      apply does_ite
      · intro hfailed
        rw [hlive.started] at hfailed
        cases hfailed
      · intro _
        apply Does.bind (Q := fun _ => LiveWith x anyChannels)
        · apply does_modify
          · rintro g rfl
            exact .act _ hlive.started hlive.settled (.spent n hlive.current)
          · rintro g rfl
            exact ⟨hlive.spent hx, trivial⟩
        · intro _
          exact does_pure fun g hg => .ok hg

/-- Live whenever the session is started. -/
def Idle (x : Ctx) (g : Link) : Prop := g.s.state = .started → LiveWith x anyChannels g

theorem LiveWith.idle {R : Channels → Prop} (h : LiveWith x R g) : Idle x g := fun _ => h.any

theorem idle_of_over (h : g.s.state ≠ .started) : Idle x g := fun hs => absurd hs h

theorem Idle.stable (x : Ctx) : Stable (Idle x) := by
  intro a b h ha hb
  exact LiveWith.stable x anyChannels a b h (ha (h.state.symm.trans hb))

theorem serviceRoom_does {P : Link → Prop} (hP : Patient P) :
    Does Step P serviceRoom fun _ g => P g := by
  apply does_get
  intro a _
  apply does_cond
  · exact does_skip
  · apply (txAvail_does hP).bind
    intro room
    exact does_pure fun g hg => hg.2

theorem pollFrames_does (hx : x.current = none) (handled : ℕ) (kick : Bool) (limit : ℕ) :
    Does Step (LiveWith x anyChannels) (pollFrames handled kick limit)
      (Returns (LiveWith x anyChannels)) := by
  have hstable := LiveWith.stable x anyChannels
  have hfail : ∀ (P : Link → Prop) (e : Status) (command : ℕ), e ≠ .ok →
      (∀ g, P g → LiveWith x anyChannels g) →
      Does Step P
        (do
          let e ← fail e command
          return .error e : M (Except Status (ℕ × Bool)))
        (Returns (LiveWith x anyChannels)) := by
    intro P e command he hP
    exact (fail_does he fun g hg => (hP g hg).active).bind fun _ =>
      does_pure fun g hg => .error hg.2.1 hg.2.2
  induction limit generalizing handled kick with
  | zero => exact does_pure fun g hg => .ok hg
  | succ limit ih =>
    apply (rxAvail_does hstable.patient).bind
    intro avail
    cases avail with
    | none => exact hfail _ _ _ (by decide) fun g hg => hg.2
    | some avail =>
      apply does_ite
      · intro _
        exact does_pure fun g hg => .ok hg.2
      · intro h8
        have hP : Patient fun g => LiveWith x anyChannels g ∧ Peeked avail g :=
          fun g t rest h => ⟨hstable.patient g t rest h.1, peeked_patient avail g t rest h.2⟩
        apply ((serviceRoom_does hP).pre fun g hg =>
          ⟨hg.2, peeked_rxAvail hg.1.symm⟩).bind
        intro room
        match room with
        | none => exact hfail _ _ _ (by decide) fun g hg => hg.1
        | some false => exact does_pure fun g hg => .ok hg.1
        | some true =>
          apply does_get_bind
          rintro a ⟨ha, hpeek⟩
          dsimp only
          split
          · apply hfail _ _ _ (by decide)
            rintro g rfl
            exact ha
          · apply does_pure
            rintro g rfl
            exact .ok ha
          · rename_i n hw
            apply (takeFrame_does hx ha (Nat.not_lt.mp h8) hw hpeek).bind
            intro taken
            cases taken with
            | error e =>
              exact does_pure fun g hg => .error (hg.2 e rfl).1 (hg.2 e rfl).2
            | ok u => exact (ih _ _).pre fun g hg => hg.1 u rfl

theorem poll_does (hx : x.current = none) :
    Does Step (LiveWith x anyChannels) poll (Returns (LiveWith x anyChannels)) := by
  apply does_get
  intro a ha
  have hstarted := ha.1.started
  apply does_ite
  · intro hfailed
    simp [hstarted] at hfailed
  · intro _
    apply does_ite
    · intro hstate
      exact absurd hstarted hstate
    · intro _
      apply does_cond
      · apply (fail_does (by decide) LiveWith.active).bind
        intro _
        exact does_pure fun g hg => .error hg.2.1 hg.2.2
      · apply (pollFrames_does hx 0 false _).bind
        intro polled
        cases polled with
        | error e => exact does_pure fun g hg => .error (hg.2 e rfl).1 (hg.2 e rfl).2
        | ok v =>
          obtain ⟨handled, kick⟩ := v
          apply Does.pre (P := LiveWith x anyChannels) _ fun g hg => hg.1 _ rfl
          apply does_cond
          · apply (ring_does (LiveWith.stable x anyChannels) LiveWith.active).bind
            intro status
            apply does_ite
            · intro hok
              exact does_pure fun g hg => .ok (hg.1 hok)
            · intro hne
              exact does_pure fun g hg => .error hne (hg.2 hne)
          · exact does_pure fun g hg => .ok hg

theorem idle_of_failed (h : g.s.state = .failed) : Idle x g := idle_of_over (by simp [h])

theorem Returns.idle {α : Type} {R : Channels → Prop} {result : Except Status α}
    (h : Returns (LiveWith x R) result g) : Idle x g := by
  cases result with
  | ok v => exact (h.1 v rfl).idle
  | error e => exact idle_of_failed (h.2 e rfl).2

theorem poll_idle (hx : x.current = none) : Does Step (Idle x) poll fun polled g =>
      (∀ n, polled = .ok n → LiveWith x anyChannels g) ∧
        (∀ e, polled = .error e → e ≠ .ok) ∧ Idle x g := by
  intro g hg
  by_cases hstarted : g.s.state = .started
  · obtain ⟨hsteps, hpost⟩ := poll_does hx g (hg hstarted)
    refine ⟨hsteps, fun polled heq => ?_⟩
    have h := hpost polled heq
    exact ⟨h.1, fun e he => (h.2 e he).1, h.idle⟩
  · obtain ⟨e, he, hskip⟩ : ∃ e, e ≠ .ok ∧ poll g = (some (.error e), g) := by
      by_cases hfailed : g.s.state = .failed
      · exact ⟨.efailed, by decide, by simp [poll, bind_apply, hfailed]⟩
      · exact ⟨.estate, by decide, by simp [poll, bind_apply, hfailed, hstarted]⟩
    rw [hskip]
    refine ⟨.refl, ?_⟩
    rintro polled heq
    cases heq
    refine ⟨nofun, ?_, hg⟩
    rintro e' heq
    cases heq
    exact he

theorem setServicing_does {P : Link → Prop} (hP : Stable P) (n : ℕ) :
    Does Step P (setServicing n) fun _ g => P g := by
  apply does_modify
  · intro g _
    exact .quiet g.s n g.releasing ⟨rfl, rfl, rfl, rfl, rfl, rfl⟩
  · intro g hg
    exact hP g _ ⟨rfl, rfl, rfl, rfl, rfl⟩ hg

theorem service_does (hx : x.current = none) (maxFrames : ℕ) :
    Does Step (Idle x) (service maxFrames) fun _ => Idle x := by
  apply does_get
  intro a _
  apply does_cond
  · exact does_skip
  · apply (setServicing_does (Idle.stable x) _).bind
    intro _
    apply ((poll_idle hx).post fun _ _ h => h.2.2).bind
    intro handled
    apply (setServicing_does (Idle.stable x) 0).bind
    intro _
    refine modifyS_bind (Idle.stable x) ?_
    exact does_skip

end Q1n1.Glink
