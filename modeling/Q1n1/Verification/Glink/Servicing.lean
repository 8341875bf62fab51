import Q1n1.Verification.Glink.Indices

/-! # Background servicing never waits

Each function below a handler has a budget: the bytes it may write. With that much
room at the start, and a remote whose tail only moves on, no write of it waits. A
serviced frame is handled with more room than any handler's budget. -/

namespace Q1n1.Glink

open Cut

/-! ## Room -/

/-- Our head stands at an index of the FIFO, and the remote's tail inside it. -/
structure TxSound (g : Link) : Prop where
  length : fifoLengthOk g.s.txLength = true
  published : g.txHead = g.s.txHead
  headOk : indexOk g.s.txHead g.s.txLength = true
  tailLt : g.txTail < g.s.txLength

/-- Room for `n` bytes besides the reserve. -/
def HasRoom (g : Link) (n : ℕ) : Prop :=
  Ring.used g.s.txLength g.txTail g.s.txHead + n + txReserve ≤ g.s.txLength

variable {g : Link}

theorem HasRoom.mono {n m : ℕ} (h : HasRoom g n) (hle : m ≤ n) : HasRoom g m := by
  unfold HasRoom at *
  omega

theorem TxSound.headLt (h : TxSound g) : g.s.txHead < g.s.txLength := (indexOk_iff.mp h.headOk).1

theorem TxSound.txAvail_eq (h : TxSound g) {avail : ℕ} (hav : g.txAvail = some avail) :
    avail = g.s.txLength - Ring.used g.s.txLength g.txTail g.s.txHead - txReserve := by
  have hhead := h.headLt
  have htail := h.tailLt
  unfold Ring.used
  rw [Ring.dist_eq htail hhead]
  unfold Link.txAvail at hav
  split at hav
  · cases hav
  · dsimp only [txReserve] at hav ⊢
    split at hav <;> split at hav <;> cases hav <;> split <;> omega

theorem TxSound.hasRoom_of_txAvail (h : TxSound g) {n avail : ℕ} (hn : 0 < n)
    (hav : g.txAvail = some avail) (hle : n ≤ avail) : HasRoom g n := by
  have := h.txAvail_eq hav
  unfold HasRoom
  omega

theorem HasRoom.le_txAvail {n avail : ℕ} (hr : HasRoom g n) (h : TxSound g)
    (hav : g.txAvail = some avail) : n ≤ avail := by
  have := h.txAvail_eq hav
  unfold HasRoom at hr
  omega

/-! ## Budgets -/

def sentBytes (es : List Event) : ℕ := ((sentFrames es).map fun frame => align8 frame.length).sum

theorem sentBytes_append (es es' : List Event) :
    sentBytes (es ++ es') = sentBytes es + sentBytes es' := by
  simp [sentBytes, sentFrames]

/-- There is room for a budget of `k` bytes. -/
def Enough (g : Link) (k : ℕ) : Prop := k = 0 ∨ HasRoom g k

/-- At most `k` bytes are written between the two states, and with room for them and a
remote whose tail moves on, none of them waits. -/
structure Wrote (k : ℕ) (g g' : Link) : Prop where
  servicing : g'.servicing = g.servicing
  forward : g'.txRetreated = false → g.txRetreated = false
  sent : ∃ es, g'.trace = g.trace ++ es ∧ sentBytes es ≤ k
  room : g'.txRetreated = false → TxSound g → Enough g k →
    TxSound g' ∧ g'.waited = g.waited ∧ ∀ n, HasRoom g (k + n) → HasRoom g' n

variable {g' : Link} {k : ℕ}

theorem Wrote.mono {j : ℕ} (h : Wrote j g g') (hle : j ≤ k) : Wrote k g g' := by
  refine ⟨h.servicing, h.forward, ?_, ?_⟩
  · obtain ⟨es, htrace, hbytes⟩ := h.sent
    exact ⟨es, htrace, hbytes.trans hle⟩
  · intro hforward hsound henough
    have hless : Enough g j := by
      rcases henough with hzero | hroom
      · exact .inl (by omega)
      · exact .inr (hroom.mono hle)
    obtain ⟨hsound', hwaited, hleft⟩ := h.room hforward hsound hless
    exact ⟨hsound', hwaited, fun n hn => hleft n (hn.mono (by omega))⟩

theorem Wrote.trans {j : ℕ} {g'' : Link} (h : Wrote j g g') (h' : Wrote k g' g'') :
    Wrote (j + k) g g'' := by
  refine ⟨h'.servicing.trans h.servicing, fun hf => h.forward (h'.forward hf), ?_, ?_⟩
  · obtain ⟨es, htrace, hbytes⟩ := h.sent
    obtain ⟨es', htrace', hbytes'⟩ := h'.sent
    refine ⟨es ++ es', by rw [htrace', htrace, List.append_assoc], ?_⟩
    rw [sentBytes_append]
    omega
  · intro hforward hsound henough
    have hfirst : Enough g j := by
      rcases henough with hzero | hroom
      · exact .inl (by omega)
      · exact .inr (hroom.mono (by omega))
    obtain ⟨hsound', hwaited, hleft⟩ := h.room (h'.forward hforward) hsound hfirst
    have hsecond : Enough g' k := by
      rcases henough with hzero | hroom
      · exact .inl (by omega)
      · exact .inr (hleft k hroom)
    obtain ⟨hsound'', hwaited', hleft'⟩ := h'.room hforward hsound' hsecond
    refine ⟨hsound'', hwaited'.trans hwaited, ?_⟩
    intro n hn
    exact hleft' n (hleft (k + n) (by rwa [← add_assoc]))

/-- The two links agree on the transmit FIFO and on what was recorded of it. -/
structure SameTx (g g' : Link) : Prop where
  length : g'.s.txLength = g.s.txLength
  ourHead : g'.s.txHead = g.s.txHead
  txTail : g'.txTail = g.txTail
  txHead : g'.txHead = g.txHead
  servicing : g'.servicing = g.servicing
  waited : g'.waited = g.waited
  retreated : g'.txRetreated = g.txRetreated

theorem SameTx.trans {a b c : Link} (h : SameTx a b) (h' : SameTx b c) : SameTx a c :=
  ⟨h'.length.trans h.length, h'.ourHead.trans h.ourHead, h'.txTail.trans h.txTail,
    h'.txHead.trans h.txHead, h'.servicing.trans h.servicing, h'.waited.trans h.waited,
    h'.retreated.trans h.retreated⟩

theorem TxSound.same (h : TxSound g) (hsame : SameTx g g') : TxSound g' where
  length := hsame.length ▸ h.length
  published := by rw [hsame.txHead, hsame.ourHead, h.published]
  headOk := by rw [hsame.ourHead, hsame.length, h.headOk]
  tailLt := by
    rw [hsame.txTail, hsame.length]
    exact h.tailLt

theorem HasRoom.same {n : ℕ} (h : HasRoom g n) (hsame : SameTx g g') : HasRoom g' n := by
  unfold HasRoom at *
  rwa [hsame.length, hsame.txTail, hsame.ourHead]

theorem wrote_of_sameTx (hsame : SameTx g g')
    (htrace : ∃ es, g'.trace = g.trace ++ es ∧ sentBytes es = 0) : Wrote 0 g g' := by
  refine ⟨hsame.servicing, fun h => hsame.retreated ▸ h, ?_, ?_⟩
  · obtain ⟨es, hes, hbytes⟩ := htrace
    exact ⟨es, hes, hbytes.le⟩
  · intro _ hsound _
    refine ⟨hsound.same hsame, hsame.waited, ?_⟩
    intro n hn
    rw [zero_add] at hn
    exact hn.same hsame

theorem QuietlyLonger.sentBytes {trace trace' : List Event} (h : QuietlyLonger trace trace') :
    ∃ es, trace' = trace ++ es ∧ Glink.sentBytes es = 0 := by
  obtain ⟨es, hes, hquiet⟩ := h
  refine ⟨es, hes, ?_⟩
  rw [Glink.sentBytes, (frames_quiet hquiet).2]
  rfl

theorem wrote_quiet (htrace : QuietlyLonger g.trace g'.trace)
    (hsame : SameTx g g' := by exact ⟨rfl, rfl, rfl, rfl, rfl, rfl, rfl⟩) : Wrote 0 g g' :=
  wrote_of_sameTx hsame htrace.sentBytes

theorem Wrote.refl (g : Link) : Wrote 0 g g := wrote_quiet (.refl _)

theorem wrote_turn (g : Link) (t : Turn) (rest : List Turn) : Wrote 0 g (g.turn t rest) := by
  refine ⟨rfl, ?_, ⟨[], by simp [Link.turn], le_rfl⟩, ?_⟩
  · intro h
    simp only [Link.turn, Bool.or_eq_false_iff] at h
    exact h.1
  · intro hforward hsound _
    simp only [Link.turn, Bool.or_eq_false_iff, Bool.not_eq_false', Link.forwardTail,
      Bool.and_eq_true, decide_eq_true_eq] at hforward
    obtain ⟨-, hlt, hdist⟩ := hforward
    refine ⟨{ hsound with tailLt := hlt }, rfl, ?_⟩
    intro n hn
    rw [hsound.published] at hdist
    have hused := used_lawful_le hsound.tailLt hlt hsound.headLt hdist
    unfold HasRoom at *
    show Ring.used g.s.txLength t.txTail g.s.txHead + n + txReserve ≤ g.s.txLength
    omega

theorem wrote_publish (g : Link) (hdr data : List UInt8) :
    Wrote (align8 (hdr ++ data).length) g (g.publish hdr data) := by
  refine ⟨rfl, fun h => h, ⟨[.sent (hdr ++ data) g.s.ch], rfl, ?_⟩, ?_⟩
  · simp [sentBytes, sentFrames, Event.sent?]
  · intro _ hsound henough
    obtain ⟨hlen, hhead, htail⟩ :=
      And.intro (fifoLengthOk_iff.mp hsound.length) (And.intro (indexOk_iff.mp hsound.headOk)
        hsound.tailLt)
    have hround := le_align8 (hdr ++ data).length
    have hused : Ring.used g.s.txLength g.txTail g.s.txHead < g.s.txLength := Ring.used_lt htail
    have hfree : Ring.used g.s.txLength g.txTail g.s.txHead + align8 (hdr ++ data).length <
        g.s.txLength := by
      rcases henough with hzero | hroom
      · omega
      · unfold HasRoom txReserve at hroom
        omega
    have hnew : (g.publish hdr data).s.txHead =
        (g.s.txHead + align8 (hdr ++ data).length) % g.s.txLength := by
      rw [publish_txHead hhead.1, roundHead_eq hlen.2.1 hhead.2 hhead.1 (by omega)]
    refine ⟨⟨hsound.length, rfl, ?_, htail⟩, rfl, ?_⟩
    · rw [hnew]
      refine indexOk_iff.mpr ⟨Nat.mod_lt _ (by omega), ?_⟩
      rw [Nat.mod_mod_of_dvd _ (Nat.dvd_of_mod_eq_zero hlen.2.1), Nat.add_mod, hhead.2, align8_mod]
    · intro n hn
      have hdist := Ring.dist_add htail hhead.1 hfree
      unfold HasRoom Ring.used at *
      rw [hnew]
      show Ring.dist g.s.txLength g.txTail _ + n + txReserve ≤ g.s.txLength
      omega

/-! ## Contracts of the functions -/

/-- A function whose budget is `k`. -/
def Writes {α : Type} (k : ℕ) (m : M α) : Prop := ∀ g, Wrote k g (m g).2

section Rules

variable {α β : Type} {j k : ℕ}

theorem Writes.mono {m : M α} (h : Writes j m) (hle : j ≤ k) : Writes k m := fun g => (h g).mono hle

theorem Writes.bind {m : M α} {f : α → M β} (hm : Writes j m) (hf : ∀ a, Writes k (f a)) :
    Writes (j + k) (m >>= f) := by
  intro g
  have hfirst := hm g
  rw [bind_apply]
  cases hrun : m g with
  | mk result g' =>
    rw [hrun] at hfirst
    cases result with
    | none => exact hfirst.mono (by omega)
    | some a => exact hfirst.trans (hf a g')

theorem Writes.then {m : M α} {f : α → M β} (hm : Writes 0 m) (hf : ∀ a, Writes k (f a)) :
    Writes k (m >>= f) := by
  have h := hm.bind hf
  rwa [zero_add] at h

theorem writes_pure {a : α} : Writes k (pure a : M α) :=
  fun g => (Wrote.refl g).mono (Nat.zero_le k)

theorem writes_get {f : Link → M β} (h : ∀ g, Writes k (f g)) : Writes k (Cut.get >>= f) :=
  fun g => h g g

theorem writes_gets {f : Link → α} : Writes 0 (gets f) := Wrote.refl

theorem writes_ite {c : Prop} [Decidable c] {m₁ m₂ : M α} (h₁ : Writes k m₁) (h₂ : Writes k m₂) :
    Writes k (if c then m₁ else m₂) := by
  split
  · exact h₁
  · exact h₂

theorem writes_turn : Writes 0 turn := by
  intro g
  unfold turn
  split
  · exact .refl g
  · exact wrote_turn g _ _

theorem writes_now : Writes 0 now := writes_turn.then fun _ => writes_gets

theorem writes_modifyS {f : Session → Session} {rest : Unit → M α} (hrest : Writes k (rest ()))
    (hf : ∀ s, SameCore s (f s) := by exact fun _ => ⟨rfl, rfl, rfl, rfl, rfl, rfl⟩) :
    Writes k (modifyS f >>= rest) := by
  refine Writes.then (fun g => ?_) fun _ => hrest
  have h := hf g.s
  exact wrote_quiet (.refl _) ⟨h.txLength, h.txHead, rfl, rfl, rfl, rfl, rfl⟩

theorem writes_modifyCh (c : ChannelIx) (f : Channel → Channel) : Writes 0 (modifyCh c f) :=
  fun g => wrote_quiet (.refl g.trace)

theorem writes_fail (error : Status) (command : ℕ) : Writes 0 (fail error command) := by
  refine Writes.then (m := modify _) ?_ fun _ => writes_pure
  intro g
  exact wrote_quiet (.refl g.trace)

theorem writes_drop : Writes k drop := writes_modifyS writes_pure

theorem writes_andThen {first rest : M Status} (hfirst : Writes j first) (hrest : Writes k rest) :
    Writes (j + k) (andThen first rest) :=
  hfirst.bind fun _ => writes_ite hrest writes_pure

theorem writes_ring : Writes 0 ring := by
  refine writes_modifyS (writes_turn.then fun _ => writes_gets.then fun faults => ?_)
  exact writes_ite (writes_fail _ _) writes_pure

end Rules

/-! ## Writing a frame -/

/-- Nothing is published between the two states. -/
structure Still (g g' : Link) : Prop where
  servicing : g'.servicing = g.servicing
  forward : g'.txRetreated = false → g.txRetreated = false
  trace : g'.trace = g.trace

def Stays {α : Type} (m : M α) : Prop := ∀ g, Still g (m g).2

section Stays

variable {α β : Type}

theorem Stays.bind {m : M α} {f : α → M β} (hm : Stays m) (hf : ∀ a, Stays (f a)) :
    Stays (m >>= f) := by
  intro g
  have hfirst := hm g
  rw [bind_apply]
  cases hrun : m g with
  | mk result g' =>
    rw [hrun] at hfirst
    cases result with
    | none => exact hfirst
    | some a =>
      have hrest := hf a g'
      exact ⟨hrest.servicing.trans hfirst.servicing,
        fun h => hfirst.forward (hrest.forward h), hrest.trace.trans hfirst.trace⟩

theorem stays_pure {a : α} : Stays (pure a : M α) := fun _ => ⟨rfl, fun h => h, rfl⟩

theorem stays_gets (f : Link → α) : Stays (gets f) := fun _ => ⟨rfl, fun h => h, rfl⟩

theorem stays_turn : Stays turn := by
  intro g
  unfold turn
  split
  · exact ⟨rfl, fun h => h, rfl⟩
  · refine ⟨rfl, ?_, rfl⟩
    intro h
    simp only [Link.turn, Bool.or_eq_false_iff] at h
    exact h.1

theorem stays_fail (error : Status) (command : ℕ) : Stays (fail error command) := by
  refine Stays.bind (m := modify _) ?_ fun _ => stays_pure
  intro g
  exact ⟨rfl, fun h => h, rfl⟩

theorem stays_ite {c : Prop} [Decidable c] {m₁ m₂ : M α} (h₁ : Stays m₁) (h₂ : Stays m₂) :
    Stays (if c then m₁ else m₂) := by
  split
  · exact h₁
  · exact h₂

end Stays

/-- What a reply that waits for room does after one look at the FIFO. -/
def afterLook (size command deadline bound : ℕ) : Option ℕ → M (Except Status Unit)
  | none => do
    let e ← fail .ecorrupt command
    return .error e
  | some avail =>
    if size ≤ avail then return .ok ()
    else do
      modify Link.wait
      let time ← now
      if deadline < time then return .error .etimedout
      else do
        relax
        awaitSpace size command deadline none bound

theorem awaitSpace_succ (size command deadline bound : ℕ) :
    awaitSpace size command deadline none (bound + 1) =
      txAvail >>= afterLook size command deadline bound := by
  rw [awaitSpace]
  congr 1

theorem stays_afterLook {size command deadline bound : ℕ}
    (h : Stays (awaitSpace size command deadline none bound)) (avail : Option ℕ) :
    Stays (afterLook size command deadline bound avail) := by
  cases avail with
  | none => exact (stays_fail _ _).bind fun _ => stays_pure
  | some avail =>
    refine stays_ite stays_pure ?_
    refine Stays.bind ?_ fun _ => (stays_turn.bind fun _ => stays_gets _).bind fun time => ?_
    · intro g
      exact ⟨rfl, fun h => h, rfl⟩
    · exact stays_ite stays_pure (stays_turn.bind fun _ => h)

theorem stays_awaitSpace (size command deadline bound : ℕ) :
    Stays (awaitSpace size command deadline none bound) := by
  induction bound with
  | zero => exact fun _ => ⟨rfl, fun h => h, rfl⟩
  | succ bound ih =>
    rw [awaitSpace_succ]
    exact (stays_turn.bind fun _ => stays_gets _).bind (stays_afterLook ih)

/-- Nothing is written between the two states, and with room for `k` bytes nothing waits. -/
structure Kept (k : ℕ) (g g' : Link) : Prop extends Still g g' where
  room : g'.txRetreated = false → TxSound g → HasRoom g k →
    TxSound g' ∧ g'.waited = g.waited ∧ ∀ n, HasRoom g n → HasRoom g' n

theorem Kept.trans_wrote (hk : 0 < k) {g'' : Link} (h : Kept k g g') (h' : Wrote k g' g'') :
    Wrote k g g'' := by
  refine ⟨h'.servicing.trans h.servicing, fun hf => h.forward (h'.forward hf), ?_, ?_⟩
  · rw [← h.trace]
    exact h'.sent
  · intro hforward hsound henough
    have hroom : HasRoom g k := henough.resolve_left (by omega)
    obtain ⟨hsound', hwaited, hleft⟩ := h.room (h'.forward hforward) hsound hroom
    obtain ⟨hsound'', hwaited', hleft'⟩ := h'.room hforward hsound' (.inr (hleft k hroom))
    exact ⟨hsound'', hwaited'.trans hwaited, fun n hn => hleft' n (hleft (k + n) hn)⟩

theorem Kept.wrote (hk : 0 < k) (h : Kept k g g') : Wrote k g g' :=
  h.trans_wrote hk ((Wrote.refl g').mono (Nat.zero_le k))

theorem awaitSpace_kept {size : ℕ} (hsize : size ≤ k) (command deadline bound : ℕ) (g : Link) :
    Kept k g (awaitSpace size command deadline none bound g).2 := by
  refine ⟨stays_awaitSpace size command deadline bound g, ?_⟩
  intro hforward hsound hroom
  cases bound with
  | zero => exact ⟨hsound, rfl, fun _ h => h⟩
  | succ bound =>
    rw [awaitSpace_succ] at hforward ⊢
    cases hturns : g.turns with
    | nil =>
      have hlook : txAvail g = (none, g) := by simp [txAvail, turn, bind_apply, hturns]
      rw [bind_of_none hlook]
      exact ⟨hsound, rfl, fun _ h => h⟩
    | cons t rest =>
      have hlook : txAvail g = (some (g.turn t rest).txAvail, g.turn t rest) := by
        simp [txAvail, turn, bind_apply, hturns]
      rw [bind_of_some hlook] at hforward ⊢
      have hstays := stays_afterLook (stays_awaitSpace size command deadline bound)
        (g.turn t rest).txAvail (g.turn t rest)
      obtain ⟨hsound', hwaited, hleft⟩ :=
        (wrote_turn g t rest).room (hstays.forward hforward) hsound (.inl rfl)
      simp only [zero_add] at hleft
      cases hav : (g.turn t rest).txAvail with
      | none =>
        have hsame : SameTx (g.turn t rest)
            (afterLook size command deadline bound none (g.turn t rest)).2 :=
          ⟨rfl, rfl, rfl, rfl, rfl, rfl, rfl⟩
        exact ⟨hsound'.same hsame, hsame.waited.trans hwaited, fun n hn => (hleft n hn).same hsame⟩
      | some avail =>
        have hfits : size ≤ avail := hsize.trans ((hleft k hroom).le_txAvail hsound' hav)
        rw [afterLook, if_pos hfits]
        exact ⟨hsound', hwaited, hleft⟩

theorem writeFrame_writes {hdr data : List UInt8} (hpos : 0 < (hdr ++ data).length) (deadline : ℕ) :
    Writes (align8 (hdr ++ data).length) (writeFrame hdr data deadline none) := by
  have hround := le_align8 (hdr ++ data).length
  refine writes_get fun a => writes_ite ((writes_fail _ _).mono (Nat.zero_le _)) ?_
  intro g
  have hkept := awaitSpace_kept (k := align8 (hdr ++ data).length)
    (show hdr.length + data.length ≤ _ by rwa [← List.length_append]) (get16 hdr) deadline
    (a.turns.length + 1) g
  rw [bind_apply]
  cases hrun : awaitSpace (hdr.length + data.length) (get16 hdr) deadline none
      (a.turns.length + 1) g with
  | mk space g' =>
    rw [hrun] at hkept
    cases space with
    | none => exact hkept.wrote (by omega)
    | some space =>
      cases space with
      | error e => exact hkept.wrote (by omega)
      | ok u =>
        have hpublish : Writes (align8 (hdr ++ data).length)
            (modify fun g => g.publish hdr data) := fun g => wrote_publish g hdr data
        exact hkept.trans_wrote (by omega) (hpublish.bind (fun _ => writes_ring) g')

theorem reply_writes (cmd : Command) {frame : List UInt8} (hpos : 0 < frame.length) :
    Writes (align8 frame.length) (reply cmd frame) := by
  refine writes_now.then fun time => ?_
  have hlength : 0 < (frame ++ []).length := by simpa using hpos
  have hframe := writeFrame_writes hlength (time + controlWaitUs)
  rw [List.append_nil] at hframe
  refine hframe.bind (k := 0) fun status => ?_
  exact writes_ite (writes_fail _ _) writes_pure

theorem control_writes {cmd : Command} {p1 p2 : ℕ} : Writes 8 (control cmd p1 p2) := by
  have hpos : 0 < (header cmd p1 p2).length := by simp
  have h := reply_writes cmd hpos
  rwa [header_length] at h

theorem sendVersion_writes : Writes 8 sendVersion := writes_get fun _ => control_writes

theorem openFrame_length (ch : Channel) :
    0 < (openFrame ch).length ∧ align8 (openFrame ch).length ≤ 40 := by
  unfold openFrame align8 nameBytes
  simp
  omega

theorem sendOpen_writes (c : ChannelIx) : Writes 40 (sendOpen c) := by
  refine writes_get fun g => ?_
  obtain ⟨hpos, hle⟩ := openFrame_length (g.s.ch c)
  refine ((reply_writes .open hpos).mono hle).bind (k := 0) fun status => ?_
  exact writes_ite ((writes_modifyCh c _).then fun _ => writes_pure) writes_pure

theorem advertise_writes (c : ChannelIx) (slot : Fin 4) : Writes 16 (advertise c slot) := by
  refine Writes.then ?_ fun _ => writes_get fun g => ?_
  · intro g
    exact wrote_quiet ⟨[.cleared c slot], rfl, by simp [Event.isQuiet]⟩
  · have hpos : 0 < (header .intent (g.s.ch c).lcid 1 ++ put32 ((g.s.ch c).localIntent slot).size ++
        put32 ((g.s.ch c).localIntent slot).id).length := by simp
    have h := reply_writes .intent hpos
    simpa [put32, align8] using h

/-! ## Handlers -/

theorem writes_quiet {f : Link → Link} (htrace : ∀ g, QuietlyLonger g.trace (f g).trace)
    (hsame : ∀ g, SameTx g (f g) := by exact fun _ => ⟨rfl, rfl, rfl, rfl, rfl, rfl, rfl⟩) :
    Writes 0 (modify f) :=
  fun g => wrote_quiet (htrace g) (hsame g)

theorem sameTx_handleOpen (g : Link) (c : ChannelIx) (rcid : ℕ) :
    SameTx g (g.handleOpen c rcid) := by
  unfold Link.handleOpen
  split <;> exact ⟨rfl, rfl, rfl, rfl, rfl, rfl, rfl⟩

theorem handleOpen_writes (rcid nameLength : ℕ) : Writes 48 (handleOpen rcid nameLength) := by
  refine writes_get fun g => ?_
  split
  · exact writes_modifyS writes_pure
  · rename_i c _
    refine (writes_quiet (fun g => quietlyLonger_handleOpen g c rcid) fun g =>
      sameTx_handleOpen g c rcid).then fun _ => ?_
    refine writes_ite writes_pure ?_
    refine writes_andThen (j := 8) (k := 40) control_writes ?_
    refine (writes_modifyCh c _).then fun _ => writes_get fun g => ?_
    exact writes_ite (sendOpen_writes c) writes_pure

theorem handleClose_writes (rcid : ℕ) : Writes 16 (handleClose rcid) := by
  refine writes_get fun g => ?_
  split
  · exact writes_pure
  · rename_i c _
    refine writes_modifyS ?_
    refine writes_andThen (j := 8) (k := 8) control_writes (writes_get fun g => ?_)
    refine (writes_quiet (f := fun g => g.resetChannel c)
      fun g => quietlyLonger_resetChannel g c).then fun _ => ?_
    refine writes_ite ?_ writes_pure
    refine writes_andThen (j := 8) (k := 0) control_writes ?_
    exact (writes_modifyCh c _).then fun _ => writes_pure

theorem sameTx_offer (g : Link) (c : ChannelIx) (id size : ℕ) : SameTx g (g.offer c id size) := by
  unfold Link.offer
  split <;> exact ⟨rfl, rfl, rfl, rfl, rfl, rfl, rfl⟩

theorem handleIntentFrom_writes (c : Option ChannelIx) (n count : ℕ) :
    Writes 0 (handleIntentFrom c n count) := by
  induction count generalizing n with
  | zero => exact writes_pure
  | succ count ih =>
    refine writes_get fun g => ?_
    cases c with
    | none => exact writes_drop.then fun _ => ih (n + 1)
    | some c =>
      exact (writes_quiet (fun g => quietlyLonger_offer g c _ _) fun g =>
        sameTx_offer g c _ _).then fun _ => ih (n + 1)

theorem sameTx_noteReturn (g : Link) (c : ChannelIx) (id : ℕ) (reuse : Bool) :
    SameTx g (g.noteReturn c id reuse) := by
  unfold Link.noteReturn
  split <;> exact ⟨rfl, rfl, rfl, rfl, rfl, rfl, rfl⟩

theorem handleRxDone_writes (rcid id : ℕ) (reuse : Bool) :
    Writes 0 (handleRxDone rcid id reuse) := by
  refine writes_get fun g => ?_
  split
  · exact writes_drop
  · rename_i c _
    split
    · refine (writes_quiet (fun g => ?_) fun g => sameTx_noteReturn g c id reuse).then
        fun _ => writes_drop
      unfold Link.noteReturn
      split
      · exact quietlyLonger_log g rfl
      · exact .refl _
    · rename_i slot _
      refine (writes_quiet (fun g => quietlyLonger_rxDone g c slot id reuse) fun g => ?_).then
        fun _ => writes_pure
      have hset : SameTx g (g.setCh c ((g.s.ch c).rxDone slot reuse)) :=
        ⟨rfl, rfl, rfl, rfl, rfl, rfl, rfl⟩
      exact hset.trans (sameTx_noteReturn _ c id reuse)

theorem handleIntentRequest_writes (rcid size : ℕ) : Writes 24 (handleIntentRequest rcid size) := by
  refine writes_get fun g => ?_
  split
  · exact writes_drop
  · rename_i c _
    refine writes_ite writes_drop ?_
    split
    · exact control_writes.mono (by decide)
    · exact writes_andThen (j := 16) (advertise_writes c _) control_writes

theorem returnIntent_writes (c : ChannelIx) (slot : Fin 4) : Writes 24 (returnIntent c slot) := by
  refine writes_get fun g => ?_
  refine writes_ite (control_writes.mono (by decide)) ?_
  refine control_writes.bind (k := 16) fun status => ?_
  refine (writes_modifyCh c _).then fun _ => ?_
  exact writes_ite (advertise_writes c slot) writes_pure

theorem sameTx_keep (g : Link) (c : ChannelIx) (slot : Fin 4) (b : Buffer) (first : Bool)
    (payload : List UInt8) : SameTx g (g.keep c slot b first payload) :=
  ⟨rfl, rfl, rfl, rfl, rfl, rfl, rfl⟩

theorem sameTx_deliver (g : Link) (c : ChannelIx) (slot : Fin 4) (b : Buffer) :
    SameTx g (g.deliver c slot b) := by
  obtain ⟨s, hs, heq⟩ := deliver_eq g c slot b
  rw [heq]
  exact ⟨hs.txLength, hs.txHead, rfl, rfl, rfl, rfl, rfl⟩

theorem handleData_writes (rcid id : ℕ) (first : Bool) : Writes 24 (handleData rcid id first) := by
  refine writes_get fun g => ?_
  dsimp only
  split
  · exact writes_drop
  · rename_i c _
    split
    · exact writes_drop
    · rename_i slot _
      split
      · refine (writes_quiet (f := fun g => g.refuse c slot) fun g =>
          ⟨[.refused c slot], rfl, by simp [Event.isQuiet]⟩).then fun _ => writes_pure
      · rename_i b _
        refine writes_ite ?_ ?_
        · refine Writes.then (writes_quiet fun g =>
            ⟨[.kept c slot], rfl, by simp [Event.isQuiet]⟩) fun _ => writes_pure
        · refine Writes.then (writes_quiet (fun g => ?_) fun g => ?_) fun _ =>
            returnIntent_writes c slot
          · exact ⟨[_], rfl, by simp [Event.isQuiet]⟩
          · exact (sameTx_keep g c slot b first _).trans (sameTx_deliver _ c slot b)

theorem handleVersion_writes (p1 p2 : ℕ) : Writes 8 (handleVersion p1 p2) := by
  refine writes_ite writes_pure (writes_modifyS (writes_get fun g => ?_))
  exact control_writes

theorem handleVersionAck_writes (p1 p2 : ℕ) : Writes 8 (handleVersionAck p1 p2) := by
  refine writes_get fun g => writes_ite (writes_modifyS writes_pure) ?_
  refine writes_ite (writes_modifyS writes_pure) (writes_modifyS ?_)
  refine writes_ite ?_ (writes_modifyS sendVersion_writes)
  exact (writes_fail _ _).mono (Nat.zero_le _)

theorem handleOpenAck_writes (p1 : ℕ) : Writes 0 (handleOpenAck p1) := by
  refine writes_get fun g => ?_
  split
  · exact writes_drop
  · exact writes_ite ((writes_modifyCh _ _).then fun _ => writes_pure) writes_drop

theorem handleCloseAck_writes (p1 : ℕ) : Writes 0 (handleCloseAck p1) := by
  refine writes_get fun g => ?_
  split
  · exact writes_pure
  · exact writes_ite ((writes_modifyCh _ _).then fun _ => writes_pure) writes_pure

theorem handleIntentReqAck_writes (p1 p2 : ℕ) : Writes 0 (handleIntentReqAck p1 p2) := by
  refine writes_get fun g => ?_
  split
  · exact writes_pure
  · exact (writes_modifyCh _ _).then fun _ => writes_pure

variable (h : List UInt8)

/-- The largest reply is to an OPEN: the acknowledgement and our own OPEN. -/
theorem dispatch_writes : Writes 48 (dispatch h) := by
  unfold dispatch
  split
  · exact (writes_fail _ _).mono (Nat.zero_le _)
  · exact (handleVersion_writes _ _).mono (by decide)
  · exact (handleVersionAck_writes _ _).mono (by decide)
  · exact handleOpen_writes _ _
  · exact (handleOpenAck_writes _).mono (Nat.zero_le _)
  · exact (handleClose_writes _).mono (by decide)
  · exact (handleCloseAck_writes _).mono (Nat.zero_le _)
  · exact writes_pure
  · exact (writes_get fun g => handleIntentFrom_writes _ _ _).mono (Nat.zero_le _)
  · exact (handleRxDone_writes _ _ _).mono (Nat.zero_le _)
  · exact (handleRxDone_writes _ _ _).mono (Nat.zero_le _)
  · exact (handleIntentRequest_writes _ _).mono (by decide)
  · exact (handleIntentReqAck_writes _ _).mono (Nat.zero_le _)
  · exact (handleData_writes _ _ _).mono (by decide)
  · exact (handleData_writes _ _ _).mono (by decide)
  · exact writes_pure

theorem takeFrame_writes (frame : ℕ) : Writes 48 (takeFrame h frame) := by
  refine Writes.then ?_ fun _ => (dispatch_writes h).bind (k := 0) fun status => ?_
  · intro g
    exact wrote_of_sameTx ⟨rfl, rfl, rfl, rfl, rfl, rfl, rfl⟩ ⟨[_], rfl, rfl⟩
  · refine writes_ite writes_pure (writes_get fun g => writes_ite writes_pure ?_)
    refine Writes.then ?_ fun _ => writes_pure
    intro g
    exact wrote_quiet (.refl g.trace)

/-! ## Servicing -/

/-- While frames are serviced nothing waits, whatever room there is at the start. -/
structure Unwaited (g g' : Link) : Prop where
  servicing : g'.servicing = g.servicing
  forward : g'.txRetreated = false → g.txRetreated = false
  unwaited : g'.txRetreated = false → TxSound g → TxSound g' ∧ g'.waited = g.waited

theorem Wrote.unwaited (h : Wrote 0 g g') : Unwaited g g' := by
  refine ⟨h.servicing, h.forward, ?_⟩
  intro hforward hsound
  obtain ⟨hsound', hwaited, _⟩ := h.room hforward hsound (.inl rfl)
  exact ⟨hsound', hwaited⟩

theorem Unwaited.trans {g'' : Link} (h : Unwaited g g') (h' : Unwaited g' g'') :
    Unwaited g g'' := by
  refine ⟨h'.servicing.trans h.servicing, fun hf => h.forward (h'.forward hf), ?_⟩
  intro hforward hsound
  obtain ⟨hsound', hwaited⟩ := h.unwaited (h'.forward hforward) hsound
  obtain ⟨hsound'', hwaited'⟩ := h'.unwaited hforward hsound'
  exact ⟨hsound'', hwaited'.trans hwaited⟩

theorem unwaited_bind {α β : Type} {m : M α} {f : α → M β} (hm : Unwaited g (m g).2)
    (hf : ∀ a g', m g = (some a, g') → Unwaited g' (f a g').2) : Unwaited g ((m >>= f) g).2 := by
  rw [bind_apply]
  cases hrun : m g with
  | mk result g' =>
    rw [hrun] at hm
    cases result with
    | none => exact hm
    | some a => exact hm.trans (hf a g' hrun)

theorem Writes.unwaited {α : Type} {m : M α} (h : Writes 0 m) (g : Link) : Unwaited g (m g).2 :=
  (h g).unwaited

theorem serviceRoom_writes : Writes 0 serviceRoom := by
  refine writes_get fun g => writes_ite writes_pure ?_
  exact (writes_turn.then fun _ => writes_gets).then fun room => writes_pure

/-- While frames are serviced, one is handled only with room for every reply. -/
theorem serviceRoom_measured (hservicing : g.servicing ≠ 0)
    (h : serviceRoom g = (some (some true), g')) :
    ∃ room, g'.txAvail = some room ∧ serviceTxRoom ≤ room := by
  obtain ⟨a, b, hget, h⟩ := bind_eq_some h
  cases hget
  rw [if_neg hservicing] at h
  obtain ⟨room, b, hlook, h⟩ := bind_eq_some h
  obtain ⟨_, a, _, hlook⟩ := bind_eq_some hlook
  cases hlook
  simp only [pure_apply, Prod.mk.injEq, Option.some.injEq] at h
  obtain ⟨hmap, rfl⟩ := h
  obtain ⟨room, hroom, hle⟩ := Option.map_eq_some_iff.mp hmap
  exact ⟨room, hroom, of_decide_eq_true hle⟩

theorem takeFrame_unwaited (frame : ℕ) {room : ℕ} (hav : g.txAvail = some room)
    (hroom : serviceTxRoom ≤ room) : Unwaited g (takeFrame h frame g).2 := by
  have hwrote := takeFrame_writes h frame g
  refine ⟨hwrote.servicing, hwrote.forward, ?_⟩
  intro hforward hsound
  have hfree : HasRoom g 48 :=
    hsound.hasRoom_of_txAvail (by decide) hav (le_trans (by decide) hroom)
  obtain ⟨hsound', hwaited, _⟩ := hwrote.room hforward hsound (.inr hfree)
  exact ⟨hsound', hwaited⟩

theorem pollFrames_unwaited (handled : ℕ) (kick : Bool) (limit : ℕ) (g : Link)
    (hservicing : g.servicing ≠ 0) : Unwaited g (pollFrames handled kick limit g).2 := by
  induction limit generalizing handled kick g with
  | zero => exact (Wrote.refl g).unwaited
  | succ limit ih =>
    have hfail : ∀ (e : Status) (command : ℕ) (a : Link), Unwaited a
        ((fail e command >>= fun e => pure (.error e) : M (Except Status (ℕ × Bool))) a).2 :=
      fun e command a => ((writes_fail e command).then fun _ => writes_pure).unwaited a
    rw [pollFrames]
    have hlook : Writes 0 rxAvail := writes_turn.then fun _ => writes_gets
    refine unwaited_bind (hlook.unwaited g) fun avail g₁ hrun => ?_
    have hservicing₁ : g₁.servicing ≠ 0 := by
      have h := (hlook g).servicing
      rw [hrun] at h
      rwa [h]
    cases avail with
    | none => exact hfail _ _ g₁
    | some avail =>
      dsimp only
      split
      · exact (Wrote.refl g₁).unwaited
      · refine unwaited_bind (serviceRoom_writes.unwaited g₁) fun room g₂ hrun => ?_
        have hservicing₂ : g₂.servicing ≠ 0 := by
          have h := (serviceRoom_writes g₁).servicing
          rw [hrun] at h
          rwa [h]
        match room, hrun with
        | none, _ => exact hfail _ _ g₂
        | some false, _ => exact (Wrote.refl g₂).unwaited
        | some true, hrun =>
          obtain ⟨room, hav, hroom⟩ := serviceRoom_measured hservicing₁ hrun
          dsimp only
          rw [bind_of_some (get_apply g₂)]
          cases frameLength g₂.s.rxLength (g₂.rxHeader avail) avail with
          | bad => exact hfail _ _ g₂
          | incomplete => exact (Wrote.refl g₂).unwaited
          | whole frame =>
            have htaken := takeFrame_unwaited (g₂.rxHeader avail) frame hav hroom
            refine unwaited_bind htaken fun taken g₃ hrun => ?_
            cases taken with
            | error e => exact (Wrote.refl g₃).unwaited
            | ok u =>
              apply ih
              have h := htaken.servicing
              rw [hrun] at h
              rwa [h]

theorem poll_unwaited (g : Link) (hservicing : g.servicing ≠ 0) : Unwaited g (poll g).2 := by
  rw [poll, bind_of_some (get_apply g)]
  split
  · exact (Wrote.refl g).unwaited
  · split
    · exact (Wrote.refl g).unwaited
    · split
      · exact ((writes_fail _ _).then fun _ => writes_pure).unwaited g
      · refine unwaited_bind (pollFrames_unwaited 0 false _ g hservicing) fun polled g₁ _ => ?_
        cases polled with
        | error e => exact (Wrote.refl g₁).unwaited
        | ok polled =>
          refine Writes.unwaited (m := if polled.2 then _ else _) ?_ g₁
          refine writes_ite (writes_ring.then fun status => ?_) writes_pure
          exact writes_ite writes_pure writes_pure

theorem service_unwaited (maxFrames : ℕ) (hforward : (service maxFrames g).2.txRetreated = false) :
    g.txRetreated = false ∧ (TxSound g → (service maxFrames g).2.waited = g.waited) := by
  rw [service, bind_of_some (get_apply g)] at hforward ⊢
  split at hforward
  · rename_i hstate
    rw [if_pos hstate]
    exact ⟨hforward, fun _ => rfl⟩
  · rename_i hstate
    rw [if_neg hstate]
    let n := if maxFrames = 0 then 1 else min maxFrames framesPerPoll
    have hn : n ≠ 0 := by
      simp only [n, framesPerPoll]
      split <;> omega
    have hset : setServicing n g = (some (), { g with servicing := n }) := rfl
    rw [bind_of_some hset] at hforward ⊢
    have hpoll := poll_unwaited { g with servicing := n } hn
    have hsound : TxSound g → TxSound { g with servicing := n } := fun h => { h with }
    cases hrun : poll { g with servicing := n } with
    | mk handled g₂ =>
      rw [hrun] at hpoll
      cases handled with
      | none =>
        rw [bind_of_none hrun] at hforward ⊢
        exact ⟨hpoll.forward hforward, fun h => (hpoll.unwaited hforward (hsound h)).2⟩
      | some handled =>
        rw [bind_of_some hrun] at hforward ⊢
        exact ⟨hpoll.forward hforward, fun h => (hpoll.unwaited hforward (hsound h)).2⟩

/-! ## Runs -/

theorem TxSound.publish (h : TxSound g) {hdr data : List UInt8}
    (hfits : Fits g (hdr ++ data).length) (hpos : 0 < (hdr ++ data).length) :
    TxSound (g.publish hdr data) := by
  have htail : indexOk g.txTail g.s.txLength = true := by
    obtain ⟨avail, hav, _⟩ := hfits
    unfold Link.txAvail at hav
    split at hav
    · cases hav
    · rename_i hok
      simpa using hok
  have hfree := hfits.reserve hpos h.tailLt h.headLt
  obtain ⟨hhead, _, _⟩ := published_head (fifoLengthOk_iff.mp h.length).2.1 h.headOk htail hfree
  exact ⟨h.length, rfl, hhead, h.tailLt⟩

theorem TxSound.effect (heffect : Effect g g') (h : TxSound g) (hforward : g'.txRetreated = false) :
    TxSound g' := by
  cases heffect with
  | turn t rest => exact ((wrote_turn g t rest).room hforward h (.inl rfl)).1
  | publish hdr data _ _ hfits hallowed => exact h.publish hfits hallowed.length_pos
  | take n => exact { h with }
  | spent n => exact { h with }
  | finishRelease => exact ⟨h.length, rfl, indexOk_zero h.length, h.tailLt⟩
  | quiet _ hsame =>
    refine ⟨?_, ?_, ?_, ?_⟩
    · rw [hsame.txLength, h.length]
    · rw [hsame.txHead, hsame.ourHead, h.published]
    · rw [hsame.ourHead, hsame.txLength, h.headOk]
    · rw [hsame.txTail, hsame.txLength]
      exact h.tailLt

theorem Effect.forward (h : Effect g g') : g'.txRetreated = false → g.txRetreated = false := by
  cases h with
  | turn t rest => exact (wrote_turn g t rest).forward
  | quiet _ hsame => exact fun h => hsame.txRetreated ▸ h
  | _ => exact fun h => h

theorem txSound_steps (hsteps : Steps g g') (h : g.txRetreated = false → TxSound g)
    (hforward : g'.txRetreated = false) : TxSound g' := by
  refine steps_keep (I := fun a => a.txRetreated = false → TxSound a) ?_ hsteps h hforward
  intro a b hstep ih hb
  exact TxSound.effect hstep.effect (ih (hstep.effect.forward hb)) hb

theorem txSound_restart {name : List UInt8} {lcid : ℕ} {mode : RestartMode} {g₀ a : Link}
    {words : List ℕ} (hr : Restarted name lcid mode g₀ a words)
    (hlength : fifoLengthOk a.s.txLength = true)
    (hforward : (a.restart name lcid mode words).txRetreated = false) :
    TxSound (a.restart name lcid mode words) := by
  refine ⟨hlength, rfl, ?_, ?_⟩
  · simp only [Link.restart]
    split
    · exact hr.txTail
    · exact indexOk_zero hlength
  · simpa [Link.restart] using hforward

/-- Background servicing after any run of a session: each frame is handled with room for
all that its handler writes, and no write of the call waits (`waited` is cleared before it),
unless the remote's tail moved back. -/
theorem service_never_waits (name : List UInt8) (lcid : ℕ) (mode : RestartMode) (g₀ g : Link)
    (htx : fifoLengthOk g₀.s.txLength = true)
    (hrestart : restart name lcid mode g₀ = (some .ok, g)) (ops : List Op) (maxFrames : ℕ) :
    let after := (service maxFrames { (runOps ops g).2 with waited := false }).2
    (after.txRetreated = false → after.waited = false) ∧
    ∀ (a b : Link) (h : List UInt8) (frame : ℕ), a.servicing ≠ 0 →
      serviceRoom a = (some (some true), b) →
      ∃ room es, b.txAvail = some room ∧ (takeFrame h frame b).2.trace = b.trace ++ es ∧
        sentBytes es ≤ room := by
  refine ⟨?_, ?_⟩
  · intro hforward
    obtain ⟨a, words, hr, hsteps⟩ := session_steps hrestart ops
    have hlength : fifoLengthOk a.s.txLength = true := (steps_lengths hr.sampled).1.symm ▸ htx
    obtain ⟨hbefore, hwaited⟩ := service_unwaited maxFrames hforward
    exact hwaited { txSound_steps hsteps (txSound_restart hr hlength) hbefore with }
  · intro a b h frame hservicing hrun
    obtain ⟨room, hav, hroom⟩ := serviceRoom_measured hservicing hrun
    obtain ⟨es, htrace, hbytes⟩ := (takeFrame_writes h frame b).sent
    exact ⟨room, es, hav, htrace, hbytes.trans (le_trans (by decide) hroom)⟩

/-- The remote's OPEN for channel `"a"` waits to be serviced. -/
def servicedLink : Link := scripted 256 (openA 7) 30

theorem service_never_waits_serviced : (restart [0x61] 5 .linux servicedLink).1 = some .ok ∧
    let after := (service 16 { (restart [0x61] 5 .linux servicedLink).2 with waited := false }).2
    after.txRetreated = false ∧ after.waited = false := by
  have h := (service_never_waits [0x61] 5 .linux servicedLink _ rfl restart_returned [] 16).1
  exact ⟨by decide +kernel, by decide +kernel, h (by decide +kernel)⟩

end Q1n1.Glink
