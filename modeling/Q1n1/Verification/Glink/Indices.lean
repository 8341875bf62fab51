import Q1n1.Verification.Glink.Effects
import Q1n1.Verification.Glink.Framing

/-! # The four indices -/

namespace Q1n1.Glink

open Cut List Q1n1.Ring Link

/-! ## Frames of a record -/

def Event.dispatched? : Event → Option (List UInt8)
  | .dispatched frame _ _ => some frame
  | _ => none

def Event.sent? : Event → Option (List UInt8)
  | .sent frame _ => some frame
  | _ => none

/-- The frames handed to `dispatch`, and the frames published. -/
def dispatchedFrames (trace : List Event) : List (List UInt8) := trace.filterMap Event.dispatched?
def sentFrames (trace : List Event) : List (List UInt8) := trace.filterMap Event.sent?

@[simp] theorem dispatchedFrames_append (trace es : List Event) :
    dispatchedFrames (trace ++ es) = dispatchedFrames trace ++ dispatchedFrames es :=
  filterMap_append

@[simp] theorem sentFrames_append (trace es : List Event) :
    sentFrames (trace ++ es) = sentFrames trace ++ sentFrames es :=
  filterMap_append

theorem frames_quiet {es : List Event} (hes : ∀ e ∈ es, e.isQuiet = true) :
    dispatchedFrames es = [] ∧ sentFrames es = [] := by
  constructor
  · apply filterMap_eq_nil_iff.mpr
    intro e he
    have hq := hes e he
    cases e with
    | dispatched => cases hq
    | _ => rfl
  · apply filterMap_eq_nil_iff.mpr
    intro e he
    have hq := hes e he
    cases e with
    | sent => cases hq
    | _ => rfl

theorem QuietlyLonger.dispatchedFrames {trace trace' : List Event}
    (h : QuietlyLonger trace trace') : dispatchedFrames trace' = dispatchedFrames trace := by
  obtain ⟨es, rfl, hes⟩ := h
  simp [(frames_quiet hes).1]

theorem QuietlyLonger.sentFrames {trace trace' : List Event}
    (h : QuietlyLonger trace trace') : sentFrames trace' = sentFrames trace := by
  obtain ⟨es, rfl, hes⟩ := h
  simp [(frames_quiet hes).2]

theorem indexOk_iff {index length : ℕ} :
    indexOk index length = true ↔ index < length ∧ index % 8 = 0 := by
  simp [indexOk]

/-- The FIFO lengths of a session that `q1n1_glink_view` accepted. -/
structure Lengths (tx rx : ℕ) : Prop where
  tx : fifoLengthOk tx = true
  rx : fifoLengthOk rx = true

variable {size : ℕ}

theorem fifoLengthOk_iff : fifoLengthOk size = true ↔ 64 ≤ size ∧ size % 8 = 0 ∧ size ≤ 2 ^ 20 := by
  simp [fifoLengthOk, and_assoc]

theorem roundHead_eq {length head : ℕ} (hlength : length % 8 = 0) (hhead : head % 8 = 0)
    (hlt : head < length) (hsize : size < length) :
    roundHead length ((head + size) % length) = (head + align8 size) % length := by
  have hge := le_align8 size
  have hround : align8 (head + size) = head + align8 size := by
    unfold align8
    omega
  have hle : align8 size ≤ length := by
    unfold align8
    omega
  unfold roundHead
  rw [mod_of_lt_two_mul (a := head + size) (by omega)]
  split
  · rw [hround]
    split
    · rw [mod_of_lt_two_mul (by omega), if_neg (by omega)]
    · rw [Nat.mod_eq_of_lt (by omega)]
  · have hround' : align8 (head + size - length) = head + align8 size - length := by
      unfold align8 at hround ⊢
      omega
    rw [hround', if_neg (by omega), mod_of_lt_two_mul (by omega), if_neg (by omega)]

variable {g : Link}

theorem Fits.reserve (hsize : 0 < size) (htail : g.txTail < g.s.txLength)
    (hhead : g.s.txHead < g.s.txLength) (h : Fits g size) :
    Ring.used g.s.txLength g.txTail g.s.txHead + size + 16 ≤ g.s.txLength := by
  obtain ⟨avail, hav, hle⟩ := h
  unfold Link.txAvail at hav
  unfold Ring.used
  rw [dist_eq htail hhead]
  split at hav
  · cases hav
  · dsimp only [txReserve] at hav
    split at hav <;> split at hav <;> cases hav <;> split <;> omega

/-! ## The transmit FIFO -/

/-- Our head and the remote's tail, with the reserve kept since the first frame. -/
structure TxInv (tx : ℕ) (g : Link) : Prop where
  length : g.s.txLength = tx
  published : g.txHead = g.s.txHead
  headOk : indexOk g.s.txHead tx = true
  tailOk : indexOk g.txTail tx = true
  untrampled : g.trampled = false
  reserve : g.s.state ≠ .released → sentFrames g.trace ≠ [] →
    Ring.used tx g.txTail g.txHead + 16 ≤ tx

variable {tx : ℕ}

theorem used_lawful_le {tail head tail' : ℕ} (ht : tail < tx) (ht' : tail' < tx) (hh : head < tx)
    (h : Ring.dist tx tail tail' ≤ Ring.used tx tail head) :
    Ring.used tx tail' head = Ring.used tx tail head - Ring.dist tx tail tail' := by
  have hmove := dist_base_add ht hh h
  rwa [add_dist_mod ht ht'] at hmove

theorem TxInv.turn (h : TxInv tx g) {t : Turn} (rest : List Turn)
    (hlawful : g.lawfulTail t = true) :
    TxInv tx (g.turn t rest) := by
  simp only [Link.lawfulTail, Bool.and_eq_true, decide_eq_true_eq, h.length] at hlawful
  refine ⟨h.length, h.published, h.headOk, hlawful.1, h.untrampled, ?_⟩
  intro hs hsent
  have hold := h.reserve hs hsent
  have hhead : g.txHead < tx := h.published ▸ (indexOk_iff.mp h.headOk).1
  have hle := used_lawful_le (indexOk_iff.mp h.tailOk).1 (indexOk_iff.mp hlawful.1).1
    hhead hlawful.2
  show Ring.used tx t.txTail g.txHead + 16 ≤ tx
  omega

theorem publish_txHead (hlt : g.s.txHead < g.s.txLength) (hdr data : List UInt8) :
    (g.publish hdr data).s.txHead =
      roundHead g.s.txLength ((g.s.txHead + (hdr ++ data).length) % g.s.txLength) := by
  show roundHead g.s.txLength (Ring.copyIn g.s.txLength _ _ data).2 = _
  rw [← copyIn_append, copyIn_snd _ hlt]

theorem publish_tx (g : Link) (hdr data : List UInt8) :
    (g.publish hdr data).tx = (Ring.copyIn g.s.txLength g.tx g.s.txHead (hdr ++ data)).1 := by
  rw [copyIn_append]
  rfl

theorem tramples_eq_false (ht : g.txTail < g.s.txLength) (hh : g.s.txHead < g.s.txLength)
    (hfree : Ring.used g.s.txLength g.txTail g.s.txHead + size ≤ g.s.txLength) :
    g.tramples size = false := by
  apply any_eq_false.mpr
  intro i hi
  have hi := mem_range.mp hi
  rw [decide_eq_true_eq, dist_add ht hh]
  · simp [Ring.used]
  · unfold Ring.used at hfree
    omega

variable {data : List UInt8} {hdr : List UInt8}

theorem published_head (hlength : g.s.txLength % 8 = 0)
    (hhead : indexOk g.s.txHead g.s.txLength = true) (htail : indexOk g.txTail g.s.txLength = true)
    (hfree : Ring.used g.s.txLength g.txTail g.s.txHead +
    (hdr ++ data).length + 16 ≤ g.s.txLength) :
    indexOk (g.publish hdr data).s.txHead g.s.txLength = true ∧
      Ring.used g.s.txLength g.txTail (g.publish hdr data).s.txHead =
        Ring.used g.s.txLength g.txTail g.s.txHead + align8 (hdr ++ data).length ∧
      Ring.used g.s.txLength g.txTail g.s.txHead + align8 (hdr ++ data).length + 16 ≤
        g.s.txLength := by
  obtain ⟨hh, hh8⟩ := indexOk_iff.mp hhead
  obtain ⟨ht, ht8⟩ := indexOk_iff.mp htail
  have hused : Ring.used g.s.txLength g.txTail g.s.txHead % 8 = 0 :=
    Nat.mod_eq_zero_of_dvd (dist_dvd (Nat.dvd_of_mod_eq_zero hlength)
      (Nat.dvd_of_mod_eq_zero ht8) (Nat.dvd_of_mod_eq_zero hh8))
  have hroom : Ring.used g.s.txLength g.txTail g.s.txHead + align8 (hdr ++ data).length + 16 ≤
      g.s.txLength := by
    unfold align8
    omega
  have hnew : (g.publish hdr data).s.txHead =
      (g.s.txHead + align8 (hdr ++ data).length) % g.s.txLength := by
    rw [publish_txHead hh, roundHead_eq hlength hh8 hh (by omega)]
  refine ⟨?_, ?_, hroom⟩
  · rw [hnew, indexOk_iff]
    refine ⟨Nat.mod_lt _ (by omega), ?_⟩
    rw [Nat.mod_mod_of_dvd _ (Nat.dvd_of_mod_eq_zero hlength), Nat.add_mod, hh8, align8_mod]
  · rw [hnew]
    exact dist_add ht hh (by unfold Ring.used at hroom; omega)

theorem Allowed.length_pos (h : Allowed g hdr data) : 0 < (hdr ++ data).length := by
  cases h with
  | «open» c =>
    obtain ⟨n, rest, heq⟩ := openFrame_eq (g.s.ch c)
    simp [heq]
  | _ => simp [dataHeader]

theorem TxInv.publish (hok : fifoLengthOk tx = true) (h : TxInv tx g)
    (hfits : Fits g (hdr ++ data).length) (hallowed : Allowed g hdr data) :
    TxInv tx (g.publish hdr data) := by
  obtain ⟨rfl, hpub, hhead, htail, huntrampled, _⟩ := h
  have hfree := hfits.reserve hallowed.length_pos (indexOk_iff.mp htail).1 (indexOk_iff.mp hhead).1
  obtain ⟨hhead', hused, hroom⟩ := published_head (fifoLengthOk_iff.mp hok).2.1 hhead htail hfree
  refine ⟨rfl, rfl, hhead', htail, ?_, ?_⟩
  · show (g.trampled || g.tramples (hdr ++ data).length) = false
    rw [huntrampled, tramples_eq_false (indexOk_iff.mp htail).1 (indexOk_iff.mp hhead).1 (by omega)]
    rfl
  · intro _ _
    exact hused ▸ hroom

variable {g' : Link}

theorem TxInv.same (h : TxInv tx g) (hsame : SameFifo g g')
    (htrace : QuietlyLonger g.trace g'.trace) : TxInv tx g' where
  length := hsame.txLength.trans h.length
  published := by rw [hsame.txHead, hsame.ourHead, h.published]
  headOk := by rw [hsame.ourHead, h.headOk]
  tailOk := by rw [hsame.txTail, h.tailOk]
  untrampled := by rw [hsame.trampled, h.untrampled]
  reserve hs hsent := by
    rw [htrace.sentFrames] at hsent
    rw [hsame.txTail, hsame.txHead]
    exact h.reserve (hsame.state hs) hsent

/-! ## The receive FIFO -/

/-- The bytes between our tail and the remote's head. -/
def Link.pending (g : Link) : List UInt8 :=
  Ring.copyOut g.s.rxLength g.rx g.s.rxTail (Ring.used g.s.rxLength g.s.rxTail g.rxHead)

/-- The frame being handled is the first of the bytes that wait; it counts as dispatched
and is still there. -/
def Link.handling (g : Link) : List UInt8 := g.pending.take (g.current.getD 0)

/-- All that arrived was dispatched or still waits. -/
structure RxInv (rx : ℕ) (g : Link) : Prop where
  length : g.s.rxLength = rx
  published : g.rxTail = g.s.rxTail
  tailOk : indexOk g.s.rxTail rx = true
  headOk : indexOk g.rxHead rx = true
  whole : ∀ frame ∈ dispatchedFrames g.trace, frameSpan frame = some frame.length
  inOrder : (dispatchedFrames g.trace).flatten <+: g.arrived
  waits : g.s.state ≠ .released → ∃ done, g.arrived = done ++ g.pending ∧
    (dispatchedFrames g.trace).flatten = done ++ g.handling
  current : g.s.state ≠ .released → ∀ n, g.current = some n → n % 8 = 0 ∧ n ≤ g.pending.length

theorem pending_length (g : Link) : g.pending.length = Ring.used g.s.rxLength g.s.rxTail g.rxHead :=
  copyOut_length _ _ _ _

theorem rxAfter_eq {t : Turn} {a : ℕ} (h : ∀ w ∈ t.rx, w.1 ≠ a) : g.rxAfter t a = g.rx a := by
  unfold Link.rxAfter
  generalize g.rx = m
  generalize t.rx = writes at h
  induction writes generalizing m with
  | nil => rfl
  | cons w ws ih =>
    rw [foldl_cons, ih _ fun w' hw' => h w' (mem_cons_of_mem w hw')]
    exact Function.update_of_ne (Ne.symm (h w mem_cons_self)) _ _

theorem pending_turn {t : Turn} (rest : List Turn) (heq : g.rxTail = g.s.rxTail)
    (htail : g.s.rxTail < g.s.rxLength) (hhead : g.rxHead < g.s.rxLength)
    (hlawful : g.lawfulHead t = true) : (g.turn t rest).pending = g.pending ++
      Ring.copyOut g.s.rxLength (g.rxAfter t) g.rxHead
        (Ring.dist g.s.rxLength g.rxHead t.rxHead) := by
  simp only [lawfulHead, Bool.and_eq_true, decide_eq_true_eq, all_eq_true, heq] at hlawful
  obtain ⟨⟨hok, hle⟩, hwrites⟩ := hlawful
  have hhead' := (indexOk_iff.mp hok).1
  have hadd : Ring.used g.s.rxLength g.s.rxTail t.rxHead =
      Ring.used g.s.rxLength g.s.rxTail g.rxHead + Ring.dist g.s.rxLength g.rxHead t.rxHead := by
    have hmove := dist_base_add htail hhead' hle
    unfold Ring.used at hmove hle ⊢
    rw [add_dist_mod htail hhead] at hmove
    omega
  have hold : Ring.copyOut g.s.rxLength (g.rxAfter t) g.s.rxTail
      (Ring.used g.s.rxLength g.s.rxTail g.rxHead) = g.pending := by
    apply copyOut_congr _ _ htail _ (le_of_lt (used_lt htail))
    intro a _ hd
    apply rxAfter_eq
    rintro w hw rfl
    exact absurd (hwrites w hw).2 (by omega)
  show Ring.copyOut g.s.rxLength (g.rxAfter t) g.s.rxTail
    (Ring.used g.s.rxLength g.s.rxTail t.rxHead) = _
  rw [hadd, copyOut_add _ htail, hold]
  unfold Ring.used
  rw [add_dist_mod htail hhead]

variable {rx : ℕ}

theorem RxInv.turn (h : RxInv rx g) {t : Turn} (rest : List Turn)
    (hlawful : g.lawfulHead t = true) :
    RxInv rx (g.turn t rest) := by
  have htail := (indexOk_iff.mp h.tailOk).1
  have hhead := (indexOk_iff.mp h.headOk).1
  rw [← h.length] at htail hhead
  have hpending := pending_turn rest h.published htail hhead hlawful
  have hok : indexOk t.rxHead rx = true := by
    simp only [lawfulHead, Bool.and_eq_true, h.length] at hlawful
    exact hlawful.1.1
  refine ⟨h.length, h.published, h.tailOk, hok, h.whole, ?_, ?_, ?_⟩
  · exact h.inOrder.trans (prefix_append _ _)
  · intro hs
    obtain ⟨done, harrived, hframes⟩ := h.waits hs
    refine ⟨done, ?_, ?_⟩
    · rw [hpending, ← append_assoc, ← harrived]
      rfl
    · show (dispatchedFrames g.trace).flatten = done ++ (g.turn t rest).pending.take _
      rw [hframes, hpending]
      cases hcurrent : g.current with
      | none => simp [handling, Link.turn, hcurrent]
      | some n =>
        have hn := (h.current hs n hcurrent).2
        simp only [handling, Link.turn, hcurrent, Option.getD_some]
        rw [take_append_of_le_length hn]
  · intro hs n hn
    obtain ⟨hmod, hle⟩ := h.current hs n hn
    rw [hpending, length_append]
    exact ⟨hmod, by omega⟩

variable {n : ℕ}

theorem rxPeek_eq_take (htail : g.s.rxTail < g.s.rxLength) (hn : n ≤ g.pending.length) :
    g.rxPeek 0 n = g.pending.take n := by
  rw [pending_length] at hn
  rw [pending, copyOut_take _ htail hn, Link.rxPeek, Nat.add_zero, Nat.mod_eq_of_lt htail]

theorem frameSpan_rxPeek {avail : ℕ}
    (hw : frameLength g.s.rxLength (g.rxHeader avail) avail = .whole n) :
    frameSpan (g.rxPeek 0 n) = some n := by
  obtain ⟨hspan, _, _, h16⟩ := frameLength_whole hw
  have hframe := frameAt_rxHeader hw
  rw [← hspan]
  apply Eq.symm
  apply frameSpan_congr hframe.cmd hframe.p2
  intro hd
  have hheader : g.rxHeader avail = g.rxPeek 0 16 := by
    simp [Link.rxHeader, Nat.not_lt.mpr (h16 hd)]
  rw [isData_congr hframe.cmd] at hd
  rw [hheader]
  exact (hframe.data hd).1

theorem RxInv.take (h : RxInv rx g) (hs : g.s.state = .started) (hnone : g.current = none)
    (hframed : Framed g n) (hruly : g.rxUnruly = false) : RxInv rx (g.take n) := by
  have htail : g.s.rxTail < g.s.rxLength := by
    rw [h.length]
    exact (indexOk_iff.mp h.tailOk).1
  have hlive : g.s.state ≠ .released := by simp [hs]
  obtain ⟨avail, _, hw, hpeek⟩ := hframed
  have hspan := frameSpan_rxPeek hw
  have hn : n ≤ g.pending.length := by
    rw [pending_length, ← h.published]
    exact (frameLength_whole hw).2.2.1.trans (hpeek hruly h.published htail)
  obtain ⟨done, harrived, hframes⟩ := h.waits hlive
  have hnew : dispatchedFrames (g.take n).trace = dispatchedFrames g.trace ++ [g.rxPeek 0 n] :=
    filterMap_append
  have hdone : (dispatchedFrames (g.take n).trace).flatten = done ++ g.pending.take n := by
    rw [hnew, flatten_append, hframes, rxPeek_eq_take htail hn]
    simp [handling, hnone]
  refine ⟨h.length, h.published, h.tailOk, h.headOk, ?_, ?_, ?_, ?_⟩
  · intro frame hmem
    rw [hnew, mem_append, mem_singleton] at hmem
    rcases hmem with hmem | rfl
    · exact h.whole frame hmem
    · rw [hspan, rxPeek_length]
  · rw [hdone]
    show _ <+: g.arrived
    rw [harrived]
    exact (prefix_append_right_inj done).mpr <| take_prefix n g.pending
  · intro _
    exact ⟨done, harrived, hdone⟩
  · rintro _ m ⟨⟩
    exact ⟨frameSpan_mod hspan, hn⟩

theorem spent_rxTail (htail : g.s.rxTail < g.s.rxLength) (hn : n < g.s.rxLength) :
    (g.spent n).s.rxTail = (g.s.rxTail + n) % g.s.rxLength := by
  rw [mod_of_lt_two_mul (by omega)]
  simp only [spent, rxAdvance]
  split <;> split <;> omega

theorem pending_spent (htail : g.s.rxTail < g.s.rxLength) (hhead : g.rxHead < g.s.rxLength)
    (hn : n ≤ g.pending.length) : (g.spent n).pending = g.pending.drop n := by
  have hn' := hn
  rw [pending_length] at hn'
  have hlt : Ring.used _ _ g.rxHead < _ := used_lt htail
  rw [pending, pending, copyOut_drop _ htail hn', spent_rxTail htail (by omega)]
  show Ring.copyOut g.s.rxLength g.rx _ (Ring.used g.s.rxLength _ g.rxHead) = _
  unfold Ring.used at hn' ⊢
  rw [dist_base_add htail hhead hn']

theorem RxInv.spent (hok : fifoLengthOk rx = true) (h : RxInv rx g) (hs : g.s.state = .started)
    (hcurrent : g.current = some n) : RxInv rx (g.spent n) := by
  have hlive : g.s.state ≠ .released := by simp [hs]
  obtain ⟨rfl, hpub, htailOk, hheadOk, hwhole, hinOrder, hwaits, hcur⟩ := h
  obtain ⟨htail, htail8⟩ := indexOk_iff.mp htailOk
  obtain ⟨hhead, _⟩ := indexOk_iff.mp hheadOk
  obtain ⟨hn8, hn⟩ := hcur hlive n hcurrent
  have hlt : n < g.s.rxLength := by
    rw [pending_length] at hn
    exact lt_of_le_of_lt hn (used_lt htail)
  have hpending := pending_spent htail hhead hn
  obtain ⟨done, harrived, hframes⟩ := hwaits hlive
  refine ⟨rfl, rfl, ?_, hheadOk, hwhole, hinOrder, ?_, nofun⟩
  · rw [spent_rxTail htail hlt, indexOk_iff]
    refine ⟨Nat.mod_lt _ (by omega), ?_⟩
    rw [Nat.mod_mod_of_dvd _ (Nat.dvd_of_mod_eq_zero (fifoLengthOk_iff.mp hok).2.1)]
    omega
  · intro _
    refine ⟨done ++ g.pending.take n, ?_, ?_⟩
    · rw [hpending, append_assoc, take_append_drop]
      exact harrived
    · show (dispatchedFrames g.trace).flatten = _
      rw [hframes]
      simp [handling, hcurrent, spent, rxAdvance]

theorem RxInv.same (h : RxInv rx g) (hsame : SameFifo g g')
    (htrace : QuietlyLonger g.trace g'.trace) : RxInv rx g' := by
  have hpending : g'.pending = g.pending := by
    unfold pending
    rw [hsame.rxLength, hsame.rx, hsame.ourTail, hsame.rxHead]
  refine ⟨hsame.rxLength.trans h.length, ?_, ?_, ?_, ?_, ?_, ?_, ?_⟩
  · rw [hsame.rxTail, hsame.ourTail, h.published]
  · rw [hsame.ourTail, h.tailOk]
  · rw [hsame.rxHead, h.headOk]
  · rw [htrace.dispatchedFrames]
    exact h.whole
  · rw [htrace.dispatchedFrames, hsame.arrived]
    exact h.inOrder
  · intro hs
    rw [htrace.dispatchedFrames, hsame.arrived, hpending]
    unfold handling
    rw [hpending, hsame.current]
    exact h.waits (hsame.state hs)
  · intro hs
    rw [hsame.current, hpending]
    exact h.current (hsame.state hs)

/-! ## Steps and runs -/

theorem indexOk_zero (h : fifoLengthOk size = true) : indexOk 0 size = true := by
  have := (fifoLengthOk_iff.mp h).1
  exact indexOk_iff.mpr ⟨by omega, rfl⟩

theorem Effect.ruly (h : Effect g g') :
    (g'.txUnruly = false → g.txUnruly = false) ∧ (g'.rxUnruly = false → g.rxUnruly = false) := by
  cases h with
  | turn t rest =>
    simp only [Link.turn, Bool.or_eq_false_iff]
    exact ⟨And.left, And.left⟩
  | quiet _ hsame => exact ⟨fun h => hsame.txUnruly ▸ h, fun h => hsame.rxUnruly ▸ h⟩
  | _ => exact ⟨fun h => h, fun h => h⟩

theorem TxInv.effect (hok : fifoLengthOk tx = true) (heffect : Effect g g') (h : TxInv tx g)
    (hruly : g'.txUnruly = false) : TxInv tx g' := by
  cases heffect with
  | turn t rest =>
    simp only [Link.turn, Bool.or_eq_false_iff, Bool.not_eq_false'] at hruly
    exact h.turn rest hruly.2
  | publish hdr data _ _ hfits hallowed => exact h.publish hok hfits hallowed
  | take n =>
    have hframes : sentFrames (g.take n).trace = sentFrames g.trace := by
      simp [Link.take, sentFrames, Event.sent?]
    exact { h with reserve := fun hs hsent => h.reserve hs (hframes ▸ hsent) }
  | spent n =>
    exact { h with }
  | finishRelease =>
    exact ⟨h.length, rfl, indexOk_zero hok, h.tailOk, h.untrampled, fun hs => absurd rfl hs⟩
  | quiet _ hsame htrace => exact h.same hsame htrace

theorem RxInv.effect (hok : fifoLengthOk rx = true) (heffect : Effect g g') (h : RxInv rx g)
    (hruly : g'.rxUnruly = false) : RxInv rx g' := by
  have hold := heffect.ruly.2 hruly
  cases heffect with
  | turn t rest =>
    simp only [Link.turn, Bool.or_eq_false_iff, Bool.not_eq_false'] at hruly
    exact h.turn rest hruly.2
  | publish hdr data =>
    have hframes : dispatchedFrames (g.publish hdr data).trace = dispatchedFrames g.trace := by
      simp [Link.publish, dispatchedFrames, Event.dispatched?]
    exact { h with
      whole := hframes ▸ h.whole
      inOrder := hframes ▸ h.inOrder
      waits := fun hs => hframes ▸ h.waits hs }
  | take n hstarted _ hnone hframed => exact h.take hstarted hnone hframed hold
  | spent n hstarted hcurrent => exact h.spent hok hstarted hcurrent
  | finishRelease =>
    have hframes := (quietlyLonger_finishRelease g).dispatchedFrames
    exact ⟨h.length, rfl, indexOk_zero hok, h.headOk, hframes.symm ▸ h.whole,
      hframes.symm ▸ h.inOrder, fun hs => absurd rfl hs, fun hs => absurd rfl hs⟩
  | quiet _ hsame htrace => exact h.same hsame htrace

structure FifoInv (tx rx : ℕ) (g : Link) : Prop where
  tx : TxInv tx g
  rx : RxInv rx g

/-- The remote has kept to the rules so far. -/
structure Ruly (g : Link) : Prop where
  tx : g.txUnruly = false
  rx : g.rxUnruly = false

theorem FifoInv.effect (hlen : Lengths tx rx) (heffect : Effect g g') (h : FifoInv tx rx g)
    (hruly : Ruly g') : FifoInv tx rx g' :=
  ⟨h.tx.effect hlen.tx heffect hruly.tx, h.rx.effect hlen.rx heffect hruly.rx⟩

theorem fifoInv_steps (hlen : Lengths tx rx) (hsteps : Steps g g') (h : Ruly g → FifoInv tx rx g)
    (hruly : Ruly g') : FifoInv tx rx g' := by
  apply steps_keep (I := fun a => Ruly a → FifoInv tx rx a) _ hsteps h hruly
  intro a b hstep ih hb
  have hruly := hstep.effect.ruly
  exact FifoInv.effect hlen hstep.effect (ih ⟨hruly.1 hb.tx, hruly.2 hb.rx⟩) hb

theorem Effect.lengths (h : Effect g g') :
    g'.s.txLength = g.s.txLength ∧ g'.s.rxLength = g.s.rxLength := by
  cases h with
  | quiet _ hsame => exact ⟨hsame.txLength, hsame.rxLength⟩
  | _ => exact ⟨rfl, rfl⟩

theorem steps_lengths (h : Steps g g') :
    g'.s.txLength = g.s.txLength ∧ g'.s.rxLength = g.s.rxLength := by
  apply steps_keep (I := fun a => a.s.txLength = g.s.txLength ∧ a.s.rxLength = g.s.rxLength) _ h
    ⟨rfl, rfl⟩
  intro a b hstep ⟨htx, hrx⟩
  obtain ⟨htx', hrx'⟩ := hstep.effect.lengths
  exact ⟨htx'.trans htx, hrx'.trans hrx⟩

theorem fifoInv_restart {name : List UInt8} {lcid : ℕ} {mode : RestartMode} {g₀ a : Link}
    {words : List ℕ} (hr : Restarted name lcid mode g₀ a words)
    (hlen : Lengths a.s.txLength a.s.rxLength) (hruly : Ruly (a.restart name lcid mode words)) :
    FifoInv a.s.txLength a.s.rxLength (a.restart name lcid mode words) := by
  obtain ⟨htx, hrx⟩ := hruly
  simp only [Link.restart, Bool.not_eq_false'] at htx hrx
  refine ⟨⟨rfl, rfl, ?_, htx, rfl, fun _ hsent => absurd rfl hsent⟩,
    ⟨rfl, rfl, ?_, hrx, nofun, nil_prefix, ?_, nofun⟩⟩
  · simp only [Link.restart]
    split
    · exact hr.txTail
    · exact indexOk_zero hlen.tx
  · simp only [Link.restart]
    split
    · exact indexOk_zero hlen.rx
    · exact hr.rxHead
  · exact fun _ => ⟨[], rfl, rfl⟩

/-- What the indices and the frames received satisfy. -/
structure FifoKept (g : Link) : Prop where
  head : g.txHead = g.s.txHead ∧ indexOk g.txHead g.s.txLength = true
  tail : g.rxTail = g.s.rxTail ∧ indexOk g.rxTail g.s.rxLength = true
  reserve : g.s.state ≠ .released → sentFrames g.trace ≠ [] →
    Ring.used g.s.txLength g.txTail g.txHead + 16 ≤ g.s.txLength
  untrampled : g.trampled = false
  /-- our tail has passed nothing but frames dispatched, and those had arrived -/
  behind : g.s.state ≠ .released → ∃ done, g.arrived = done ++ g.pending ∧
    done <+: (dispatchedFrames g.trace).flatten
  whole : ∀ frame ∈ dispatchedFrames g.trace, frameSpan frame = some frame.length
  inOrder : (dispatchedFrames g.trace).flatten <+: g.arrived

theorem FifoInv.kept (h : FifoInv tx rx g) : FifoKept g := by
  obtain ⟨⟨rfl, hhead, hheadOk, _, huntrampled, hreserve⟩,
    ⟨rfl, htail, htailOk, _, hwhole, hinOrder, hwaits, _⟩⟩ := h
  refine ⟨⟨hhead, hhead ▸ hheadOk⟩, ⟨htail, htail ▸ htailOk⟩, hreserve, huntrampled, ?_, hwhole,
    hinOrder⟩
  intro hs
  obtain ⟨done, harrived, hframes⟩ := hwaits hs
  exact ⟨done, harrived, hframes ▸ prefix_append _ _⟩

/-- The FIFO indices over every run after a restart, with a remote that keeps to the
rules. A run that ends with the session alive has dispatched all that our tail passed. -/
theorem restart_fifoKept (name : List UInt8) (lcid : ℕ) (mode : RestartMode) (g₀ g : Link)
    (htx : fifoLengthOk g₀.s.txLength = true) (hrx : fifoLengthOk g₀.s.rxLength = true)
    (hrestart : restart name lcid mode g₀ = (some .ok, g)) (ops : List Op)
    (hruly : Ruly (runOps ops g).2) :
    FifoKept (runOps ops g).2 ∧ ((runOps ops g).1 = some () → (runOps ops g).2.s.state = .started →
        (runOps ops g).2.arrived =
          (dispatchedFrames (runOps ops g).2.trace).flatten ++ (runOps ops g).2.pending) := by
  obtain ⟨a, words, hr, hsteps⟩ := session_steps hrestart ops
  obtain ⟨htx', hrx'⟩ := steps_lengths hr.sampled
  have hlen : Lengths a.s.txLength a.s.rxLength := ⟨htx'.symm ▸ htx, hrx'.symm ▸ hrx⟩
  have hinv := fifoInv_steps hlen hsteps (fifoInv_restart hr hlen) hruly
  refine ⟨hinv.kept, fun hend hstarted => ?_⟩
  obtain ⟨done, harrived, hframes⟩ := hinv.rx.waits (by simp [hstarted])
  rw [harrived, hframes]
  simp [Link.handling, session_idle hrestart hend hstarted]

/-- The remote opens channel `"a"` over FIFOs of 64 bytes and reads what we send in three
lots, so that our frames wrap. -/
def wrappingLink : Link :=
  let script := openA 7 ++ header .openAck 5 0 ++ (header .intent 7 1 ++ put32 40 ++ put32 9)
  freshLink 64
    (later 8 script.length (bytesFrom 0 script) :: List.replicate 10 (later 8 script.length []) ++
      List.replicate 16 (later 32 script.length []) ++
      List.replicate 20 (later 16 script.length []))

theorem restart_fifoKept_wrapping :
    Ruly (runOps [.poll, .drive chClient] (restart [0x61] 5 .linux wrappingLink).2).2 ∧
      FifoKept (runOps [.poll, .drive chClient] (restart [0x61] 5 .linux wrappingLink).2).2 :=
  have hruly : Ruly (runOps [.poll, .drive chClient] (restart [0x61] 5 .linux wrappingLink).2).2 :=
    ⟨by decide +kernel, by decide +kernel⟩
  ⟨hruly, (restart_fifoKept [0x61] 5 .linux wrappingLink _ rfl rfl
    restart_returned [.poll, .drive chClient] hruly).1⟩

end Q1n1.Glink
