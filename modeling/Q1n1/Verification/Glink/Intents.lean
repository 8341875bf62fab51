import Q1n1.Verification.Glink.Close

/-! # Every data frame spends a live intent

The ledger is what the remote may conclude from the frames that crossed: which intents
it has offered on the current opening of a channel, and which of them are spent. -/

namespace Q1n1.Glink

open Cut History Bytes List Function Channel

/-! ## The ledger -/

structure Offer where
  size : ℕ
  spent : Bool

abbrev Offers := ℕ → Option Offer

def Offers.empty : Offers := fun _ => none

def Offers.offer (o : Offers) (id size : ℕ) : Offers :=
  Function.update o id (some ⟨size, false⟩)

def Offers.mark (o : Offers) (id : ℕ) (spent : Bool) : Offers :=
  Function.update o id ((o id).map fun offer => { offer with spent := spent })

def spentOn (frame : List UInt8) (ch : Channels) : Option ChannelIx :=
  if headerCmd frame = Command.txData.code then byLcid ch (headerP1 frame) else none

def ledgerStep (c : ChannelIx) (o : Offers) : Event → Offers
  | .opening c' | .closing c' => if c' = c then .empty else o
  | .offered c' id size => if c' = c then o.offer id size else o
  | .returned c' id => if c' = c then o.mark id false else o
  | .sent frame ch => if spentOn frame ch = some c then o.mark (headerP2 frame) true else o
  | _ => o

def ledger (c : ChannelIx) (trace : List Event) : Offers :=
  trace.foldl (ledgerStep c) .empty

/-- A data frame is published on a ready channel, under an intent of the current opening
that holds its payload and is not spent. -/
def SpendsLive (before : List Event) : Event → Prop
  | .sent frame ch =>
    headerCmd frame = Command.txData.code → ((byLcid ch (headerP1 frame)).any fun c =>
        (ch c).ready && (ledger c before (headerP2 frame)).any fun offer =>
          decide (frame.length - 16 ≤ offer.size) && !offer.spent) = true
  | _ => True

/-- The frame takes the intent chosen for `w` away: its channel is opened or closed, or
the intent is offered or returned once more. -/
def disturbs (ch : Channels) (w : Sending) (frame : List UInt8) : Bool :=
  (decide (headerCmd frame = Command.open.code) &&
    decide (openMatch ch (headerP2 frame % 65536) (openName frame) = some w.c)) ||
  (decide (headerCmd frame = Command.close.code) &&
    decide (byRcid ch (headerP1 frame) = some w.c)) ||
  (decide (headerCmd frame = Command.intent.code) &&
    decide (byRcid ch (headerP1 frame) = some w.c) &&
    (List.range (headerP2 frame)).any fun n => decide (intentId frame n = w.id)) ||
  (decide (headerCmd frame = Command.rxDoneWReuse.code) &&
    decide (byRcid ch (headerP1 frame) = some w.c) && decide (headerP2 frame = w.id))

/-- No frame handled while a message waits for room takes its intent away. -/
def Undisturbed : Event → Prop
  | .dispatched frame ch (some w) => disturbs ch w frame = false
  | _ => True

def LiveIntents (trace : List Event) : Prop := Every SpendsLive trace

def NoDisturbance (trace : List Event) : Prop := ∀ e ∈ trace, Undisturbed e

instance (before : List Event) : DecidablePred (SpendsLive before)
  | .sent frame _ =>
    inferInstanceAs (Decidable (headerCmd frame = Command.txData.code → _ = true))
  | .dispatched .. | .opening _ | .closing _ | .offered .. | .returned .. | .kept .. | .refused ..
  | .cleared .. | .delivered .. => isTrue trivial

instance : DecidablePred Undisturbed
  | .dispatched frame ch (some w) => inferInstanceAs (Decidable (disturbs ch w frame = false))
  | .dispatched _ _ none | .sent .. | .opening _ | .closing _ | .offered .. | .returned ..
  | .kept .. | .refused .. | .cleared .. | .delivered .. => isTrue trivial

instance (trace : List Event) : Decidable (LiveIntents trace) :=
  inferInstanceAs (Decidable (Every SpendsLive trace))

instance (trace : List Event) : Decidable (NoDisturbance trace) :=
  inferInstanceAs (Decidable (∀ e ∈ trace, Undisturbed e))

variable (c : ChannelIx)

theorem ledger_concat (trace : List Event) (e : Event) :
    ledger c (trace ++ [e]) = ledgerStep c (ledger c trace) e := by
  simp [ledger]

/-! ## The slots of one channel -/

variable {ch : Channel} {id : ℕ} {slot : Fin 8}

theorem offerSlot_some (h : offerSlot ch id = some slot) :
    ((ch.remoteIntent slot).valid = true ∧ (ch.remoteIntent slot).id = id) ∨
      ∀ i, (ch.remoteIntent i).valid = true → (ch.remoteIntent i).id ≠ id := by
  unfold offerSlot at h
  split at h
  · rename_i i hfind
    cases h
    left
    simpa using List.find?_some hfind
  · rename_i hfind
    right
    intro i hvalid hid
    have := List.find?_eq_none.mp hfind i (by simp)
    simp [hvalid, hid] at this

theorem offerSlot_none (h : offerSlot ch id = none) (i : Fin 8)
    (hvalid : (ch.remoteIntent i).valid = true) : (ch.remoteIntent i).id ≠ id := by
  unfold offerSlot at h
  split at h
  · cases h
  · rename_i hfind
    intro hid
    have := List.find?_eq_none.mp hfind i (by simp)
    simp [hvalid, hid] at this

theorem remoteSlot_some (h : remoteSlot ch id = some slot) :
    (ch.remoteIntent slot).valid = true ∧ (ch.remoteIntent slot).id = id := by
  simpa using List.find?_some h

/-- An intent that can carry `length` bytes. -/
def Usable (ch : Channel) (length : ℕ) (i : Fin 8) : Prop :=
  (ch.remoteIntent i).valid = true ∧ (ch.remoteIntent i).used = false ∧
    length ≤ (ch.remoteIntent i).size

variable {i : Fin 8}

theorem usable_of_better {length : ℕ} {best : Option (Fin 8)}
    (h : betterIntent ch length best i = true) : Usable ch length i := by
  simp only [betterIntent, Bool.and_eq_true, Bool.not_eq_true', decide_eq_true_eq] at h
  exact ⟨h.1.1.1, h.1.1.2, h.1.2⟩

theorem chooseIntent_usable {length : ℕ} (h : chooseIntent ch length = some slot) :
    Usable ch length slot := by
  have hfold : ∀ (l : List (Fin 8)) (best : Option (Fin 8)),
      (∀ i, best = some i → Usable ch length i) → ∀ i,
      l.foldl (fun best i => if betterIntent ch length best i then some i else best) best = some i →
        Usable ch length i := by
    intro l
    induction l with
    | nil => exact fun _ hbest => hbest
    | cons j l ih =>
      intro best hbest
      apply ih
      intro i hi
      dsimp only at hi
      split at hi
      · cases hi
        exact usable_of_better ‹_›
      · exact hbest i hi
  exact hfold _ none nofun slot h

/-- The channel's record of the remote's intents agrees with the ledger. -/
structure Booked (ch : Channel) (o : Offers) : Prop where
  closed : ch.remoteOpened = false → ∀ i, (ch.remoteIntent i).valid = false
  unique : ∀ i j, (ch.remoteIntent i).valid = true → (ch.remoteIntent j).valid = true →
    (ch.remoteIntent i).id = (ch.remoteIntent j).id → i = j
  small : ∀ i, (ch.remoteIntent i).valid = true → (ch.remoteIntent i).id < 2 ^ 32
  offered : ∀ i, (ch.remoteIntent i).valid = true → ∃ spent,
    o (ch.remoteIntent i).id = some ⟨(ch.remoteIntent i).size, spent⟩ ∧
      (spent = true → (ch.remoteIntent i).used = true)

/-- The message that waits for room still has its intent. -/
structure Carried (w : Sending) (ch : Channel) (o : Offers) : Prop where
  ready : ch.ready = true
  small : w.id < 2 ^ 32
  offered : ∃ size, o w.id = some ⟨size, false⟩ ∧ w.length ≤ size
  used : ∀ i, (ch.remoteIntent i).valid = true → (ch.remoteIntent i).id = w.id →
    (ch.remoteIntent i).used = true
  unspent : (ch.remoteIntent w.slot).valid = true →
    ∃ size, o (ch.remoteIntent w.slot).id = some ⟨size, false⟩

theorem booked_of_invalid (o : Offers) (h : ∀ i, (ch.remoteIntent i).valid = false) :
    Booked ch o where
  closed _ := h
  unique i j hi := by simp [h i] at hi
  small i hi := by simp [h i] at hi
  offered i hi := by simp [h i] at hi

variable {o : Offers}

/-- A slot that is still valid holds the intent it held, and is free only if it was or if its
intent is not spent. -/
theorem Booked.of_slots {ch' : Channel} (h : Booked ch o)
    (hopen : ch'.remoteOpened = ch.remoteOpened)
    (hslot : ∀ i, (ch'.remoteIntent i).valid = true → (ch.remoteIntent i).valid = true ∧
      (ch'.remoteIntent i).id = (ch.remoteIntent i).id ∧
      (ch'.remoteIntent i).size = (ch.remoteIntent i).size ∧
      ((ch.remoteIntent i).used = true → (ch'.remoteIntent i).used = true ∨
        ∃ size, o (ch.remoteIntent i).id = some ⟨size, false⟩)) : Booked ch' o where
  closed hc i := by
    have hold := h.closed (hopen ▸ hc) i
    grind
  unique i j hi hj heq := by
    obtain ⟨hvi, hidi, -⟩ := hslot i hi
    obtain ⟨hvj, hidj, -⟩ := hslot j hj
    exact h.unique i j hvi hvj (hidi ▸ hidj ▸ heq)
  small i hi := by
    obtain ⟨hv, hid, -⟩ := hslot i hi
    exact hid ▸ h.small i hv
  offered i hi := by
    obtain ⟨hv, hid, hsize, hused⟩ := hslot i hi
    have hold := h.offered i hv
    grind

theorem Booked.congr {ch' : Channel} (h : Booked ch o) (hopen : ch'.remoteOpened = ch.remoteOpened)
    (hintent : ch'.remoteIntent = ch.remoteIntent) : Booked ch' o :=
  h.of_slots hopen (by simp +contextual [hintent])

variable {w : Sending}

theorem Carried.congr {ch' : Channel} (h : Carried w ch o)
    (hready : ch.ready = true → ch'.ready = true) (hintent : ch'.remoteIntent = ch.remoteIntent) :
    Carried w ch' o := by
  obtain ⟨h1, h2, h3, h4, h5⟩ := h
  refine ⟨hready h1, h2, h3, ?_, ?_⟩
  all_goals
    rw [hintent]
    assumption

/-! ## One offer, return or message -/

variable {size : ℕ}

theorem offered_eq_of_some (h : offerSlot ch id = some slot) :
    ch.offered id size = ch.offer slot id size := by
  simp [offered, h]

theorem Booked.offerSlot_unique (h : Booked ch o) (hslot : offerSlot ch id = some slot)
    (hi : i ≠ slot) (hvalid : (ch.remoteIntent i).valid = true) : (ch.remoteIntent i).id ≠ id := by
  rcases offerSlot_some hslot with ⟨hv, hid⟩ | hnone
  · intro heq
    exact hi (h.unique i slot hvalid hv (heq.trans hid.symm))
  · exact hnone i hvalid

theorem offer_self (size : ℕ) :
    ((ch.offer slot id size).remoteIntent slot) = ⟨id, size, false, true⟩ := by
  simp [offer]

theorem offer_other (hi : i ≠ slot) :
    (ch.offer slot id size).remoteIntent i = ch.remoteIntent i := by
  simp [offer, update_of_ne hi]

theorem offered_eq_of_none (h : offerSlot ch id = none) : ch.offered id size = ch := by
  simp [offered, h]

theorem Booked.offer (h : Booked ch o) (hopen : ch.remoteOpened = true) (hid : id < 2 ^ 32) :
    Booked (ch.offered id size) (o.offer id size) := by
  cases hslot : offerSlot ch id with
  | none =>
    rw [offered_eq_of_none hslot]
    refine ⟨h.closed, h.unique, h.small, ?_⟩
    intro i hi
    rw [Offers.offer, update_of_ne (offerSlot_none hslot i hi)]
    exact h.offered i hi
  | some slot =>
    rw [offered_eq_of_some hslot]
    refine ⟨fun hc => ?_, ?_, ?_, ?_⟩
    · rw [show (ch.offer slot id size).remoteOpened = ch.remoteOpened from rfl, hopen] at hc
      cases hc
    · intro i j hi hj heq
      by_cases his : i = slot <;> by_cases hjs : j = slot
      · rw [his, hjs]
      · rw [his, offer_self, offer_other hjs] at heq
        rw [offer_other hjs] at hj
        exact absurd heq.symm (h.offerSlot_unique hslot hjs hj)
      · rw [hjs, offer_self, offer_other his] at heq
        rw [offer_other his] at hi
        exact absurd heq (h.offerSlot_unique hslot his hi)
      · rw [offer_other his] at hi heq
        rw [offer_other hjs] at hj heq
        exact h.unique i j hi hj heq
    · intro i hi
      by_cases his : i = slot
      · rw [his, offer_self]
        exact hid
      · rw [offer_other his] at hi ⊢
        exact h.small i hi
    · intro i hi
      by_cases his : i = slot
      · rw [his, offer_self]
        exact ⟨false, by simp [Offers.offer], by simp⟩
      · rw [offer_other his] at hi ⊢
        rw [Offers.offer, update_of_ne (h.offerSlot_unique hslot his hi)]
        exact h.offered i hi

theorem Carried.offer (h : Carried w ch o) (hb : Booked ch o) (hne : id ≠ w.id) :
    Carried w (ch.offered id size) (o.offer id size) := by
  have hw : (o.offer id size) w.id = o w.id := by
    rw [Offers.offer, update_of_ne (Ne.symm hne)]
  cases hslot : offerSlot ch id with
  | none =>
    rw [offered_eq_of_none hslot]
    refine ⟨h.ready, h.small, ?_, h.used, ?_⟩
    · rw [hw]
      exact h.offered
    · intro hv
      rw [Offers.offer, update_of_ne (offerSlot_none hslot _ hv)]
      exact h.unspent hv
  | some slot =>
    rw [offered_eq_of_some hslot]
    refine ⟨h.ready, h.small, ?_, ?_, ?_⟩
    · rw [hw]
      exact h.offered
    · intro i hi hid
      by_cases his : i = slot
      · rw [his, offer_self] at hid
        exact absurd hid hne
      · rw [offer_other his] at hi hid ⊢
        exact h.used i hi hid
    · intro hv
      by_cases his : w.slot = slot
      · rw [his, offer_self]
        exact ⟨size, by simp [Offers.offer]⟩
      · rw [offer_other his] at hv ⊢
        rw [Offers.offer, update_of_ne (hb.offerSlot_unique hslot his hv)]
        exact h.unspent hv

theorem Booked.unmark (h : Booked ch o) (id : ℕ) : Booked ch (o.mark id false) := by
  refine ⟨h.closed, h.unique, h.small, ?_⟩
  intro i hi
  obtain ⟨spent, ho, hused⟩ := h.offered i hi
  by_cases hid : (ch.remoteIntent i).id = id
  · subst hid
    exact ⟨false, by simp [Offers.mark, ho], by simp⟩
  · rw [Offers.mark, update_of_ne hid]
    exact ⟨spent, ho, hused⟩

theorem Offers.mark_unspent {id' : ℕ} (h : o id' = some ⟨size, false⟩) :
    (o.mark id false) id' = some ⟨size, false⟩ := by
  by_cases hid : id' = id
  · subst hid
    simp [Offers.mark, h]
  · rw [Offers.mark, update_of_ne hid, h]

theorem Carried.unmark (h : Carried w ch o) (id : ℕ) : Carried w ch (o.mark id false) := by
  obtain ⟨size, ho, hle⟩ := h.offered
  refine ⟨h.ready, h.small, ⟨size, Offers.mark_unspent ho, hle⟩, h.used, ?_⟩
  intro hv
  obtain ⟨size', ho'⟩ := h.unspent hv
  exact ⟨size', Offers.mark_unspent ho'⟩

theorem rxDone_other (reuse : Bool) (h : i ≠ slot) :
    (ch.rxDone slot reuse).remoteIntent i = ch.remoteIntent i := by
  simp [rxDone, update_of_ne h]

theorem Booked.rxDone (h : Booked ch o) (reuse : Bool) (ho : reuse = true →
      ∃ size, o (ch.remoteIntent slot).id = some ⟨size, false⟩) :
    Booked (ch.rxDone slot reuse) o := by
  refine h.of_slots rfl fun i hi => ?_
  by_cases his : i = slot
  · subst his
    cases reuse with
    | false => simp [rxDone] at hi
    | true => simpa [rxDone, ho] using hi
  · rw [rxDone_other reuse his] at hi ⊢
    exact ⟨hi, rfl, rfl, .inl⟩

theorem Carried.rxDone (h : Carried w ch o) (reuse : Bool)
    (hne : reuse = true → (ch.remoteIntent slot).id ≠ w.id) :
    Carried w (ch.rxDone slot reuse) o := by
  refine ⟨h.ready, h.small, h.offered, ?_, ?_⟩
  · intro i hi hid
    by_cases his : i = slot
    · subst his
      cases reuse with
      | false => simp [rxDone] at hi
      | true =>
        simp only [rxDone, update_self] at hid
        exact absurd hid (hne rfl)
    · rw [rxDone_other reuse his] at hi hid ⊢
      exact h.used i hi hid
  · intro hv
    by_cases his : w.slot = slot
    · subst his
      cases reuse with
      | false => simp [rxDone] at hv
      | true =>
        simp only [rxDone, update_self, if_true] at hv ⊢
        exact h.unspent hv
    · rw [rxDone_other reuse his] at hv ⊢
      exact h.unspent hv

theorem setUsed_fields (ch : Channel) (slot : Fin 8) (used : Bool) (i : Fin 8) :
    ((ch.setUsed slot used).remoteIntent i).valid = (ch.remoteIntent i).valid ∧
      ((ch.setUsed slot used).remoteIntent i).id = (ch.remoteIntent i).id ∧
      ((ch.setUsed slot used).remoteIntent i).size = (ch.remoteIntent i).size ∧
      ((ch.setUsed slot used).remoteIntent i).used =
        if i = slot then used else (ch.remoteIntent i).used := by
  by_cases hi : i = slot
  · subst hi
    simp [setUsed]
  · simp [setUsed, hi]

theorem Booked.setUsed (h : Booked ch o) (slot : Fin 8) (used : Bool)
    (ho : used = false → (ch.remoteIntent slot).valid = true →
      ∃ size, o (ch.remoteIntent slot).id = some ⟨size, false⟩) :
    Booked (ch.setUsed slot used) o := by
  refine h.of_slots rfl fun i hi => ?_
  obtain ⟨hvalid, hid, hsize, hflag⟩ := setUsed_fields ch slot used i
  rw [hvalid] at hi
  refine ⟨hi, hid, hsize, fun hu => ?_⟩
  rw [hflag]
  split
  · rename_i his
    subst his
    cases used with
    | false => exact .inr (ho rfl hi)
    | true => exact .inl rfl
  · exact .inl hu

theorem Booked.carried (h : Booked ch o) {c : ChannelIx} {length : ℕ} (hready : ch.ready = true)
    (hu : Usable ch length slot) :
    Carried ⟨c, slot, (ch.remoteIntent slot).id, length⟩ (ch.setUsed slot true) o := by
  have hf := setUsed_fields ch slot true
  obtain ⟨hvalid, hused, hle⟩ := hu
  obtain ⟨spent, ho, hspent⟩ := h.offered slot hvalid
  have hfalse : spent = false := by
    by_contra hne
    simp [hspent (by simpa using hne)] at hused
  subst hfalse
  refine ⟨hready, h.small slot hvalid, ⟨_, ho, hle⟩, ?_, ?_⟩
  · intro i hi hid
    rw [(hf i).1] at hi
    rw [(hf i).2.1] at hid
    rw [(hf i).2.2.2, h.unique i slot hi hvalid hid, if_pos rfl]
  · intro _
    rw [(hf slot).2.1]
    exact ⟨_, ho⟩

theorem Booked.spend (h : Booked ch o) (hc : Carried w ch o) : Booked ch (o.mark w.id true) := by
  refine ⟨h.closed, h.unique, h.small, ?_⟩
  intro i hi
  obtain ⟨spent, ho, hused⟩ := h.offered i hi
  by_cases hid : (ch.remoteIntent i).id = w.id
  · refine ⟨true, ?_, fun _ => hc.used i hi hid⟩
    rw [Offers.mark, hid, update_self, ← hid, ho]
    rfl
  · rw [Offers.mark, update_of_ne hid]
    exact ⟨spent, ho, hused⟩

/-! ## The ledger of a longer record -/

variable {trace : List Event}

theorem ledger_silent {es : List Event} (h : ∀ e ∈ es, ∀ o, ledgerStep c o e = o) :
    ledger c (trace ++ es) = ledger c trace := by
  unfold ledger
  rw [foldl_append]
  generalize trace.foldl (ledgerStep c) .empty = o
  induction es with
  | nil => rfl
  | cons e es ih =>
    rw [foldl_cons, h e mem_cons_self]
    exact ih fun e' he' => h e' (mem_cons_of_mem e he')

variable (c' : ChannelIx)

theorem ledger_cleared (trace : List Event) :
    ledger c (trace ++ (finRange 4).map (Event.cleared c')) = ledger c trace := by
  apply ledger_silent
  intro e he o
  obtain ⟨i, _, rfl⟩ := mem_map.mp he
  rfl

theorem ledger_resetChannel (g : Link) :
    ledger c (g.resetChannel c').trace = if c' = c then .empty else ledger c g.trace := by
  show ledger c (g.trace ++ (finRange 4).map (Event.cleared c') ++ [.closing c']) = _
  rw [ledger_concat, ledger_cleared]
  rfl

theorem ledger_handleOpen (g : Link) (rcid : ℕ) :
    ledger c (g.handleOpen c' rcid).trace = if c' = c then .empty else ledger c g.trace := by
  unfold Link.handleOpen
  split
  · show ledger c (g.trace ++ (finRange 4).map (Event.cleared c') ++ [.opening c']) = _
    rw [ledger_concat, ledger_cleared]
    rfl
  · show ledger c (g.trace ++ [.opening c']) = _
    rw [ledger_concat]
    rfl

theorem ledger_offer (g : Link) (id size : ℕ) :
    ledger c (g.offer c' id size).trace =
      if c' = c then (ledger c g.trace).offer id size else ledger c g.trace := by
  have htrace : (g.offer c' id size).trace = g.trace ++ [.offered c' id size] := by
    unfold Link.offer
    split <;> rfl
  rw [htrace, ledger_concat]
  rfl

theorem ledger_rxDone (g : Link) (slot : Fin 8) (id : ℕ) (reuse : Bool) :
    ledger c (g.rxDone c' slot id reuse).trace =
      if c' = c ∧ reuse = true then (ledger c g.trace).mark id false else ledger c g.trace := by
  cases reuse with
  | false =>
    rw [if_neg fun h => by cases h.2]
    rfl
  | true =>
    show ledger c (g.trace ++ [.returned c' id]) = _
    rw [ledger_concat]
    simp [ledgerStep]

/-- While the session runs, its slots agree with the ledger, and a message that waits
for room has its intent. -/
structure IntentInv (lcid : ChannelIx → ℕ) (g : Link) : Prop where
  ids : ∀ c, (g.s.ch c).lcid = lcid c
  live : LiveIntents g.trace
  booked : g.s.state = .started → ∀ c, Booked (g.s.ch c) (ledger c g.trace)
  carried : g.s.state = .started → ∀ w, g.sending = some w →
    Carried w (g.s.ch w.c) (ledger w.c g.trace)

theorem LiveIntents.quiet {trace' : List Event} (h : LiveIntents trace)
    (hq : QuietlyLonger trace trace') : LiveIntents trace' := by
  obtain ⟨es, rfl, hes⟩ := hq
  apply Every.append h
  intro e he before
  have hq := hes e he
  cases e with
  | sent => cases hq
  | _ => trivial

variable {lcid : ChannelIx → ℕ} {g : Link} {g' : Link}

/-- What a step that publishes nothing has to show: the channel it changes, if any. -/
theorem IntentInv.change (h : IntentInv lcid g) (c : ChannelIx)
    (hch : g'.s.ch = update g.s.ch c ch) (htrace : QuietlyLonger g.trace g'.trace)
    (hstate : g'.s.state = .started → g.s.state = .started) (hsending : g'.sending = g.sending)
    (hlcid : ch.lcid = (g.s.ch c).lcid)
    (hother : ∀ c', c' ≠ c → ledger c' g'.trace = ledger c' g.trace)
    (hbooked : g.s.state = .started → Booked (g.s.ch c) (ledger c g.trace) →
      Booked ch (ledger c g'.trace))
    (hcarried : g.s.state = .started → ∀ w, g.sending = some w → w.c = c →
      Booked (g.s.ch c) (ledger c g.trace) → Carried w (g.s.ch c) (ledger c g.trace) →
      Carried w ch (ledger c g'.trace)) : IntentInv lcid g' where
  ids c' := by
    rw [hch]
    exact (setCh_keeps Channel.lcid g c _ hlcid c').trans (h.ids c')
  live := h.live.quiet htrace
  booked hs c' := by
    have hs := hstate hs
    rw [hch]
    by_cases hc : c' = c
    · subst hc
      rw [update_self]
      exact hbooked hs (h.booked hs c')
    · rw [update_of_ne hc, hother c' hc]
      exact h.booked hs c'
  carried hs w hw := by
    have hs := hstate hs
    rw [hsending] at hw
    rw [hch]
    by_cases hc : w.c = c
    · rw [hc, update_self]
      have hold := h.carried hs w hw
      rw [hc] at hold
      exact hcarried hs w hw hc (h.booked hs c) hold
    · rw [update_of_ne hc, hother w.c hc]
      exact h.carried hs w hw

theorem IntentInv.still (h : IntentInv lcid g) (c : ChannelIx) (ch : Channel)
    (hch : g'.s.ch = update g.s.ch c ch) (htrace : QuietlyLonger g.trace g'.trace)
    (hledger : ∀ c', ledger c' g'.trace = ledger c' g.trace)
    (hstate : g'.s.state = .started → g.s.state = .started) (hsending : g'.sending = g.sending)
    (hlcid : ch.lcid = (g.s.ch c).lcid) (hopen : ch.remoteOpened = (g.s.ch c).remoteOpened)
    (hintent : ch.remoteIntent = (g.s.ch c).remoteIntent)
    (hready : (g.s.ch c).ready = true → ch.ready = true) : IntentInv lcid g' := by
  refine h.change c hch htrace hstate hsending hlcid (fun c' _ => hledger c') ?_ ?_
  · intro _ hb
    rw [hledger]
    exact hb.congr hopen hintent
  · intro _ w _ _ _ hc
    rw [hledger]
    exact hc.congr hready hintent

theorem IntentInv.same (h : IntentInv lcid g) (hch : g'.s.ch = g.s.ch)
    (htrace : QuietlyLonger g.trace g'.trace)
    (hledger : ∀ c', ledger c' g'.trace = ledger c' g.trace)
    (hstate : g'.s.state = .started → g.s.state = .started) (hsending : g'.sending = g.sending) :
    IntentInv lcid g' :=
  h.still chClient _ (hch.trans (update_eq_self _ _).symm) htrace hledger hstate hsending
    rfl rfl rfl fun hr => hr

variable {data : List UInt8}

theorem IntentInv.published_other (h : IntentInv lcid g) (hstarted : g.s.state = .started)
    {hdr : List UInt8} (cmd : Command) (hcmd : headerCmd (hdr ++ data) = cmd.code)
    (hhdr : headerCmd hdr = cmd.code) (hne : cmd ≠ .txData) (hcont : cmd ≠ .txDataCont) :
    IntentInv lcid (g.publish hdr data) := by
  have hnot : headerCmd (hdr ++ data) ≠ Command.txData.code := by
    rw [hcmd]
    cases cmd <;> simp_all [Command.code]
  have hledger : ∀ c, ledger c (g.publish hdr data).trace = ledger c g.trace := by
    intro c
    apply ledger_silent
    intro e he o
    rw [mem_singleton] at he
    subst he
    simp [ledgerStep, spentOn, hnot]
  have hsending : (g.publish hdr data).sending = g.sending := by
    have hdata : isData hdr = false := by
      rw [isData_eq_of_headerCmd hhdr]
      cases cmd <;> simp_all
    simp [Link.publish, hdata]
  refine ⟨h.ids, every_concat.mpr ⟨h.live, fun hc => absurd hc hnot⟩, ?_, ?_⟩
  · intro _ c
    rw [hledger]
    exact h.booked hstarted c
  · intro _ w hw
    rw [hledger]
    exact h.carried hstarted w (hsending ▸ hw)

theorem dataFrame_fields (lcid id : ℕ) (data : List UInt8) :
    let frame := dataHeader lcid id data.length ++ data
    headerCmd frame = Command.txData.code ∧ headerP1 frame = lcid % 65536 ∧
      headerP2 frame = id % 2 ^ 32 ∧ frame.length - 16 = data.length := by
  simp only [dataHeader, append_assoc, headerCmd_header, headerP1_header, headerP2_header,
    length_append, header_length, put32, putLe_length, true_and]
  omega

theorem IntentInv.published_data (hl : Lcids lcid) (h : IntentInv lcid g)
    (hstarted : g.s.state = .started) (hw : g.sending = some w) (hlength : data.length = w.length) :
    IntentInv lcid (g.publish (dataHeader (g.s.ch w.c).lcid w.id data.length) data) := by
  have hc := h.carried hstarted w hw
  obtain ⟨hcmd, hp1, hp2, hlen⟩ := dataFrame_fields (g.s.ch w.c).lcid w.id data
  have hlt : (g.s.ch w.c).lcid < 65536 := by
    rw [h.ids]
    exact hl.lt w.c
  have hby : byLcid g.s.ch (g.s.ch w.c).lcid = some w.c := by
    rw [h.ids]
    exact hl.byLcid h.ids w.c
  rw [Nat.mod_eq_of_lt hlt] at hp1
  rw [Nat.mod_eq_of_lt hc.small] at hp2
  have hledger : ∀ c, ledger c
      (g.publish (dataHeader (g.s.ch w.c).lcid w.id data.length) data).trace =
        if w.c = c then (ledger c g.trace).mark w.id true else ledger c g.trace := by
    intro c
    refine (ledger_concat c g.trace _).trans ?_
    rw [ledgerStep, spentOn, if_pos hcmd, hp1, hby, hp2]
    simp
  obtain ⟨size, ho, hle⟩ := hc.offered
  refine ⟨h.ids, every_concat.mpr ⟨h.live, fun _ => ?_⟩, ?_, ?_⟩
  · rw [hp1, hp2, hlen, hby]
    simp [hc.ready, ho, hlength, hle]
  · intro _ c
    rw [hledger]
    split
    · rename_i heq
      subst heq
      exact (h.booked hstarted w.c).spend hc
    · exact h.booked hstarted c
  · intro _ w' hw'
    have hdata : isData (dataHeader (g.s.ch w.c).lcid w.id data.length) = true := by
      rw [isData_eq_of_headerCmd (headerCmd_dataHeader _ _ _)]
      rfl
    simp [Link.publish, hdata] at hw'

theorem IntentInv.publish (hl : Lcids lcid) (h : IntentInv lcid g) (hstarted : g.s.state = .started)
    {hdr : List UInt8} (hallowed : Allowed g hdr data) : IntentInv lcid (g.publish hdr data) := by
  cases hallowed with
  | short cmd p1 p2 hshort =>
    apply h.published_other hstarted cmd (headerCmd_header cmd p1 p2 [])
      (headerCmd_header_nil _ _ _)
    · rintro rfl
      cases hshort
    · rintro rfl
      cases hshort
  | close c =>
    exact h.published_other hstarted .close (headerCmd_header .close _ _ [])
      (headerCmd_header_nil _ _ _)
      nofun nofun
  | «open» c hclose =>
    refine h.published_other hstarted .open ?_ (headerCmd_openFrame _) nofun nofun
    rw [append_nil, headerCmd_openFrame]
  | intent l size id =>
    have hhdr : headerCmd (header .intent l 1 ++ put32 size ++ put32 id) = Command.intent.code := by
      rw [append_assoc, headerCmd_header]
    refine h.published_other hstarted .intent ?_ hhdr nofun nofun
    rw [append_nil, hhdr]
  | data w data hsending hlength => exact h.published_data hl hstarted hsending hlength

/-! ## Handlers -/

/-- What a frame that does not disturb a message leaves alone. -/
structure Spares (ch : Channels) (w : Sending) (frame : List UInt8) : Prop where
  opened : headerCmd frame = Command.open.code →
    openMatch ch (headerP2 frame % 65536) (openName frame) ≠ some w.c
  closed : headerCmd frame = Command.close.code → byRcid ch (headerP1 frame) ≠ some w.c
  offered : headerCmd frame = Command.intent.code → byRcid ch (headerP1 frame) = some w.c →
    ∀ n < headerP2 frame, intentId frame n ≠ w.id
  returned : headerCmd frame = Command.rxDoneWReuse.code →
    byRcid ch (headerP1 frame) = some w.c → headerP2 frame ≠ w.id

theorem spares_of_not_disturbs {ch : Channels} {frame : List UInt8}
    (h : disturbs ch w frame = false) : Spares ch w frame := by
  simp only [disturbs, Bool.or_eq_false_iff, Bool.and_eq_false_iff, decide_eq_false_iff_not,
    any_eq_false, mem_range, decide_eq_true_eq] at h
  obtain ⟨⟨⟨ho, hc⟩, hi⟩, hr⟩ := h
  refine ⟨fun hcmd => ?_, fun hcmd => ?_, fun hcmd hby => ?_, fun hcmd hby => ?_⟩
  · exact ho.resolve_left fun hn => hn hcmd
  · exact hc.resolve_left fun hn => hn hcmd
  · exact hi.resolve_left fun hn => hn.elim (fun hn => hn hcmd) fun hn => hn hby
  · exact hr.resolve_left fun hn => hn.elim (fun hn => hn hcmd) fun hn => hn hby

theorem NoDisturbance.spares (h : NoDisturbance g.trace) {frame : List UInt8} {ch : Channels}
    (hseen : .dispatched frame ch g.sending ∈ g.trace) (hw : g.sending = some w) :
    Spares ch w frame := by
  have hu := h _ hseen
  rw [hw] at hu
  exact spares_of_not_disturbs hu

theorem opened_invalid (h : Booked ch o) (rcid : ℕ) (i : Fin 8) :
    ((ch.opened rcid).remoteIntent i).valid = false := by
  unfold opened
  split
  · rfl
  · rename_i hopen
    exact h.closed (by simpa using hopen) i

section Handlers

variable {c : ChannelIx} {frame : List UInt8} (h : IntentInv lcid g)

include h

theorem IntentInv.take (n : ℕ) : IntentInv lcid (g.take n) := by
  have hledger : ∀ c, ledger c (g.take n).trace = ledger c g.trace :=
    fun c => ledger_concat c g.trace _
  refine ⟨h.ids, every_concat.mpr ⟨h.live, trivial⟩, fun hs c => ?_, fun hs w hw => ?_⟩
  · rw [hledger]
    exact h.booked hs c
  · rw [hledger]
    exact h.carried hs w hw

theorem IntentInv.reset (hspare : ∀ w ∈ g.sending, Spares g.s.ch w frame)
    (hcmd : headerCmd frame = Command.close.code)
    (hby : byRcid g.s.ch (headerP1 frame) = some c) : IntentInv lcid (g.resetChannel c) := by
  refine h.change c rfl (quietlyLonger_resetChannel g c) (fun hs => hs) rfl rfl ?_ ?_ ?_
  · intro c' hc
    rw [ledger_resetChannel, if_neg (Ne.symm hc)]
  · intro _ _
    exact booked_of_invalid _ fun _ => rfl
  · rintro _ w hw rfl
    exact absurd hby ((hspare w hw).closed hcmd)

theorem IntentInv.closeAcked (hclose : (g.s.ch c).closeSent = true) :
    IntentInv lcid (g.setCh c (g.s.ch c).ackClose) := by
  refine h.change c rfl (.refl _) (fun hs => hs) rfl rfl (fun _ _ => rfl) ?_ ?_
  · intro _ hb
    exact hb.congr rfl rfl
  · intro _ w _ _ _ hc
    have hready := hc.ready
    simp [ready, hclose] at hready

theorem IntentInv.opened (hspare : ∀ w ∈ g.sending, Spares g.s.ch w frame)
    (hstarted : g.s.state = .started) (hcmd : headerCmd frame = Command.open.code)
    (hby : openMatch g.s.ch (headerP2 frame % 65536) (openName frame) = some c) (rcid : ℕ) :
    IntentInv lcid (g.handleOpen c rcid) := by
  refine h.change c (handleOpen_ch g c rcid) (quietlyLonger_handleOpen g c rcid)
    (fun _ => hstarted) (sending_handleOpen g c rcid) (opened_lcid rcid _) ?_ ?_ ?_
  · intro c' hc
    rw [ledger_handleOpen, if_neg (Ne.symm hc)]
  · intro _ hb
    exact booked_of_invalid _ (opened_invalid hb rcid)
  · rintro _ w hw rfl
    exact absurd hby ((hspare w hw).opened hcmd)

theorem IntentInv.offer {before : Channels} {n : ℕ}
    (hspare : ∀ w ∈ g.sending, Spares before w frame) (hstarted : g.s.state = .started)
    (hcmd : headerCmd frame = Command.intent.code)
    (hby : byRcid before (headerP1 frame) = some c) (hn : n < headerP2 frame)
    (hopen : (g.s.ch c).remoteOpened = true) :
    IntentInv lcid (g.offer c (intentId frame n) (intentSize frame n)) := by
  refine h.change c (offer_ch g c _ _) (quietlyLonger_offer g c _ _) (fun _ => hstarted)
    (sending_offer g c _ _) (offered_lcid _ _ _) ?_ ?_ ?_
  · intro c' hc
    rw [ledger_offer, if_neg (Ne.symm hc)]
  · intro _ hb
    rw [ledger_offer, if_pos rfl]
    exact hb.offer hopen (getLe_lt 4 _)
  · rintro _ w hw rfl hb hc
    rw [ledger_offer, if_pos rfl]
    exact hc.offer hb ((hspare w hw).offered hcmd hby n hn)

theorem IntentInv.returned : IntentInv lcid (g.log (.returned c (headerP2 frame))) := by
  have hledger : ∀ c', ledger c' (g.log (.returned c (headerP2 frame))).trace =
      if c = c' then (ledger c' g.trace).mark (headerP2 frame) false else ledger c' g.trace :=
    fun c' => ledger_concat c' g.trace _
  refine h.change c (update_eq_self c g.s.ch).symm (quietlyLonger_log g rfl)
    (fun hs => hs) rfl rfl ?_ ?_ ?_
  · intro c' hc
    rw [hledger, if_neg (Ne.symm hc)]
  · intro _ hb
    rw [hledger, if_pos rfl]
    exact hb.unmark _
  · intro _ w _ _ _ hc
    rw [hledger, if_pos rfl]
    exact hc.unmark _

theorem IntentInv.rxDone {slot : Fin 8} (reuse : Bool)
    (hspare : ∀ w ∈ g.sending, Spares g.s.ch w frame) (hstarted : g.s.state = .started)
    (hcmd : reuse = true → headerCmd frame = Command.rxDoneWReuse.code)
    (hby : byRcid g.s.ch (headerP1 frame) = some c)
    (hslot : remoteSlot (g.s.ch c) (headerP2 frame) = some slot) :
    IntentInv lcid (g.rxDone c slot (headerP2 frame) reuse) := by
  obtain ⟨hvalid, hid⟩ := remoteSlot_some hslot
  refine h.change c (rxDone_ch g c slot _ reuse) (quietlyLonger_rxDone g c slot _ reuse)
    (fun _ => hstarted) (sending_rxDone g c slot _ reuse) rfl ?_ ?_ ?_
  · intro c' hc
    rw [ledger_rxDone, if_neg fun hc' => hc hc'.1.symm]
  · intro _ hb
    rw [ledger_rxDone]
    split
    · refine (hb.unmark _).rxDone reuse fun _ => ?_
      obtain ⟨spent, ho, _⟩ := hb.offered slot hvalid
      exact ⟨_, by rw [Offers.mark, hid, update_self, ← hid, ho]; rfl⟩
    · rename_i hreuse
      exact hb.rxDone reuse fun hr => absurd ⟨rfl, hr⟩ hreuse
  · rintro _ w hw rfl hb hc
    have hne : reuse = true → ((g.s.ch w.c).remoteIntent slot).id ≠ w.id := by
      intro hr
      rw [hid]
      exact (hspare w hw).returned (hcmd hr) hby
    rw [ledger_rxDone]
    split
    · exact (hc.unmark _).rxDone reuse hne
    · exact hc.rxDone reuse hne

theorem IntentInv.pick {slot : Fin 8} {length : ℕ} (hstarted : g.s.state = .started)
    (hready : (g.s.ch c).ready = true) (hslot : chooseIntent (g.s.ch c) length = some slot) :
    IntentInv lcid (g.pick c slot length) := by
  have hb := h.booked hstarted c
  refine ⟨?_, h.live, ?_, ?_⟩
  · intro c'
    exact (setCh_keeps Channel.lcid g c ((g.s.ch c).setUsed slot true) rfl c').trans
      (h.ids c')
  · intro _ c'
    show Booked (update g.s.ch c ((g.s.ch c).setUsed slot true) c') _
    by_cases hc : c' = c
    · subst hc
      rw [update_self]
      exact hb.setUsed slot true (by simp)
    · rw [update_of_ne hc]
      exact h.booked hstarted c'
  · intro _ w hw
    cases hw
    show Carried _ (update g.s.ch c ((g.s.ch c).setUsed slot true) c) _
    rw [update_self]
    exact hb.carried hready (chooseIntent_usable hslot)

theorem IntentInv.advertise (slot : Fin 4) : IntentInv lcid (g.advertise c slot) := by
  refine h.still c ((g.s.ch c).advertised slot g.s.nextLiid) rfl
    ⟨[.cleared c slot], rfl, by simp [Event.isQuiet]⟩ ?_ (fun hs => hs) rfl rfl rfl rfl
    fun hr => hr
  intro c'
  exact ledger_concat c' g.trace _

theorem IntentInv.finishRelease : IntentInv lcid g.finishRelease := by
  have hover : g.finishRelease.s.state ≠ .started := by simp [Link.finishRelease]
  refine ⟨?_, h.live.quiet (quietlyLonger_finishRelease g), fun hs => absurd hs hover,
    fun hs => absurd hs hover⟩
  intro c
  obtain ⟨wanted, hch⟩ := finishRelease_ch g c
  rw [hch]
  exact h.ids c

end Handlers

theorem IntentInv.act (hl : Lcids lcid) (h : IntentInv lcid g) (hgood : NoDisturbance g.trace)
    (hstarted : g.s.state = .started) (hact : Act g g') : IntentInv lcid g' := by
  cases hact with
  | publish hdr data hfits hallowed => exact h.publish hl hstarted hallowed
  | take n => exact h.take n
  | spent n => exact h.same rfl (.refl _) (fun _ => rfl) (fun hs => hs) rfl
  | reset c frame hseen hcmd hby => exact h.reset (fun _ => hgood.spares hseen) hcmd hby
  | closeAcked c frame hlast hcmd hby hclose => exact h.closeAcked hclose
  | opened c rcid frame hseen hcmd hby =>
    exact h.opened (fun _ => hgood.spares hseen) hstarted hcmd hby rcid
  | offer c n frame ch hseen hcmd hby hn hopen =>
    exact h.offer (fun _ => hgood.spares hseen) hstarted hcmd hby hn hopen
  | returned c frame hslot => exact h.returned
  | rxDone c slot reuse frame hseen hcmd hby hslot =>
    exact h.rxDone reuse (fun _ => hgood.spares hseen) hstarted hcmd hby hslot
  | pick c slot length hnone hready hslot => exact h.pick hstarted hready hslot
  | advertise c slot => exact h.advertise slot
  | finishRelease => exact h.finishRelease

theorem IntentInv.step (hl : Lcids lcid) (hstep : Step g g') (h : IntentInv lcid g)
    (hgood : NoDisturbance g.trace) : IntentInv lcid g' := by
  cases hstep with
  | turn t rest => exact h.same rfl (.refl _) (fun _ => rfl) (fun hs => hs) rfl
  | wait => exact h.same rfl (.refl _) (fun _ => rfl) (fun hs => hs) rfl
  | quiet s servicing releasing hsame =>
    refine h.same hsame.ch (.refl _) (fun _ => rfl) ?_ rfl
    intro hs
    rwa [← hsame.state]
  | fail error command hactive =>
    exact h.same rfl (.refl _) (fun _ => rfl) (fun hs => absurd hs (by simp [Link.fail])) rfl
  | flags c ch hflags =>
    exact h.still c _ rfl (.refl _) (fun _ => rfl) (fun hs => hs) rfl hflags.lcid
      hflags.remoteOpened hflags.remoteIntent hflags.ready
  | closed c hopen =>
    refine h.still c ((g.s.ch c).setCloseSent) rfl (.refl _) (fun _ => rfl) (fun hs => hs)
      rfl rfl rfl rfl ?_
    intro hr
    simp [ready, hopen] at hr
  | invalidate c slot =>
    exact h.still c ((g.s.ch c).retire slot) rfl (.refl _) (fun _ => rfl) (fun hs => hs)
      rfl rfl rfl rfl fun hr => hr
  | abandon c slot hpicked =>
    refine ⟨?_, h.live, ?_, fun _ w hw => absurd hw (by simp [Link.abandon])⟩
    · intro c'
      exact (setCh_keeps Channel.lcid g c ((g.s.ch c).setUsed slot false) rfl c').trans
        (h.ids c')
    · intro hs c'
      obtain ⟨w, hw, rfl, rfl⟩ := hpicked hs
      show Booked (update g.s.ch w.c ((g.s.ch w.c).setUsed w.slot false) c') _
      by_cases hc : c' = w.c
      · subst hc
        rw [update_self]
        exact (h.booked hs w.c).setUsed w.slot false fun _ => (h.carried hs w hw).unspent
      · rw [update_of_ne hc]
        exact h.booked hs c'
  | refuse before frame ch sending part =>
    exact h.same rfl (quietlyLonger_log { g.setFilled _ _ 0 with s := _ } rfl)
      (fun c => ledger_concat c g.trace _) (fun hs => hs) rfl
  | keep before frame ch sending part b =>
    exact h.same rfl (quietlyLonger_log (g.keep _ _ b _ _) rfl)
      (fun c => ledger_concat c g.trace _) (fun hs => hs) rfl
  | complete before frame ch sending part b =>
    obtain ⟨s, hs, heq⟩ := deliver_eq (g.keep part.c part.slot b part.first part.payload)
      part.c part.slot b
    rw [heq]
    refine h.still part.c ((g.s.ch part.c).giveBack part.slot) ?_
      ⟨[_], rfl, by simp [Event.isQuiet]⟩ (fun c => ledger_concat c g.trace _) ?_ rfl rfl rfl rfl
      fun hr => hr
    · show update s.ch part.c _ = _
      rw [hs.ch]
      rfl
    · intro hstate
      have hstate : s.state = .started := hstate
      rwa [hs.state] at hstate
  | act _ hstarted hsettled hact => exact h.act hl hgood hstarted hact

theorem NoDisturbance.of_prefix {trace' : List Event} (h : NoDisturbance trace')
    (hp : trace <+: trace') : NoDisturbance trace :=
  fun e he => h e (hp.subset he)

theorem intentInv_steps (hl : Lcids lcid) (hsteps : Steps g g') (h : IntentInv lcid g)
    (hgood : NoDisturbance g'.trace) : IntentInv lcid g' := by
  apply steps_keep (I := fun a => NoDisturbance a.trace → IntentInv lcid a) _ hsteps
    (fun _ => h) hgood
  intro a b hstep ih hb
  have ha := hb.of_prefix hstep.trace_prefix
  exact IntentInv.step hl hstep (ih ha) ha

theorem intentInv_restart {lcid : ℕ} (hok : LcidOk lcid) (g : Link) (name : List UInt8)
    (mode : RestartMode) (words : List ℕ) :
    IntentInv (Ctx.initial hok).lcid (g.restart name lcid mode words) where
  ids := (live_restart hok g name mode words).1.lcid
  live := every_nil
  booked _ c := by
    apply booked_of_invalid
    intro i
    rcases channelIx_cases c with rfl | rfl <;> rfl
  carried _ w hw := by cases hw

/-- Every data frame spends a live intent, for every run in which no frame handled while a
message waits for room takes its intent away. -/
theorem restart_liveIntents (name : List UInt8) (lcid : ℕ) (mode : RestartMode) (g₀ g : Link)
    (hrestart : restart name lcid mode g₀ = (some .ok, g)) (ops : List Op)
    (hgood : NoDisturbance (runOps ops g).2.trace) : LiveIntents (runOps ops g).2.trace := by
  obtain ⟨a, words, hr, hsteps⟩ := session_steps hrestart ops
  exact (intentInv_steps (lcids_initial hr.lcidOk) hsteps
    (intentInv_restart hr.lcidOk a name mode words) hgood).live

/-- The remote opens channel `"a"` and offers one intent of 40 bytes, sends one more frame
while our FIFO is full, and only then reads from it. -/
def waitingLink (last : List UInt8) : Link :=
  let first := openA 7 ++ header .openAck 5 0 ++ (header .intent 7 1 ++ put32 40 ++ put32 9)
  let head := first.length + last.length
  freshLink 128
    (later 0 first.length (bytesFrom 0 first) :: List.replicate 22 (later 0 first.length []) ++
      later 0 head (bytesFrom first.length last) :: List.replicate 9 (later 0 head []) ++
      List.replicate 8 (later 96 head []))

def waitingOps : List Op := [.poll, .drive chClient, .send chClient (List.replicate 40 1) 100000]

theorem restart_liveIntents_waiting :
    (restart [0x61] 5 .linux (waitingLink (header .signals 0 0))).1 = some .ok ∧
      LiveIntents (runOps waitingOps
        (restart [0x61] 5 .linux (waitingLink (header .signals 0 0))).2).2.trace :=
  ⟨by decide +kernel, restart_liveIntents [0x61] 5 .linux (waitingLink (header .signals 0 0)) _
    restart_returned waitingOps (by decide +kernel)⟩

/-- The channel is closed while the message waits, and its frame is published all the
same. -/
theorem restart_closed_not_liveIntents :
    ∃ g, restart [0x61] 5 .linux (waitingLink (header .close 7 0)) = (some .ok, g) ∧
      ¬LiveIntents (runOps waitingOps g).2.trace :=
  ⟨_, restart_returned, by decide +kernel⟩

end Q1n1.Glink
