import Q1n1.Verification.Pmic.Link

/-! # Which replies can still be on their way

Replies carry no sequence number. Each is taken for the reply to the request whose turn it is, so
all depends on what can still arrive when a request goes out. -/

namespace Q1n1.Pmic

open Cut List Frame

/-- A message that the router does not call foreign. -/
def Own (data : List UInt8) : Prop := 12 ≤ data.length ∧ get32 0 data = owner

instance (data : List UInt8) : Decidable (Own data) := inferInstanceAs (Decidable (_ ∧ _))

def Frame.message? : Frame → Option (List UInt8 × Option ℕ)
  | .other => none
  | .message data answers => some (data, answers)

/-- The messages handed over so far, each with the request it answers. -/
def Wire.delivered (w : Wire) : List (List UInt8 × Option ℕ) :=
  (w.stream.take w.read).filterMap (·.frame.message?)

/-- The remote answers each request at most once, in order, only after it was published and at most
two seconds after it timed out, and sends no other message of this kind. -/
structure Answering (w : Wire) (r : Router) : Prop where
  marked : ∀ a ∈ w.stream, ∀ data n, a.frame = .message data n → (Own data ↔ n.isSome)
  ordered : (w.stream.filterMap (·.frame.answers?)).Pairwise (· < ·)
  asked : ∀ a ∈ w.stream, ∀ k, a.frame.answers? = some k → 1 ≤ k ∧ k ≤ a.published
  prompt : ∀ a ∈ w.stream, ∀ k, a.frame.answers? = some k → ∀ t, (k, t) ∈ r.expired →
    a.time ≤ t + orphanGiveUpUs

/-- No reply to request `k` can arrive any more: it is here, or it is too late for it. -/
def Gone (w : Wire) (r : Router) (k : ℕ) : Prop :=
  (∃ a ∈ w.stream, ∃ j, a.frame.answers? = some j ∧ k ≤ j) ∨
    ∃ t, (k, t) ∈ r.expired ∧ t + orphanGiveUpUs < w.clock

/-- What a router that is not waiting owes. -/
def Owes (w : Wire) (r : Router) : Prop :=
  (r.orphans = 0 ∧ (1 ≤ w.requests.length → Gone w r w.requests.length)) ∨
    (r.orphans = 1 ∧ (w.requests.length, r.orphanSinceUs) ∈ r.expired)

/-- A router that waits has at most the reply it waits for. -/
def Awaits (w : Wire) (r : Router) : Prop :=
  r.orphans = 0 ∧ (r.haveReply = true → ∃ a ∈ w.stream, ∃ m,
    a.frame = .message m (some w.requests.length) ∧ r.reply = m.take replyBytes ∧
      r.replyLength = m.length)

/-- Where the router stands with its requests. -/
structure Phase (w : Wire) (r : Router) : Prop where
  count : r.requests = w.requests.length
  older : ∀ k, 1 ≤ k → k < w.requests.length → Gone w r k
  idle : r.waiting = false → Owes w r
  awaiting : r.waiting = true → Awaits w r

/-- The only replies still to be read answer the last request. -/
def Unread (w : Wire) : Prop :=
  ∀ a ∈ w.waiting, ∀ k, a.frame.answers? = some k → k = w.requests.length

/-- What was discarded as stale answered a request that had timed out, while none was awaited. -/
structure Fair (fates : List (Fate × Option ℕ)) (delivered : List (List UInt8 × Option ℕ))
    (expired : List (ℕ × ℕ)) : Prop where
  aligned : fates.length = delivered.length
  stale : ∀ p ∈ fates.zip delivered, p.1.1 = .stale →
    p.1.2 = none ∧ ∃ k t, p.2.2 = some k ∧ (k, t) ∈ expired

variable {r : Router} {w : Wire}

theorem Gone.mono {w' : Wire} {r' : Router} {k : ℕ} (h : Gone w r k)
    (hs : ∀ a ∈ w.stream, a ∈ w'.stream) (he : ∀ p ∈ r.expired, p ∈ r'.expired)
    (hc : w.clock ≤ w'.clock) : Gone w' r' k := by
  rcases h with ⟨a, ha, hj⟩ | ⟨t, ht, hlate⟩
  · exact .inl ⟨a, hs a ha, hj⟩
  · exact .inr ⟨t, he _ ht, hlate.trans_le hc⟩

/-! ## Frames that are handed over -/

def Router.receive (r : Router) (a : Arrival) : Router :=
  match a.frame.data? with
  | none => r
  | some data => r.deliver data

theorem Router.fate_foreign {data : List UInt8} (h : ¬Own data) : r.fate data = .foreign := by
  rw [Router.fate, if_pos]
  by_contra hn
  exact h ⟨by omega, by tauto⟩

theorem Router.fate_own {data : List UInt8} (h : Own data) :
    r.fate data =
      if r.orphans ≠ 0 then .stale
      else if r.waiting = false ∨ r.haveReply then .unsolicited
      else .taken := by
  rw [Router.fate, if_neg]
  rintro (hlen | hown)
  · exact absurd h.1 (by omega)
  · exact hown h.2

/-- What one frame does to the router, as far as pairing goes. -/
structure Received (a : Arrival) (r r' : Router) : Prop where
  requests : r'.requests = r.requests
  waiting : r'.waiting = r.waiting
  since : r'.orphanSinceUs = r.orphanSinceUs
  expired : r'.expired = r.expired
  fates : ∀ m, a.frame.message? = some m → ∃ f, r'.fates = r.fates ++ [(f, r.awaited)] ∧
    (f = .stale → Own m.1 ∧ r.orphans ≠ 0)
  silent : a.frame.message? = none → r'.fates = r.fates
  cases : (r'.orphans = r.orphans ∧ r'.haveReply = r.haveReply ∧ r'.reply = r.reply ∧
      r'.replyLength = r.replyLength) ∨
    (∃ m n, a.frame = .message m n ∧ Own m ∧ r.orphans ≠ 0 ∧ r'.orphans = r.orphans - 1 ∧
      r'.haveReply = r.haveReply ∧ r'.reply = r.reply ∧ r'.replyLength = r.replyLength) ∨
    (∃ m n, a.frame = .message m n ∧ Own m ∧ r.orphans = 0 ∧ r'.orphans = 0 ∧
      r.waiting = true ∧ r'.reply = m.take replyBytes ∧ r'.replyLength = m.length)

namespace Router

theorem received (r : Router) (a : Arrival) : Received a r (r.receive a) := by
  cases hf : a.frame with
  | other =>
    have hr : r.receive a = r := by simp [receive, hf, data?]
    rw [hr]
    exact ⟨rfl, rfl, rfl, rfl, by simp [hf, message?], fun _ => rfl,
      .inl ⟨rfl, rfl, rfl, rfl⟩⟩
  | message m n =>
    have hr : r.receive a = r.deliver m := by simp [receive, hf, data?]
    rw [hr]
    by_cases hown : Own m
    · have hfate := fate_own (r := r) hown
      split at hfate
      · rename_i ho
        simp only [deliver, hfate]
        exact ⟨rfl, rfl, rfl, rfl, by simp [hf, message?, hown, ho],
          by simp [hf, message?],
          .inr (.inl ⟨m, n, hf, hown, ho, rfl, rfl, rfl, rfl⟩)⟩
      · split at hfate
        · simp only [deliver, hfate]
          exact ⟨rfl, rfl, rfl, rfl, by simp [hf, message?],
            by simp [hf, message?], .inl ⟨rfl, rfl, rfl, rfl⟩⟩
        · rename_i ho hw
          simp only [deliver, hfate]
          have ho' : r.orphans = 0 := by simpa using ho
          have hw' : r.waiting = true := by
            simp only [not_or, Bool.not_eq_false] at hw
            exact hw.1
          exact ⟨rfl, rfl, rfl, rfl, by simp [hf, message?], by simp [hf, message?],
            .inr (.inr ⟨m, n, hf, hown, ho', ho', hw', rfl, rfl⟩)⟩
    · simp only [deliver, fate_foreign hown]
      exact ⟨rfl, rfl, rfl, rfl, by simp [hf, message?],
        by simp [hf, message?], .inl ⟨rfl, rfl, rfl, rfl⟩⟩

end Router

variable {a : Arrival}

theorem Answering.answers_last (hr : Answering w r) (ha : a ∈ w.stream)
    (hlast : ∀ k, a.frame.answers? = some k → k = w.requests.length) {m : List UInt8}
    {n : Option ℕ} (hf : a.frame = .message m n) (hown : Own m) : n = some w.requests.length := by
  obtain ⟨k, hk⟩ := Option.isSome_iff_exists.mp ((hr.marked a ha m n hf).mp hown)
  rw [hk, hlast k (by rw [hf, answers?, hk])]

theorem Phase.receive (h : Phase w r) (hr : Answering w r) (ha : a ∈ w.stream)
    (hlast : ∀ k, a.frame.answers? = some k → k = w.requests.length) : Phase w (r.receive a) := by
  have hrec := r.received a
  have hgone : ∀ k, Gone w r k → Gone w (r.receive a) k := fun k hk =>
    hk.mono (fun _ h => h) (by rw [hrec.expired]; exact fun _ h => h) le_rfl
  refine ⟨hrec.requests.trans h.count, fun k h1 hk => hgone k (h.older k h1 hk), ?_, ?_⟩
  · intro hw
    rw [hrec.waiting] at hw
    rcases hrec.cases with ⟨ho, -⟩ | ⟨m, n, hf, hown, hne, ho, -⟩ | ⟨m, n, -, -, -, -, hw', -⟩
    · rcases h.idle hw with ⟨h0, hg⟩ | ⟨h1, he⟩
      · exact .inl ⟨ho.trans h0, fun hp => hgone _ (hg hp)⟩
      · refine .inr ⟨ho.trans h1, ?_⟩
        rw [hrec.since, hrec.expired]
        exact he
    · -- the reply that was owed is here
      have hn := hr.answers_last ha hlast hf hown
      rcases h.idle hw with ⟨h0, -⟩ | ⟨h1, -⟩
      · exact absurd h0 hne
      · refine .inl ⟨by rw [ho, h1], fun _ => .inl ⟨a, ha, w.requests.length, ?_, le_rfl⟩⟩
        rw [hf, answers?, hn]
    · rw [hw] at hw'
      cases hw'
  · intro hw
    rw [hrec.waiting] at hw
    obtain ⟨h0, hgot⟩ := h.awaiting hw
    rcases hrec.cases with ⟨ho, hh, hre, hl⟩ | ⟨_, _, _, _, hne, -⟩ |
      ⟨m, n, hf, hown, -, ho, -, hre, hl⟩
    · refine ⟨ho.trans h0, ?_⟩
      rw [hh, hre, hl]
      exact hgot
    · exact absurd h0 hne
    · refine ⟨ho, fun _ => ⟨a, ha, m, ?_, hre, hl⟩⟩
      rw [hf, hr.answers_last ha hlast hf hown]

variable {d : List (List UInt8 × Option ℕ)}

theorem Fair.append {fates : List (Fate × Option ℕ)} {expired : List (ℕ × ℕ)}
    (h : Fair fates d expired) {f : Fate × Option ℕ} {m : List UInt8 × Option ℕ}
    (hstale : f.1 = .stale → f.2 = none ∧ ∃ k t, m.2 = some k ∧ (k, t) ∈ expired) :
    Fair (fates ++ [f]) (d ++ [m]) expired := by
  refine ⟨by simp [h.aligned], ?_⟩
  intro p hp
  rw [zip_append h.aligned] at hp
  rcases mem_append.mp hp with hp | hp
  · exact h.stale p hp
  · simp only [zip_cons_cons, zip_nil_right, mem_singleton] at hp
    subst hp
    exact hstale

theorem Fair.receive (h : Fair r.fates d r.expired) (hp : Phase w r) (hr : Answering w r)
    (ha : a ∈ w.stream) (hlast : ∀ k, a.frame.answers? = some k → k = w.requests.length) :
    Fair (r.receive a).fates (d ++ a.frame.message?.toList) (r.receive a).expired := by
  have hrec := r.received a
  rw [hrec.expired]
  cases hm : a.frame.message? with
  | none =>
    rw [hrec.silent hm, Option.toList_none, append_nil]
    exact h
  | some m =>
    obtain ⟨f, hf, hstale⟩ := hrec.fates m hm
    rw [hf]
    refine h.append ?_
    intro hs
    obtain ⟨hown, hne⟩ := hstale hs
    have hframe : a.frame = .message m.1 m.2 := by
      cases hfr : a.frame with
      | other => rw [hfr] at hm; cases hm
      | message data n => rw [hfr, message?, Option.some.injEq] at hm; subst hm; rfl
    -- while a reply is awaited none is owed, so this one answers the request that timed out
    have hidle : r.waiting = false := by
      by_contra hw
      exact hne (hp.awaiting (by simpa using hw)).1
    rcases hp.idle hidle with ⟨h0, -⟩ | ⟨-, he⟩
    · exact absurd h0 hne
    · exact ⟨by simp [Router.awaited, hidle], _, _, hr.answers_last ha hlast hframe hown, he⟩

theorem Phase.receiveAll (as : List Arrival) (hp : Phase w r) (hfair : Fair r.fates d r.expired)
    (hr : Answering w r) (hin : ∀ a ∈ as, a ∈ w.stream)
    (hlast : ∀ a ∈ as, ∀ k, a.frame.answers? = some k → k = w.requests.length) :
    Phase w (as.foldl Router.receive r) ∧
      Fair (as.foldl Router.receive r).fates (d ++ as.filterMap (·.frame.message?))
        (as.foldl Router.receive r).expired := by
  induction as generalizing r d with
  | nil => simpa using ⟨hp, hfair⟩
  | cons a as ih =>
    have ha := hin a (by simp)
    have hla := hlast a (by simp)
    have hexp := (r.received a).expired
    obtain ⟨hp', hfair'⟩ := ih (hp.receive hr ha hla) (hfair.receive hp hr ha hla)
      { hr with prompt := by rw [hexp]; exact hr.prompt }
      (fun b hb => hin b (by simp [hb])) (fun b hb => hlast b (by simp [hb]))
    refine ⟨hp', ?_⟩
    rw [append_assoc] at hfair'
    cases hm : a.frame.message? <;> simpa [filterMap_cons, hm] using hfair'

/-! ## Moves of the link -/

/-- The frames read between two states of the link. -/
def consumed (w w' : Wire) : List Arrival := (w'.stream.drop w.read).take (w'.read - w.read)

section

variable {w w' : Wire}

theorem Moves.take_read (hm : Moves w w') (hw : w.WF) :
    w'.stream.take w'.read = w.stream.take w.read ++ consumed w w' := by
  obtain ⟨new, hs, -⟩ := hm.stream
  have hsplit : w'.read = w.read + (w'.read - w.read) := by have := hm.read; omega
  have htake : w'.stream.take w.read = w.stream.take w.read := by
    rw [hs, take_append_of_le_length hw.within]
  rw [hsplit, take_add, htake, consumed]

theorem Moves.delivered_eq (hm : Moves w w') (hw : w.WF) :
    w'.delivered = w.delivered ++ (consumed w w').filterMap (·.frame.message?) := by
  rw [Wire.delivered, hm.take_read hw, filterMap_append, Wire.delivered]

theorem foldl_receive (as : List Arrival) (r : Router) :
    (as.filterMap (·.frame.data?)).foldl Router.deliver r = as.foldl Router.receive r := by
  induction as generalizing r with
  | nil => rfl
  | cons a as ih =>
    cases hd : a.frame.data? <;> simp [hd, Router.receive, ih]

theorem Moves.deliver_new (hm : Moves w w') (hw : w.WF) (r : Router) :
    (w'.inbox.drop w.inbox.length).foldl Router.deliver r =
      (consumed w w').foldl Router.receive r := by
  have hinbox : w'.inbox = w.inbox ++ (consumed w w').filterMap (·.frame.data?) := by
    rw [Wire.inbox, hm.take_read hw, filterMap_append, Wire.inbox]
  rw [hinbox, drop_left, foldl_receive]

theorem Gone.not_arrives {k : ℕ} (hg : Gone w r k) {new : List Arrival}
    (hs : w'.stream = w.stream ++ new) (hnew : ∀ a ∈ new, w.clock ≤ a.time) (hr : Answering w' r) :
    ∀ a ∈ new, a.frame.answers? ≠ some k := by
  intro a ha hk
  rcases hg with ⟨b, hb, j, hj, hkj⟩ | ⟨t, ht, hlate⟩
  · have hord := hr.ordered
    rw [hs, filterMap_append] at hord
    have hlt := (pairwise_append.mp hord).2.2 j (mem_filterMap.mpr ⟨b, hb, hj⟩) k
      (mem_filterMap.mpr ⟨a, ha, hk⟩)
    omega
  · have := hr.prompt a (by rw [hs]; exact mem_append_right _ ha) k hk t ht
    have := hnew a ha
    omega

theorem Phase.answers_last (hp : Phase w r) (hu : Unread w) (hm : Moves w w') (hw : w.WF)
    (hr : Answering w' r) :
    ∀ a ∈ w'.stream.drop w.read, ∀ k, a.frame.answers? = some k → k = w.requests.length := by
  obtain ⟨new, hs, hnew⟩ := hm.stream
  intro a ha k hk
  rw [hs, drop_append_of_le_length hw.within] at ha
  rcases mem_append.mp ha with ha | ha
  · exact hu a ha k hk
  obtain ⟨h1, hle⟩ := hr.asked a (by rw [hs]; exact mem_append_right _ ha) k hk
  rw [(hnew a ha).2] at hle
  by_contra hne
  exact (hp.older k h1 (by omega)).not_arrives hs (fun b hb => (hnew b hb).1) hr a ha hk

theorem Moves.mem_stream (hm : Moves w w') (ha : a ∈ w.stream) : a ∈ w'.stream := by
  obtain ⟨new, hs, -⟩ := hm.stream
  rw [hs]
  exact mem_append_left _ ha

theorem Phase.move (hp : Phase w r) (hm : Moves w w') : Phase w' r := by
  have hgone : ∀ k, Gone w r k → Gone w' r k := fun k hk =>
    hk.mono (fun _ => hm.mem_stream) (fun _ h => h) hm.clock
  refine ⟨by rw [hm.requests]; exact hp.count, ?_, ?_, ?_⟩
  · intro k h1 hk
    rw [hm.requests] at hk
    exact hgone k (hp.older k h1 hk)
  · intro hwait
    rw [Owes, hm.requests]
    rcases hp.idle hwait with ⟨h0, hg⟩ | h1
    · exact .inl ⟨h0, fun h => hgone _ (hg h)⟩
    · exact .inr h1
  · intro hwait
    rw [Awaits, hm.requests]
    obtain ⟨h0, hgot⟩ := hp.awaiting hwait
    refine ⟨h0, fun hh => ?_⟩
    obtain ⟨a, ha, hrest⟩ := hgot hh
    exact ⟨a, hm.mem_stream ha, hrest⟩

theorem Phase.moveAll (hp : Phase w r) (hu : Unread w) (hfair : Fair r.fates w.delivered r.expired)
    (hm : Moves w w') (hw : w.WF) (hr : Answering w' r) :
    Phase w' ((consumed w w').foldl Router.receive r) ∧ Unread w' ∧
      Fair ((consumed w w').foldl Router.receive r).fates w'.delivered
        ((consumed w w').foldl Router.receive r).expired := by
  have hall := hp.answers_last hu hm hw hr
  rw [← hm.requests] at hall
  obtain ⟨hp', hfair'⟩ := (hp.move hm).receiveAll (consumed w w') hfair hr
    (fun a ha => mem_of_mem_drop (mem_of_mem_take ha))
    (fun a ha => hall a (mem_of_mem_take ha))
  rw [← hm.delivered_eq hw] at hfair'
  refine ⟨hp', ?_, hfair'⟩
  intro a ha
  refine hall a ?_
  have hsplit : w'.read = w.read + (w'.read - w.read) := by have := hm.read; omega
  rw [Wire.waiting, hsplit, ← drop_drop] at ha
  exact mem_of_mem_drop ha

end

end Q1n1.Pmic
