import Q1n1.Model.Pmic.Wire

/-! # What the calls of the link do to its frames -/

namespace Q1n1.Pmic

open Cut

/-- What was read has arrived, and what waits fits in one poll unless the link was ever crowded. -/
structure Wire.WF (w : Wire) : Prop where
  within : w.read ≤ w.stream.length
  roomy : w.crowded = false → w.stream.length ≤ w.read + framesPerPoll

/-- What can happen to the link as long as no request is published. -/
structure Moves (w w' : Wire) : Prop where
  requests : w'.requests = w.requests
  stream : ∃ new, w'.stream = w.stream ++ new ∧
    ∀ a ∈ new, w.clock ≤ a.time ∧ a.published = w.requests.length
  read : w.read ≤ w'.read
  clock : w.clock ≤ w'.clock
  crowded : w'.crowded = false → w.crowded = false
  failed : w.failed = true → w'.failed = true
  wf : w.WF → w'.WF

namespace Moves

variable {w w' w'' : Wire}

theorem refl (w : Wire) : Moves w w where
  requests := rfl
  stream := ⟨[], by simp⟩
  read := le_rfl
  clock := le_rfl
  crowded := id
  failed := id
  wf := id

theorem trans (h : Moves w w') (h' : Moves w' w'') : Moves w w'' where
  requests := h'.requests.trans h.requests
  stream := by
    obtain ⟨new, hs, hnew⟩ := h.stream
    obtain ⟨new', hs', hnew'⟩ := h'.stream
    refine ⟨new ++ new', by rw [hs', hs, List.append_assoc], ?_⟩
    intro a ha
    rcases List.mem_append.mp ha with ha | ha
    · exact hnew a ha
    · obtain ⟨htime, hpub⟩ := hnew' a ha
      exact ⟨h.clock.trans htime, by rw [hpub, h.requests]⟩
  read := h.read.trans h'.read
  clock := h.clock.trans h'.clock
  crowded := fun hc => h.crowded (h'.crowded hc)
  failed := fun hf => h'.failed (h.failed hf)
  wf := fun hw => h'.wf (h.wf hw)

theorem of_steps (h : Relation.ReflTransGen Moves w w') : Moves w w' := by
  induction h with
  | refl => exact refl w
  | tail _ hstep ih => exact ih.trans hstep

theorem length_le (h : Moves w w') : w.stream.length ≤ w'.stream.length := by
  obtain ⟨new, hs, -⟩ := h.stream
  rw [hs, List.length_append]
  exact Nat.le_add_right _ _

end Moves

theorem Wire.moves_turn (w : Wire) (t : Turn) : Moves w (w.turn t) where
  requests := rfl
  stream := by
    refine ⟨_, rfl, ?_⟩
    intro a ha
    obtain ⟨f, -, rfl⟩ := List.mem_map.mp ha
    exact ⟨le_max_left _ _, rfl⟩
  read := le_rfl
  clock := le_max_left _ _
  crowded := fun hc => (Bool.or_eq_false_iff.mp hc).1
  failed := id
  wf := by
    intro hw
    refine ⟨?_, ?_⟩
    · refine hw.within.trans ?_
      simp only [Wire.turn, List.length_append]
      exact Nat.le_add_right _ _
    · intro hc
      have hlen := of_decide_eq_false (Bool.or_eq_false_iff.mp hc).2
      simp only [Wire.turn] at hlen ⊢
      omega

variable {w : Wire}

theorem Wire.moves_take (h : w.read < w.stream.length) : Moves w w.take where
  requests := rfl
  stream := ⟨[], by simp [Wire.take]⟩
  read := Nat.le_succ _
  clock := le_rfl
  crowded := id
  failed := id
  wf := by
    intro hw
    refine ⟨h, ?_⟩
    intro hc
    have := hw.roomy hc
    simp only [Wire.take]
    omega

theorem Wire.moves_fail (w : Wire) : Moves w w.fail where
  requests := rfl
  stream := ⟨[], by simp [Wire.fail]⟩
  read := le_rfl
  clock := le_rfl
  crowded := id
  failed := fun _ => rfl
  wf := fun hw => ⟨hw.within, hw.roomy⟩

/-- A turn lets frames arrive and time pass. -/
structure World.Lawful (e : World) : Prop where
  moves : ∀ w, Moves w (e.turn w).2
  read : ∀ w, (e.turn w).2.read = w.read

theorem scheduled_lawful : scheduled.Lawful := by
  constructor
  · intro w
    simp only [scheduled]
    split
    · exact Moves.refl w
    · rename_i t rest _
      have h := w.moves_turn t
      exact { h with wf := fun hw => { h.wf hw with } }
  · intro w
    simp only [scheduled]
    split <;> rfl

/-! ## Calls -/

/-- What a poll that began at `w` returns: an error means that the link is lost, and a count that
every frame waiting at the start was handed over, unless it was a background poll. -/
structure Polled (servicing : Bool) (w : Wire) (r : Except LinkError ℕ) (w' : Wire) : Prop where
  moves : Moves w w'
  lost : ∀ x, r = .error x → w'.failed = true
  emptied : ∀ n, r = .ok n → servicing = false → w.crowded = false → w.stream.length ≤ w'.read

variable {servicing : Bool}

theorem Polled.of_failed {w' : Wire} {x : LinkError} (hm : Moves w w') (hf : w'.failed = true) :
    Polled servicing w (.error x) w' :=
  ⟨hm, fun _ _ => hf, fun _ h => (by cases h)⟩

theorem Polled.of_count {w' : Wire} {n : ℕ} (hm : Moves w w')
    (hread : servicing = false → w.crowded = false → w.stream.length ≤ w'.read) :
    Polled servicing w (.ok n) w' :=
  ⟨hm, fun _ h => (by cases h), fun _ _ => hread⟩

/-- A poll of frames that began at `w` stands where `limit` more suffice. -/
structure Polling (servicing : Bool) (w : Wire) (limit : ℕ) (w' : Wire) : Prop where
  moves : Moves w w'
  near : servicing = false → w.crowded = false → w.stream.length ≤ w'.read + limit

theorem Polling.turn {limit : ℕ} {s s' : Wire} (h : Polling servicing w limit s) (hm : Moves s s')
    (hread : s'.read = s.read) : Polling servicing w limit s' :=
  ⟨h.moves.trans hm, by rw [hread]; exact h.near⟩

theorem Polling.take {limit : ℕ} {s : Wire} (h : Polling servicing w (limit + 1) s)
    (hsome : s.read < s.stream.length) : Polling servicing w limit s.take := by
  refine ⟨h.moves.trans (Wire.moves_take hsome), ?_⟩
  intro hs hc
  have := h.near hs hc
  simp only [Wire.take]
  omega

/-- The way to a request's place in the FIFO, begun at `w`, has polled at least once. -/
structure Cleared (w w' : Wire) : Prop where
  moves : Moves w w'
  emptied : w'.crowded = false → w.stream.length ≤ w'.read

theorem Cleared.trans {s s' : Wire} (h : Cleared w s) (hm : Moves s s') : Cleared w s' :=
  ⟨h.moves.trans hm, fun hc => (h.emptied (hm.crowded hc)).trans hm.read⟩

/-- How a send that began at `w` ends, or is cut. Nothing is read once the request is out. -/
inductive Sent (w : Wire) (data : List UInt8) :
    Option (Except LinkError Unit) → Wire → Prop
  | unsent {r w'} : Moves w w' → r ≠ some (.ok ()) → Sent w data r w'
  | sent {s r w'} : Cleared w s → Moves (s.publish data) w' → w'.read = s.read →
      (∀ x, r = some (.error x) → w'.failed = true) → Sent w data r w'

namespace World.Lawful

variable {e : World} (he : e.Lawful) {α : Type}

include he

variable {P : Wire → Prop}

theorem does_turn {Q : Unit → Wire → Prop}
    (h : ∀ w w', P w → Moves w w' → w'.read = w.read → Q () w') : Does Moves P e.turn Q := by
  intro w hw
  exact ⟨.single (he.moves w), fun _ _ => h w _ hw (he.moves w) (he.read w)⟩

theorem does_breakIf {rest : Cut Wire (Except LinkError α)} {Q : Except LinkError α → Wire → Prop}
    (hP : ∀ w w', P w → Moves w w' → w'.read = w.read → P w')
    (hbreak : ∀ w, P w → Q (.error .failed) w.fail) (hrest : Does Moves P rest Q) :
    Does Moves P (e.breakIf rest) Q := by
  refine Does.bind (Q := fun _ w => P w) (he.does_turn hP) fun _ => ?_
  refine does_get_bind fun w hw => does_cond ?_ ?_
  · refine (does_modify (Q := fun _ s => Q (.error .failed) s)
      (fun s _ => s.moves_fail) ?_).bind fun _ => does_pure fun _ h => h
    rintro s rfl
    exact hbreak s hw
  · exact hrest.pre (by rintro s rfl; exact hw)

theorem does_now {Q : ℕ → Wire → Prop}
    (h : ∀ w w', P w → Moves w w' → w'.read = w.read → Q w'.clock w') : Does Moves P e.now Q := by
  refine Does.bind (Q := fun _ w' => Q w'.clock w') (he.does_turn h) fun _ => ?_
  exact does_gets fun _ hq => hq


theorem does_pollFrames (servicing : Bool) (w : Wire) (handled limit : ℕ) :
    Does Moves (Polling servicing w limit) (e.pollFrames servicing handled limit)
      (Polled servicing w) := by
  have hbreak : ∀ limit s, Polling servicing w limit s →
      Polled servicing w (.error .failed) s.fail := fun _ s hs =>
    Polled.of_failed (hs.moves.trans s.moves_fail) rfl
  induction limit generalizing handled with
  | zero => exact does_pure fun s hs => Polled.of_count hs.moves hs.near
  | succ limit ih =>
    refine he.does_breakIf (fun s s' hs => hs.turn) (hbreak _) ?_
    refine does_get_bind fun s hs => does_ite (fun hall => ?_) fun hsome => ?_
    · -- nothing waits: all that had arrived by the start is read
      refine does_pure ?_
      rintro _ rfl
      exact Polled.of_count hs.moves fun _ _ => hs.moves.length_le.trans hall
    refine does_ite (fun hstop => ?_) fun _ => ?_
    · refine does_pure ?_
      rintro _ rfl
      refine Polled.of_count hs.moves ?_
      intro hfalse
      rw [hfalse] at hstop
      exact absurd hstop.1 Bool.false_ne_true
    have hlt : s.read < s.stream.length := Nat.lt_of_not_le hsome
    refine Does.bind (Q := fun _ => Polling servicing w limit) ?_ fun _ =>
      he.does_breakIf (fun s s' hs => hs.turn) (hbreak _) (ih (handled + 1))
    refine does_modify ?_ ?_
    · rintro _ rfl
      exact Wire.moves_take hlt
    · rintro _ rfl
      exact hs.take hlt

theorem does_pollUpTo (servicing : Bool) (limit : ℕ) (hw : w.WF)
    (hlimit : servicing = false → limit = framesPerPoll) :
    Does Moves (fun s => s = w) (e.pollUpTo servicing limit) (Polled servicing w) := by
  refine does_get_bind ?_
  rintro a rfl
  refine does_ite (fun hf => does_pure ?_) fun _ => (he.does_pollFrames servicing a 0 limit).pre ?_
  · rintro _ rfl
    exact Polled.of_failed (Moves.refl _) hf
  · rintro _ rfl
    refine ⟨Moves.refl _, ?_⟩
    intro hs
    rw [hlimit hs]
    exact hw.roomy

theorem does_poll (hw : w.WF) : Does Moves (fun s => s = w) e.poll (Polled false w) :=
  he.does_pollUpTo false framesPerPoll hw fun _ => rfl

theorem does_poll_of (hP : ∀ s, P s → s.WF) :
    Does Moves P e.poll fun r s' => ∃ s, P s ∧ Polled false s r s' :=
  does_of_forall fun s hs => (he.does_poll (hP s hs)).post fun _ _ h => ⟨s, hs, h⟩

theorem does_awaitIntent (w : Wire) (deadline bound : ℕ) :
    Does Moves (fun s => s.WF ∧ Moves w s) (e.awaitIntent deadline bound)
      (fun r s => r = .ok () → Cleared w s) := by
  induction bound with
  | zero => exact does_stop
  | succ bound ih =>
    refine (he.does_poll_of fun s hs => hs.1).bind ?_
    rintro (x | n)
    · exact does_pure fun _ _ h => (by cases h)
    refine does_get_bind ?_
    rintro a ⟨s, hs, hpoll⟩
    have hclear : Cleared w a :=
      ⟨hs.2.trans hpoll.moves, fun hc =>
        hs.2.length_le.trans (hpoll.emptied n rfl rfl (hpoll.moves.crowded hc))⟩
    have hwf : a.WF := hpoll.moves.wf hs.1
    refine does_cond (does_pure fun _ _ h => (by cases h)) ?_
    refine does_cond (does_pure ?_) ?_
    · rintro _ rfl _
      exact hclear
    -- no intent yet: ask, and look again after a while
    refine Does.pre (P := fun s => s.WF ∧ Moves w s) ?_ (by
      rintro _ rfl
      exact ⟨hwf, hclear.moves⟩)
    have hkeep : ∀ s s', s.WF ∧ Moves w s → Moves s s' → s'.read = s.read →
        s'.WF ∧ Moves w s' := fun s s' hs hm _ => ⟨hm.wf hs.1, hs.2.trans hm⟩
    refine he.does_breakIf hkeep (fun _ _ h => by cases h) ?_
    refine Does.bind (Q := fun _ s => s.WF ∧ Moves w s) (he.does_now hkeep) fun time => ?_
    refine does_cond (does_pure fun _ _ h => (by cases h)) ?_
    exact Does.bind (Q := fun _ s => s.WF ∧ Moves w s) (he.does_turn hkeep) fun _ => ih

theorem does_awaitRoom (deadline bound : ℕ) :
    Does Moves Wire.WF (e.awaitRoom deadline bound) (fun _ _ => True) := by
  have hkeep : ∀ s s', Wire.WF s → Moves s s' → s'.read = s.read → Wire.WF s' :=
    fun s s' hs hm _ => hm.wf hs
  induction bound with
  | zero => exact does_stop
  | succ bound ih =>
    refine he.does_breakIf hkeep (fun _ _ => trivial) ?_
    refine does_get_bind fun s hs => does_cond (does_pure fun _ _ => trivial) ?_
    refine Does.pre (P := Wire.WF) ?_ (by rintro _ rfl; exact hs)
    refine Does.bind (Q := fun _ s => Wire.WF s) (he.does_now hkeep) fun time => ?_
    refine does_cond (does_pure fun _ _ => trivial) ?_
    refine (he.does_poll_of fun _ hs => hs).bind ?_
    rintro (x | n)
    · exact does_pure fun _ _ => trivial
    refine Does.bind (Q := fun _ s => Wire.WF s) ?_ fun _ => ih
    refine he.does_turn ?_
    rintro s s' ⟨s₀, hs₀, hpoll⟩ hm _
    exact hm.wf (hpoll.moves.wf hs₀)

theorem publish_sent (data : List UInt8) (w : Wire) :
    let result := e.publish data w
    Moves (w.publish data) result.2 ∧ result.2.read = w.read ∧
      ∀ x, result.1 = some (.error x) → result.2.failed = true := by
  have hm := he.moves (w.publish data)
  have hr := he.read (w.publish data)
  simp only [World.publish, World.breakIf, bind_apply, modify_apply]
  cases hturn : e.turn (w.publish data) with
  | mk r s =>
    rw [hturn] at hm hr
    cases r with
    | none => exact ⟨hm, hr, fun x hx => by cases hx⟩
    | some _ =>
      simp only [get_apply]
      split
      · exact ⟨hm.trans s.moves_fail, hr, fun _ _ => rfl⟩
      · exact ⟨hm, hr, fun x hx => by cases hx⟩

theorem send_sent (data : List UInt8) (deadline : ℕ) (hw : w.WF) :
    Sent w data (e.send data deadline w).1 (e.send data deadline w).2 := by
  simp only [World.send, bind_apply, get_apply]
  split
  · exact .unsent (Moves.refl w) (by simp)
  split
  · exact .unsent (Moves.refl w) (by simp)
  obtain ⟨hsteps, hclear⟩ := he.does_awaitIntent w deadline (e.rounds w + 1) w ⟨hw, Moves.refl w⟩
  rw [bind_apply]
  cases hintent : e.awaitIntent deadline (e.rounds w + 1) w with
  | mk r s =>
    rw [hintent] at hsteps hclear
    have hm : Moves w s := Moves.of_steps hsteps
    match r with
    | none => exact .unsent hm (by simp)
    | some (.error x) => exact .unsent hm (by simp)
    | some (.ok _) =>
      have hs : Cleared w s := hclear _ rfl rfl
      obtain ⟨hsteps', -⟩ := he.does_awaitRoom deadline (e.rounds s + 1) s (hm.wf hw)
      simp only [bind_apply, get_apply]
      cases hroom : e.awaitRoom deadline (e.rounds s + 1) s with
      | mk r' s' =>
        rw [hroom] at hsteps'
        have hs' : Cleared w s' := hs.trans (Moves.of_steps hsteps')
        match r' with
        | none => exact .unsent hs'.moves (by simp)
        | some (.error x) => exact .unsent hs'.moves (by simp)
        | some (.ok _) =>
          obtain ⟨hm', hread, hlost⟩ := he.publish_sent data s'
          exact .sent hs' hm' hread hlost

end World.Lawful

theorem World.send_ok {e : World} {data : List UInt8} {deadline : ℕ} {w₁ w₂ w₃ : Wire}
    (hup : ¬w.failed = true) (hopen : ¬w.last.closed = true)
    (hintent : e.awaitIntent deadline (e.rounds w + 1) w = (some (.ok ()), w₁))
    (hroom : e.awaitRoom deadline (e.rounds w₁ + 1) w₁ = (some (.ok ()), w₂))
    (hpublish : e.publish data w₂ = (some (.ok ()), w₃)) :
    e.send data deadline w = (some (.ok ()), w₃) := by
  rw [World.send, bind_of_some (get_apply _), if_neg hup, if_neg hopen, bind_of_some hintent]
  simp only []
  rw [bind_of_some (get_apply _), bind_of_some hroom]
  exact hpublish

def Router.prepared (r : Router) : Router :=
  { r with haveReply := false, replyLength := 0, waiting := false }

def Router.asked (r : Router) : Router := { r with waiting := true, requests := r.requests + 1 }

theorem sample_ok {σ ε : Type} {ops : LinkOps σ ε} {reg size deadline n : ℕ}
    {c c₁ c₂ c₃ c₄ c₅ : Client σ} {result : Except (Status ε) (List UInt8)}
    (hsize : ¬(size = 0 ∨ dataBytes < size)) (hpoll : onLink ops ops.poll c = (some (.ok n), c₁))
    (horphans : awaitOrphans ops deadline (ops.rounds c₁.link + 1) c₁ = (some .ok, c₂))
    (hsend : onLink ops (ops.send (requestFor reg size) deadline)
      { c₂ with router := c₂.router.prepared } = (some (.ok ()), c₃))
    (hreply : awaitReply ops deadline (ops.rounds c₃.link + 1)
      { c₃ with router := c₃.router.asked } = (some .ok, c₄))
    (htake : takeReply size c₄ = (some result, c₅)) :
    sample ops reg size deadline c = (some result, c₅) := by
  have hprepare : modifyRouter
      (fun r => { r with haveReply := false, replyLength := 0, waiting := false }) c₂ =
      (some (), { c₂ with router := c₂.router.prepared }) := rfl
  have hasked : modifyRouter (fun r => { r with waiting := true, requests := r.requests + 1 }) c₃ =
      (some (), { c₃ with router := c₃.router.asked }) := rfl
  rw [sample, if_neg hsize, bind_of_some hpoll]
  simp only []
  rw [bind_of_some (get_apply _), bind_of_some horphans]
  simp only [exchange]
  rw [bind_of_some hprepare, bind_of_some hsend]
  simp only []
  rw [bind_of_some hasked, bind_of_some (get_apply _), bind_of_some hreply]
  exact htake

end Q1n1.Pmic
