import Q1n1.Model.CallService.Service

/-! # The stop latch between two arms -/

namespace Q1n1.CallService

open List

structure Latch where
  nonce : ℕ
  reason : ℕ
  delay : ℕ
  ticks : ℕ
  text : List ℕ
  deriving DecidableEq

def CallState.latch (s : CallState) : Option Latch :=
  if s.latched then some ⟨s.latchNonce, s.latchReason, s.latchDelay, s.latchTicks, s.text⟩
  else none

def StopRequest.latch (r : StopRequest) (now : ℕ) : Latch :=
  ⟨r.nonce, r.reason, r.delay, now, r.text⟩

def Latch.copy (l : Latch) (session : ℕ) : StopLatch where
  magic := stopLatchMagic
  session := session
  nonce := l.nonce
  reason := l.reason
  delayS := l.delay
  latchedTicks := l.ticks
  text := l.text

abbrev Service.latch (t : Service) : Option Latch := t.call.latch

/-! ## What one action can do -/

/-- The session, the latch and its delivery are the same in both records. -/
structure CallState.SameLatch (s s' : CallState) : Prop where
  session : s'.session = s.session
  latch : s'.latch = s.latch
  taken : s'.taken = s.taken

variable (s : CallState)

theorem CallState.SameLatch.refl : s.SameLatch s := ⟨rfl, rfl, rfl⟩

theorem CallState.SameLatch.trans {s₁ s₂ s₃ : CallState} (h : s₁.SameLatch s₂)
    (h' : s₂.SameLatch s₃) : s₁.SameLatch s₃ :=
  ⟨h'.session.trans h.session, h'.latch.trans h.latch, h'.taken.trans h.taken⟩

theorem View.serve_sameLatch (v : View) (m : Memory) (s : CallState) (r : ConsoleRequest)
    (capacity : ℕ) : s.SameLatch (v.serve m s r capacity).1 := by
  simp only [View.serve]
  split
  · exact ⟨rfl, rfl, rfl⟩
  · exact ⟨rfl, rfl, rfl⟩

namespace CallState

theorem consoleDatagram_sameLatch (shown : Bool) (v : View) (m : Memory)
    (data : List UInt8) (capacity : ℕ) :
    s.SameLatch (s.consoleDatagram shown v m data capacity).1 := by
  have hcount : s.SameLatch { s with datagrams := bump s.datagrams } := ⟨rfl, rfl, rfl⟩
  refine hcount.trans ?_
  simp only [consoleDatagram]
  split
  · exact ⟨rfl, rfl, rfl⟩
  · split
    · exact ⟨rfl, rfl, rfl⟩
    · split
      · exact ⟨rfl, rfl, rfl⟩
      · exact v.serve_sameLatch m _ _ capacity

/-- A stop datagram that the source lets through all its checks. -/
structure Accepts (s : CallState) (data : List UInt8) : Prop where
  known : stopForeign data = false
  formed : stopMalformed data = false
  stop : (stopRequest data).op ≠ stopQuery
  status : s.stopStatus (stopRequest data) = 0
  replaces : s.holds (stopRequest data) = false

theorem stopDatagram_cases (data : List UInt8) (now : ℕ) : s.SameLatch (s.stopDatagram data now).1 ∨
      s.Accepts data ∧ (s.stopDatagram data now).1.session = s.session ∧
        (s.stopDatagram data now).1.latch = some ((stopRequest data).latch now) ∧
        (s.stopDatagram data now).1.taken = false := by
  simp only [stopDatagram]
  split
  · exact .inl ⟨rfl, rfl, rfl⟩
  · rename_i hforeign
    split
    · exact .inl ⟨rfl, rfl, rfl⟩
    · rename_i hformed
      split
      · exact .inl ⟨rfl, rfl, rfl⟩
      · rename_i hquery
        simp only [stopStopped]
        split
        · exact .inl ⟨rfl, rfl, rfl⟩
        · rename_i hstatus
          split
          · exact .inl ⟨rfl, rfl, rfl⟩
          · rename_i hholds
            refine .inr ⟨⟨?_, ?_, hquery, ?_, ?_⟩, rfl, rfl, rfl⟩
            · simpa using hforeign
            · simpa using hformed
            · exact not_not.mp hstatus
            · exact Bool.eq_false_iff.mpr hholds

theorem take_cases (out : Option ℕ) : (s.SameLatch (s.take out).1 ∧ (s.take out).2.2 = none) ∨
      ∃ l, s.latch = some l ∧ s.taken = false ∧ (s.take out).1.session = s.session ∧
        (s.take out).1.latch = s.latch ∧ (s.take out).1.taken = true ∧
        (s.take out).2.2 = some (l.copy s.session) := by
  simp only [take]
  split
  · exact .inl ⟨.refl s, rfl⟩
  · rename_i hready
    split
    · exact .inl ⟨.refl s, rfl⟩
    · simp only [Bool.or_eq_true, Bool.not_eq_true', not_or, Bool.not_eq_false,
        Bool.not_eq_true] at hready
      refine .inr ⟨⟨s.latchNonce, s.latchReason, s.latchDelay, s.latchTicks, s.text⟩, ?_,
        hready.2, rfl, rfl, rfl, rfl⟩
      simp [latch, hready.1.2]

end CallState

/-- All that an action other than an arm can do to the latch. -/
inductive Moves (t : Service) (a : Action) : Prop where
  | stays (same : t.call.SameLatch (t.step a).call) (none : (t.step a).delivered = t.delivered)
  | latches (data : List UInt8) (now : ℕ) (action : a = .datagram data now)
      (notConsole : consoleRequest data = false) (accepts : t.call.Accepts data)
      (session : (t.step a).call.session = t.call.session)
      (latch : (t.step a).latch = some ((stopRequest data).latch now))
      (taken : (t.step a).call.taken = false) (none : (t.step a).delivered = t.delivered)
  | delivers (l : Latch) (held : t.latch = some l) (fresh : t.call.taken = false)
      (session : (t.step a).call.session = t.call.session)
      (latch : (t.step a).latch = t.latch) (taken : (t.step a).call.taken = true)
      (one : (t.step a).delivered = t.delivered ++ [l.copy t.call.session])

/-- The action is no arm, or one that is refused for its session. -/
def Action.NoArm (a : Action) : Prop := ∀ session, a = .arm session → session = 0

variable {a : Action}

namespace Service

theorem step_moves (t : Service) (h : a.NoArm) : Moves t a := by
  cases a with
  | arm session =>
    obtain rfl := h session rfl
    exact .stays (.refl _) rfl
  | disarm => exact .stays ⟨rfl, rfl, rfl⟩ rfl
  | openPoll setup memory =>
    cases setup with
    | none => exact .stays ⟨rfl, rfl, rfl⟩ rfl
    | some setup => exact .stays ⟨rfl, rfl, rfl⟩ rfl
  | datagram data now =>
    by_cases hc : consoleRequest data = true
    · refine .stays ?_ ?_
      · simpa [step, stopPort, hc] using
          t.call.consoleDatagram_sameLatch t.shown t.view t.memory data sideReplyMax
      · simp [step, stopPort, hc]
    · rw [Bool.not_eq_true] at hc
      have hcall : (t.step (.datagram data now)).call = (t.call.stopDatagram data now).1 := by
        simp [step, stopPort, hc]
      have hdelivered : (t.step (.datagram data now)).delivered = t.delivered := by
        simp [step, stopPort, hc]
      rcases t.call.stopDatagram_cases data now with hsame | ⟨haccepts, hs, hl, htaken⟩
      · exact .stays (hcall ▸ hsame) hdelivered
      · exact .latches data now rfl hc haccepts (hcall ▸ hs)
          ((congrArg CallState.latch hcall).trans hl) (hcall ▸ htaken) hdelivered
  | closePoll out =>
    rcases t.call.take_cases out with ⟨hsame, hnone⟩ | ⟨l, hl, hfresh, hs, hlatch, htaken, hone⟩
    · refine .stays hsame ?_
      simp [step, endPoll, hnone]
    · refine .delivers l hl hfresh hs hlatch htaken ?_
      simp [step, endPoll, hone]
  | recover => exact .stays ⟨rfl, rfl, rfl⟩ rfl
  | callStats replies replyFailures droppedProxy => exact .stays ⟨rfl, rfl, rfl⟩ rfl

end Service

variable {data : List UInt8}

theorem CallState.Accepts.of_latch {s : CallState} {l : Latch} (h : s.Accepts data)
    (hl : s.latch = some l) :
    l.delay ≠ 0 ∧ (stopRequest data).delay = 0 ∧ (stopRequest data).nonce ≠ l.nonce := by
  have hlatched : s.latched = true := by
    by_contra hno
    simp [CallState.latch, hno] at hl
  simp only [CallState.latch, hlatched, if_true, Option.some.injEq] at hl
  subst hl
  simpa [CallState.holds, hlatched, and_assoc, and_comm, and_left_comm] using h.replaces

variable {t : Service}

/-- The latch changes only from empty to a request, or from a delayed request to an immediate
one with another nonce. -/
theorem Moves.latch_cases (h : Moves t a) :
    (t.step a).latch = t.latch ∨ (t.latch = none ∧ (t.step a).latch ≠ none) ∨
      ∃ l l', t.latch = some l ∧ (t.step a).latch = some l' ∧ l.delay ≠ 0 ∧ l'.delay = 0 ∧
        l'.nonce ≠ l.nonce := by
  cases h with
  | stays same _ => exact .inl same.latch
  | latches data now _ _ accepts _ latch _ _ =>
    right
    cases hl : t.latch with
    | none => exact .inl ⟨rfl, by simp [latch]⟩
    | some l =>
      obtain ⟨hdelay, hzero, hnonce⟩ := accepts.of_latch hl
      exact .inr ⟨l, _, rfl, latch, hdelay, hzero, hnonce⟩
  | delivers _ _ _ _ latch _ _ => exact .inl latch

theorem Moves.immediate {l : Latch} (h : Moves t a) (hl : t.latch = some l) (hzero : l.delay = 0) :
    (t.step a).latch = some l := by
  rcases h.latch_cases with hsame | ⟨hnone, -⟩ | ⟨l', _, hl', -, hdelay, -⟩
  · exact hsame.trans hl
  · simp [hl] at hnone
  · rw [hl, Option.some.injEq] at hl'
    exact absurd (hl' ▸ hzero) hdelay

theorem Service.datagram_latch (t : Service) (now : ℕ)
    (h : consoleRequest data = true ∨ ¬t.call.Accepts data) :
    (t.step (.datagram data now)).latch = t.latch := by
  have hmoves : Moves t (.datagram data now) := t.step_moves (by intro _ h; cases h)
  cases hmoves with
  | stays same _ => exact same.latch
  | latches _ _ action notConsole accepts _ _ _ _ =>
    cases action
    rcases h with hconsole | hno
    · simp [hconsole] at notConsole
    · exact absurd accepts hno
  | delivers _ _ _ _ latch _ _ => exact latch

/-! ## Runs -/

def Service.latchChanges : List Action → Service → ℕ
  | [], _ => 0
  | a :: actions, t =>
    (if (t.step a).latch = t.latch then 0 else 1) + latchChanges actions (t.step a)

/-- How many changes a content can still see. -/
def latchRank : Option Latch → ℕ
  | none => 2
  | some l => if l.delay = 0 then 0 else 1

theorem latchRank_le (l : Option Latch) : latchRank l ≤ 2 := by
  cases l with
  | none => simp [latchRank]
  | some l =>
    simp only [latchRank]
    split <;> omega

theorem Moves.latchRank (h : Moves t a) :
    (if (t.step a).latch = t.latch then 0 else 1) + latchRank (t.step a).latch ≤
      latchRank t.latch := by
  rcases h.latch_cases with hsame | ⟨hnone, hsome⟩ | ⟨l, l', hl, hl', hdelay, hzero, -⟩
  · simp [hsame]
  · obtain ⟨l', hl'⟩ := Option.ne_none_iff_exists'.mp hsome
    simp only [hnone, hl', CallService.latchRank]
    split <;> split <;> omega
  · simp only [hl, hl', CallService.latchRank, hdelay, hzero]
    split <;> simp

theorem Service.latchChanges_le (actions : List Action) (t : Service) (h : ∀ a ∈ actions, a.NoArm) :
    t.latchChanges actions + latchRank (t.run actions).latch ≤ latchRank t.latch := by
  induction actions generalizing t with
  | nil => simp [latchChanges]
  | cons a actions ih =>
    have hstep := (t.step_moves (h a mem_cons_self)).latchRank
    have hrest := ih (t.step a) fun b hb => h b (mem_cons_of_mem a hb)
    simp only [latchChanges, Service.run_cons]
    omega

/-- What the takes since the arm have delivered, by the latch and whether it was taken. -/
def Service.HandedOut (t : Service) (new : List StopLatch) : Prop :=
  match t.latch with
  | none => new = []
  | some l =>
    ∃ earlier, new = earlier ++ (if t.call.taken then [l.copy t.call.session] else []) ∧
      (earlier = [] ∨ ∃ l', l'.delay ≠ 0 ∧ l.delay = 0 ∧ earlier = [Latch.copy l' t.call.session])

variable {new : List StopLatch}

theorem Service.HandedOut.step (h : t.HandedOut new) (hmoves : Moves t a) :
    ∃ more, (t.step a).delivered = t.delivered ++ more ∧ (t.step a).HandedOut (new ++ more) := by
  cases hmoves with
  | stays same none =>
    refine ⟨[], by simpa using none, ?_⟩
    simpa only [HandedOut, Service.latch, same.latch, same.session, same.taken, append_nil] using h
  | latches data now _ _ accepts session latch taken none =>
    refine ⟨[], by simpa using none, ?_⟩
    simp only [HandedOut, latch, session, taken, append_nil, Bool.false_eq_true, if_false]
    refine ⟨new, rfl, ?_⟩
    cases hl : t.latch with
    | none =>
      rw [HandedOut, hl] at h
      exact .inl h
    | some l =>
      -- The request replaces a delayed latch, so no immediate one was handed out before.
      obtain ⟨hdelay, hzero, -⟩ := accepts.of_latch hl
      rw [HandedOut, hl] at h
      obtain ⟨earlier, rfl, rfl | ⟨l', -, hzero', -⟩⟩ := h
      · by_cases htaken : t.call.taken = true
        · exact .inr ⟨l, hdelay, hzero, by simp [htaken]⟩
        · exact .inl (by simp [htaken])
      · exact absurd hzero' hdelay
  | delivers l held fresh session latch taken one =>
    refine ⟨_, one, ?_⟩
    rw [HandedOut, held] at h
    obtain ⟨earlier, rfl, hearlier⟩ := h
    simp only [HandedOut, latch, held, session, taken, fresh, Bool.false_eq_true, if_false,
      if_true, append_nil]
    exact ⟨earlier, rfl, hearlier⟩

theorem Service.HandedOut.run (actions : List Action) (h : t.HandedOut new)
    (hno : ∀ a ∈ actions, a.NoArm) :
    ∃ more, (t.run actions).delivered = t.delivered ++ more ∧
      (t.run actions).HandedOut (new ++ more) := by
  induction actions generalizing t new with
  | nil => exact ⟨[], by simp, by simpa using h⟩
  | cons a actions ih =>
    obtain ⟨first, hfirst, hnew⟩ := h.step (t.step_moves (hno a mem_cons_self))
    obtain ⟨more, hmore, hlast⟩ := ih hnew fun b hb => hno b (mem_cons_of_mem a hb)
    refine ⟨first ++ more, ?_, ?_⟩
    · rw [Service.run_cons, hmore, hfirst, append_assoc]
    · rwa [Service.run_cons, ← append_assoc]

theorem Service.HandedOut.bounded (h : t.HandedOut new) :
    new.Nodup ∧ new.length ≤ 2 ∧ ∀ a b, new = [a, b] → b.delayS = 0 := by
  cases hl : t.latch with
  | none =>
    rw [HandedOut, hl] at h
    simp [h]
  | some l =>
    rw [HandedOut, hl] at h
    obtain ⟨earlier, rfl, rfl | ⟨l', hdelay, hzero, rfl⟩⟩ := h
    · cases t.call.taken <;> simp
    · cases t.call.taken with
      | false => simp
      | true =>
        have hne : l'.copy t.call.session ≠ l.copy t.call.session := by
          intro heq
          have hd : l'.delay = l.delay := congrArg StopLatch.delayS heq
          omega
        refine ⟨by simpa using hne, by simp, ?_⟩
        rintro a b heq
        simp only [if_true, cons_append, nil_append, List.cons.injEq] at heq
        rw [← heq.2.1]
        exact hzero

/-- What the latch does over the actions that follow an arm. At each action `before` is what
led up to it. -/
structure LatchSpec (t : Service) (actions : List Action) : Prop where
  changes : t.latchChanges actions ≤ 2
  change : ∀ before a after, actions = before ++ a :: after →
    ((t.run before).step a).latch ≠ (t.run before).latch →
    ((t.run before).latch = none ∧ ((t.run before).step a).latch ≠ none) ∨
      ∃ l l', (t.run before).latch = some l ∧ ((t.run before).step a).latch = some l' ∧
        l.delay ≠ 0 ∧ l'.delay = 0 ∧ l'.nonce ≠ l.nonce
  immediate : ∀ before a after l, actions = before ++ a :: after →
    (t.run before).latch = some l → l.delay = 0 → ((t.run before).step a).latch = some l
  retry : ∀ before data now after l, actions = before ++ .datagram data now :: after →
    (t.run before).latch = some l → (stopRequest data).nonce = l.nonce →
    ((t.run before).step (.datagram data now)).latch = some l
  unfit : ∀ before data now after, actions = before ++ .datagram data now :: after →
    (consoleRequest data = true ∨ stopForeign data = true ∨ stopMalformed data = true ∨
      (t.run before).call.armed = false ∨
      (stopRequest data).session ≠ (t.run before).call.session ∨
      (stopRequest data).reason = 0 ∨ stopReasonMax < (stopRequest data).reason ∨
      stopDelayLimit < (stopRequest data).delay) →
    ((t.run before).step (.datagram data now)).latch = (t.run before).latch
  take : ∀ before a after, actions = before ++ a :: after →
    ((t.run before).step a).delivered = (t.run before).delivered ∨
      ∃ l, (t.run before).latch = some l ∧ ((t.run before).step a).delivered =
        (t.run before).delivered ++ [l.copy (t.run before).call.session]
  delivered : ∃ new, (t.run actions).delivered = t.delivered ++ new ∧ new.Nodup ∧
    new.length ≤ 2 ∧ ∀ a b, new = [a, b] → b.delayS = 0

theorem CallState.Accepts.in_range {s : CallState} (h : s.Accepts data) :
    s.armed = true ∧ (stopRequest data).session = s.session ∧ (stopRequest data).reason ≠ 0 ∧
      (stopRequest data).reason ≤ stopReasonMax ∧ (stopRequest data).delay ≤ stopDelayLimit := by
  have hstatus := h.status
  simp only [CallState.stopStatus] at hstatus
  split at hstatus
  · simp [stopENotArmed] at hstatus
  · rename_i harmed
    split at hstatus
    · simp [stopESession] at hstatus
    · rename_i hsession
      split at hstatus
      · simp [stopEReason] at hstatus
      · rename_i hreason
        split at hstatus
        · simp [stopEDelay] at hstatus
        · rename_i hdelay
          refine ⟨by simpa using harmed, not_not.mp hsession, ?_, ?_, ?_⟩ <;> omega

theorem Service.arm_latch (t : Service) {session : ℕ} (h : session ≠ 0) :
    (t.step (.arm session)).latch = none := by
  simp [Service.step, CallState.arm, h, CallState.latch]

/-- Between two arms the latch changes at most twice and is handed out at most twice. -/
theorem Service.run_latchSpec (t : Service) (session : ℕ) (actions : List Action)
    (hsession : session ≠ 0) (hno : ∀ a ∈ actions, a.NoArm) :
    LatchSpec (t.step (.arm session)) actions := by
  have harmed := t.arm_latch hsession
  generalize t.step (.arm session) = u at harmed ⊢
  have hmoves : ∀ before a after, actions = before ++ a :: after → Moves (u.run before) a := by
    intro before a after heq
    exact Service.step_moves _ (hno a (by simp [heq]))
  refine ⟨?_, ?_, ?_, ?_, ?_, ?_, ?_⟩
  · have h := u.latchChanges_le actions hno
    have hrank := latchRank_le u.latch
    omega
  · intro before a after heq hchange
    exact (hmoves before a after heq).latch_cases.resolve_left hchange
  · intro before a after l heq hl hzero
    exact (hmoves before a after heq).immediate hl hzero
  · intro before data now after l heq hl hnonce
    rw [← hl]
    apply Service.datagram_latch
    exact .inr fun haccepts => (haccepts.of_latch hl).2.2 hnonce
  · intro before data now after heq hunfit
    apply Service.datagram_latch
    rcases hunfit with hconsole | hrest
    · exact .inl hconsole
    · refine .inr fun haccepts => ?_
      obtain ⟨harmed, hs, hreason, hmax, hdelay⟩ := haccepts.in_range
      simp only [haccepts.known, haccepts.formed, harmed] at hrest
      simp at hrest
      omega
  · intro before a after heq
    cases hmoves before a after heq with
    | stays _ none => exact .inl none
    | latches _ _ _ _ _ _ _ _ none => exact .inl none
    | delivers l held _ _ _ _ one => exact .inr ⟨l, held, one⟩
  · have hstart : u.HandedOut [] := by simp [HandedOut, harmed]
    obtain ⟨new, hnew, hout⟩ := hstart.run actions hno
    exact ⟨new, hnew, hout.bounded⟩

def StopRequest.bytes (r : StopRequest) : List UInt8 :=
  let head := Bytes.putLe 4 stopRequestMagic ++ Bytes.putLe 2 stopVersion ++
    Bytes.putLe 2 r.op ++ Bytes.putLe 8 r.nonce ++ Bytes.putLe 8 r.session ++
    Bytes.putLe 4 r.reason ++ Bytes.putLe 4 r.delay ++ r.text.flatMap (Bytes.putLe 8)
  head ++ Bytes.putLe 4 (crc32 head) ++ Bytes.putLe 4 0

/-- A delayed request, a retry of it, and an immediate one that replaces it after delivery. -/
def stopTwice : List Action :=
  let delayed : StopRequest := ⟨stopStop, 5, 7, 1, 30, List.replicate 8 0⟩
  let immediate : StopRequest := ⟨stopStop, 6, 7, 1, 0, List.replicate 8 0⟩
  [.datagram delayed.bytes 100, .datagram delayed.bytes 101, .closePoll (some 112),
    .datagram immediate.bytes 102, .closePoll (some 112), .closePoll (some 112), .disarm]

def idleService : Service where
  call := callInit
  view := { outBase := 0, outSize := 0, outProduced := 0, inBase := 0, inSize := 0, inRoom := 0 }
  memory := fun _ => 0

theorem Service.run_latchSpec_stopTwice : LatchSpec (idleService.step (.arm 7)) stopTwice ∧
      (idleService.step (.arm 7)).latchChanges stopTwice = 2 ∧
      ((idleService.step (.arm 7)).run stopTwice).delivered.map StopLatch.delayS = [30, 0] := by
  refine ⟨Service.run_latchSpec idleService 7 stopTwice (by decide) ?_, ?_, ?_⟩
  · intro a ha session h
    simp [stopTwice, h] at ha
  · decide +kernel
  · decide +kernel

end Q1n1.CallService
