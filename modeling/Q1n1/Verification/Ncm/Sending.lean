import Q1n1.Verification.Ncm.Encoding

/-! # What a call does to the traffic of a link

Every call of `ncm_send`, `ncm_send_side`, `ncm_queue` and `ncm_flush` is a sequence of three
kinds of steps: a block of one frame, a frame into the batch, and the batch as one block. -/

namespace Q1n1.Ncm

/-- A session without what no block depends on. -/
structure Traffic where
  p : Params
  batch : Option Batch
  queued : List (List UInt8)
  flushed : List (Bool × List (List UInt8))
  emitted : List Emitted
  tally : Tally

def Link.traffic (n : Link) (y : Tally) : Traffic :=
  ⟨n.p, n.batch, n.queued, n.flushed, n.emitted, y⟩

def Session.traffic (s : Session) : Traffic := s.link.traffic s.tally

def singleBlock (p : Params) (sequence : ℕ) (out : Memory) (shortEnd : Bool)
    (frame : List UInt8) (done : Bool) : Emitted :=
  ⟨.single shortEnd frame, (frameNtb p sequence out frame shortEnd).load 0
    (frameTotal p frame.length shortEnd), done⟩

def batchBlock (p : Params) (sequence : ℕ) (b : Batch) (frames : List (List UInt8))
    (done : Bool) : Emitted :=
  ⟨.batch frames, (batchNtb p sequence b.buffer b.entries b.end_).load 0
    (batchTotal p b.end_ b.entries.length), done⟩

inductive Step : Traffic → Traffic → Prop where
  | single (t : Traffic) (sequence : ℕ) (out : Memory) (shortEnd : Bool) (frame : List UInt8)
      (done : Bool) :
      0 < frame.length → frame.length ≤ maxFrame →
      frameTotal t.p frame.length shortEnd ≤ t.p.ntbOutMax →
      Step t { t with
        emitted := t.emitted ++ [singleBlock t.p sequence out shortEnd frame done]
        tally := if done then t.tally.sent frame (!t.queued.isEmpty) else t.tally }
  | add (t : Traffic) (b : Batch) (frame : List UInt8) :
      t.batch = some b → 0 < frame.length → frame.length ≤ maxFrame →
      b.room t.p frame.length = true →
      Step t { t with
        batch := some (b.add t.p frame)
        queued := t.queued ++ [frame]
        tally := t.tally.queued frame }
  | flush (t : Traffic) (b : Batch) (sequence : ℕ) (buffer : Memory) (done : Bool) :
      t.batch = some b → b.entries ≠ [] →
      Step t { t with
        batch := some { b with buffer := buffer, entries := [], end_ := 0, bytes := 0 }
        queued := []
        flushed := t.flushed ++ [(done, t.queued)]
        emitted := t.emitted ++ [batchBlock t.p sequence b t.queued done] }

abbrev Steps : Traffic → Traffic → Prop := Relation.ReflTransGen Step

/-! ## Sending at once -/

/-- A frame was refused or its transfer failed, or it went out as a block of its own. -/
def SentOrRefused (n : Link) (frame : List UInt8) (r : Int × Link) : Prop :=
  (r.1 < 0 ∧ ∀ y, Steps (n.traffic y) (r.2.traffic y)) ∨
    (0 ≤ r.1 ∧ ∀ y, Step (n.traffic y) (r.2.traffic (y.sent frame (!n.queued.isEmpty))))

variable {frame : List UInt8} {n : Link}

theorem SentOrRefused.refused {n' : Link} {r : Int} (hr : r < 0)
    (h : ∀ y, n'.traffic y = n.traffic y) : SentOrRefused n frame (r, n') :=
  .inl ⟨hr, fun y => by rw [h]⟩

theorem frameRefused_some {capacity length : ℕ} {shortEnd : Bool} {r : Int × Link}
    (h : n.frameRefused capacity length shortEnd = some r) :
    r.1 < 0 ∧ ∀ y, r.2.traffic y = n.traffic y := by
  rw [Link.frameRefused] at h
  split_ifs at h
  all_goals
    obtain rfl := Option.some_inj.mp h
    exact ⟨by simp, fun _ => rfl⟩

theorem frameRefused_none {capacity length : ℕ} {shortEnd : Bool}
    (h : n.frameRefused capacity length shortEnd = none) :
    0 < length ∧ length ≤ maxFrame ∧ frameTotal n.p length shortEnd ≤ n.p.ntbOutMax := by
  rw [Link.frameRefused] at h
  split_ifs at h with h₁ h₂
  simp only [not_or] at h₁ h₂
  omega

theorem send_sentOrRefused (n : Link) (frame : List UInt8) (done : Bool) :
    SentOrRefused n frame (n.send frame done) := by
  rw [Link.send]
  cases hr : n.frameRefused outBufferBytes frame.length false with
  | some refused =>
    obtain ⟨hneg, htr⟩ := frameRefused_some hr
    exact .refused hneg htr
  | none =>
    obtain ⟨hpos, hmax, hfit⟩ := frameRefused_none hr
    have hstep (y : Tally) :=
      Step.single (n.traffic y) n.sequence n.outBuffer false frame done hpos hmax hfit
    cases done with
    | false => exact .inl ⟨(by decide : (-3 : Int) < 0), fun y => .single (hstep y)⟩
    | true => exact .inr ⟨Int.natCast_nonneg _, hstep⟩

theorem sendSide_sentOrRefused (n : Link) (frame : List UInt8) (ended : Int) (started : Bool) :
    SentOrRefused n frame (n.sendSide frame ended started) := by
  rw [Link.sendSide]
  cases n.side with
  | none => exact .refused (by decide : (-1 : Int) < 0) fun _ => rfl
  | some s =>
    dsimp only
    by_cases hattached : n.attached = false
    · rw [if_pos hattached]
      exact .refused (by decide) fun _ => rfl
    rw [if_neg hattached]
    by_cases hbusy : s.inflight ∧ ended = 0
    · rw [if_pos hbusy]
      exact .refused (by decide) fun _ => rfl
    rw [if_neg hbusy]
    -- Retiring the transfer before it touches only the statistics and the side buffer.
    generalize hn' : (if s.inflight ∧ ended < 0 then n.sendFailed else n) = n'
    have ht (y : Tally) : n'.traffic y = n.traffic y := by
      rw [← hn']
      split <;> rfl
    cases hr : Link.frameRefused { n' with side := some { s with inflight := false } } s.size
        frame.length true with
    | some refused =>
      obtain ⟨hneg, htr⟩ := frameRefused_some hr
      exact .refused hneg fun y => (htr y).trans (ht y)
    | none =>
      obtain ⟨hpos, hmax, hfit⟩ := frameRefused_none hr
      cases started with
      | false => exact .refused (by decide : (-3 : Int) < 0) ht
      | true =>
        have hq : n'.queued = n.queued := congrArg Traffic.queued (ht {})
        refine .inr ⟨Int.natCast_nonneg _, fun y => ?_⟩
        rw [← ht, ← hq]
        exact Step.single (n'.traffic y) n'.sequence s.buffer true frame true hpos hmax hfit

theorem flush_steps (n : Link) (done : Bool) (y : Tally) :
    Steps (n.traffic y) ((n.flush done).2.traffic y) := by
  rw [Link.flush]
  cases hb : n.batch with
  | none => exact .refl
  | some b =>
    dsimp only
    by_cases he : b.entries = []
    · rw [if_pos he]
    rw [if_neg he]
    have hstep := Step.flush (n.traffic y) b n.sequence
      (batchNtb n.p n.sequence b.buffer b.entries b.end_) done hb he
    cases done with
    | true => exact .single hstep
    | false => exact .single hstep

/-- A frame was refused or went into the batch, after the batch before it if need be. -/
def BatchedOrRefused (n : Link) (frame : List UInt8) (r : Int × Link) : Prop :=
  ∀ y, Steps (n.traffic y) (r.2.traffic (if 0 ≤ r.1 then y.queued frame else y))

theorem BatchedOrRefused.refused {n' : Link} {r : Int} (hr : r < 0)
    (h : ∀ y, Steps (n.traffic y) (n'.traffic y)) : BatchedOrRefused n frame (r, n') := by
  intro y
  rw [if_neg (by simpa using hr)]
  exact h y

theorem queueFrom_batchedOrRefused (n : Link) (hpos : 0 < frame.length)
    (hmax : frame.length ≤ maxFrame) (done : Bool) (attempts : ℕ) :
    BatchedOrRefused n frame (n.queueFrom frame done attempts) := by
  induction attempts generalizing n with
  | zero => exact .refused (by decide) fun _ => .refl
  | succ attempts ih =>
    rw [Link.queueFrom]
    cases hb : n.batch with
    | none => exact .refused (by decide : (-1 : Int) < 0) fun _ => .refl
    | some b =>
      dsimp only
      by_cases hroom : b.room n.p frame.length = true
      · rw [if_pos hroom]
        intro y
        rw [if_pos (Int.natCast_nonneg _)]
        exact .single (Step.add (n.traffic y) b frame hb hpos hmax hroom)
      rw [if_neg hroom]
      by_cases he : b.entries = []
      · rw [if_pos he]
        exact .refused (by decide) fun _ => .refl
      rw [if_neg he]
      by_cases hfail : (n.flush done).1 < 0
      · rw [if_pos hfail]
        exact .refused (by decide) (flush_steps n done)
      · rw [if_neg hfail]
        exact fun y => (flush_steps n done y).trans (ih _ _)

theorem SentOrRefused.steps {r : Int × Link} (h : SentOrRefused n frame r) (y : Tally) :
    Steps (n.traffic y)
      (r.2.traffic (if 0 ≤ r.1 then y.sent frame (!n.queued.isEmpty) else y)) := by
  rcases h with ⟨hr, ht⟩ | ⟨hr, hs⟩
  · rw [if_neg (by omega)]
    exact ht y
  · rw [if_pos hr]
    exact .single (hs y)

theorem step_steps (s : Session) (call : Call) : Steps s.traffic (s.step call).traffic := by
  cases call with
  | send frame done => exact (send_sentOrRefused s.link frame done).steps s.tally
  | sendSide frame ended started =>
    exact (sendSide_sentOrRefused s.link frame ended started).steps s.tally
  | flush done =>
    have ht : (s.step (.flush done)).tally = s.tally := ite_self _
    rw [Session.traffic, Session.traffic, ht]
    exact flush_steps s.link done s.tally
  | queue frame done =>
    cases hb : s.link.batch with
    | none =>
      have h := (send_sentOrRefused s.link frame done).steps s.tally
      simp only [Session.step, Session.traffic, Call.run, Call.tally, Link.queue, hb,
        Option.isNone_none, if_true]
      exact h
    | some b =>
      have h : BatchedOrRefused s.link frame (s.link.queue frame done) := by
        simp only [Link.queue, hb]
        by_cases hlen : s.link.attached = false ∨ frame.length = 0 ∨ maxFrame < frame.length
        · rw [if_pos hlen]
          exact .refused (by decide) fun _ => .refl
        · rw [if_neg hlen]
          simp only [not_or] at hlen
          exact queueFrom_batchedOrRefused s.link (by omega) (by omega) done 2
      simp only [Session.step, Session.traffic, Call.run, Call.tally, hb, Option.isNone_some,
        Bool.false_eq_true, if_false]
      exact h s.tally

theorem run_steps (s : Session) (calls : List Call) : Steps s.traffic (s.run calls).traffic := by
  induction calls generalizing s with
  | nil => exact .refl
  | cons call calls ih => exact (step_steps s call).trans (ih (s.step call))

end Q1n1.Ncm
