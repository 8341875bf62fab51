import Q1n1.Verification.Pmic.Calls

/-! # A healthy remote

From some moment on the remote answers at once every request it gets, and leaves room in its
FIFO. -/

namespace Q1n1.Pmic

open Cut Wire

def ownOf (as : List Arrival) : List (List UInt8) :=
  (as.filterMap (·.frame.data?)).filter fun data => Own data

theorem ownOf_append (as bs : List Arrival) : ownOf (as ++ bs) = ownOf as ++ ownOf bs := by
  rw [ownOf, List.filterMap_append, List.filter_append, ownOf, ownOf]

/-- How the remote answers: what it replies to a request, and the replies to earlier requests that
it still sends. -/
structure Remote where
  base : Wire
  answer : List UInt8 → List UInt8
  debts : List (List UInt8)

namespace Remote

variable (h : Remote)

def sent (w : Wire) : List (List UInt8) := ownOf (w.stream.drop h.base.stream.length)

def expected (w : Wire) : List (List UInt8) :=
  h.debts ++ (w.requests.drop h.base.requests.length).map h.answer

def due (w : Wire) : List (List UInt8) := (h.expected w).drop (h.sent w).length

end Remote

/-- A turn in which every call of the link can go on. -/
def Turn.Steady (t : Turn) : Prop :=
  t.breaks = false ∧ t.closed = false ∧ t.intent = true ∧ t.room = true

/-- A remote that answers within the time it is given: each turn brings what is due, and other
frames only as long as fewer than 256 would wait. -/
structure Healthy (h : Remote) (horizon : ℕ) (react : Wire → Turn) : Prop where
  steady : ∀ w, (react w).Steady
  prompt : ∀ w, (react w).now ≤ horizon
  answers : ∀ w, ((react w).frames.filterMap Frame.data?).filter (fun data => Own data) = h.due w
  modest : ∀ w, w.waiting.length + (react w).frames.length ≤
    max (w.waiting.length + (h.due w).length) 255

/-- The link in the company of a healthy remote. -/
structure Live (h : Remote) (horizon : ℕ) (w : Wire) : Prop where
  within : w.read ≤ w.stream.length
  up : w.failed = false
  clock : w.clock ≤ horizon
  stream : h.base.stream.length ≤ w.stream.length
  requests : h.base.requests.length ≤ w.requests.length
  sent : h.sent w <+: h.expected w
  room : w.waiting.length + (h.due w).length ≤ framesPerPoll

section

variable {h : Remote} {horizon : ℕ} {react : Wire → Turn} {w w' w'' : Wire}

theorem Wire.length_waiting (w : Wire) : w.waiting.length = w.stream.length - w.read :=
  List.length_drop

theorem Live.wf (hw : Live h horizon w) : w.WF := by
  refine ⟨hw.within, fun _ => ?_⟩
  have hroom := hw.room
  rw [length_waiting] at hroom
  omega

theorem Live.expected_eq (hw : Live h horizon w) : h.expected w = h.sent w ++ h.due w := by
  obtain ⟨rest, hrest⟩ := hw.sent
  rw [Remote.due, ← hrest, List.drop_left]

/-- What a stretch of turns and reads does to the link. -/
structure Runs (h : Remote) (horizon : ℕ) (w w' : Wire) : Prop where
  moves : Moves w w'
  live : Live h horizon w'
  due : h.due w' = []
  new : ownOf (w'.stream.drop w.stream.length) = h.due w
  steady : w'.last.Steady

theorem Runs.trans (hr : Runs h horizon w w') (hr' : Runs h horizon w' w'') :
    Runs h horizon w w'' := by
  refine ⟨hr.moves.trans hr'.moves, hr'.live, hr'.due, ?_, hr'.steady⟩
  obtain ⟨new, hs, -⟩ := hr.moves.stream
  obtain ⟨new', hs', -⟩ := hr'.moves.stream
  have h₁ := hr.new
  have h₂ := hr'.new
  rw [hs, List.drop_left] at h₁
  rw [hs', List.drop_left, hr.due] at h₂
  rw [hs', hs, List.append_assoc, List.drop_left, ownOf_append, h₁, h₂, List.append_nil]

theorem ownOf_frames (frames : List Frame) (time published : ℕ) :
    ownOf (frames.map fun f => ⟨f, time, published⟩) =
      (frames.filterMap Frame.data?).filter fun data => Own data := by
  rw [ownOf, List.filterMap_map]
  rfl

theorem Live.turn (hh : Healthy h horizon react) (hw : Live h horizon w) :
    Runs h horizon w (w.turn (react w)) ∧
      (w.turn (react w)).waiting.length ≤ max (w.waiting.length + (h.due w).length) 255 := by
  have hnew : ownOf ((w.turn (react w)).stream.drop w.stream.length) = h.due w := by
    rw [Wire.turn, List.drop_left, ownOf_frames]
    exact hh.answers w
  have hsent : h.sent (w.turn (react w)) = h.expected w := by
    rw [hw.expected_eq, ← hnew, Remote.sent, Remote.sent, ← ownOf_append, Wire.turn,
      List.drop_append_of_le_length hw.stream, List.drop_left]
  have hexp : h.expected (w.turn (react w)) = h.expected w := rfl
  have hdue : h.due (w.turn (react w)) = [] := by
    rw [Remote.due, hexp, hsent, List.drop_length]
  have hlen : (w.turn (react w)).waiting.length = w.waiting.length + (react w).frames.length := by
    have := hw.within
    rw [length_waiting, length_waiting]
    simp only [Wire.turn, List.length_append, List.length_map]
    omega
  have hle := hlen.le.trans (hh.modest w)
  have hm := w.moves_turn (react w)
  refine ⟨⟨hm, ?_, hdue, hnew, hh.steady w⟩, hle⟩
  refine ⟨hw.within.trans hm.length_le, hw.up, max_le hw.clock (hh.prompt w),
    hw.stream.trans hm.length_le, hw.requests, ?_, ?_⟩
  · exact ⟨[], by rw [List.append_nil, hsent, hexp]⟩
  · have hroom := hw.room
    rw [hdue, List.length_nil]
    simp only [framesPerPoll] at hroom ⊢
    omega

theorem Live.take (hw : Live h horizon w) (hdue : h.due w = []) (hs : w.last.Steady)
    (hsome : w.read < w.stream.length) :
    Runs h horizon w w.take ∧ w.take.waiting.length + 1 = w.waiting.length := by
  have hlen : w.take.waiting.length + 1 = w.waiting.length := by
    rw [length_waiting, length_waiting]
    simp only [Wire.take]
    omega
  have hroom := hw.room
  refine ⟨⟨moves_take hsome, ⟨hsome, hw.up, hw.clock, hw.stream, hw.requests, hw.sent, ?_⟩,
    hdue, ?_, hs⟩, hlen⟩
  · change w.take.waiting.length + (h.due w).length ≤ framesPerPoll
    omega
  · rw [hdue]
    simp [Wire.take, ownOf]

theorem reacting_breakIf {rounds : ℕ} {α : Type} {m : Cut Wire (Except LinkError α)}
    (hh : Healthy h horizon react) (w : Wire) :
    (reacting react rounds).breakIf m w = m (w.turn (react w)) := by
  have hbreaks : (react w).breaks = false := (hh.steady w).1
  simp [World.breakIf, reacting, bind_apply, Wire.turn, hbreaks]

theorem pollFrames_returns (rounds : ℕ) (hh : Healthy h horizon react) (limit handled : ℕ)
    (hw : Live h horizon w) :
    ∃ n w', (reacting react rounds).pollFrames false handled (limit + 1) w = (some (.ok n), w') ∧
      Runs h horizon w w' ∧ w'.waiting.length ≤ 255 ∧
      (w'.stream.length ≤ w'.read ∨ w'.read = w.read + (limit + 1)) := by
  induction limit generalizing w handled with
  | zero =>
    obtain ⟨hturn, hlen⟩ := hw.turn hh
    rw [World.pollFrames, reacting_breakIf hh, bind_of_some (get_apply _)]
    split
    · rename_i hall
      refine ⟨_, _, rfl, hturn, ?_, .inl hall⟩
      rw [length_waiting]
      omega
    · rename_i hsome
      obtain ⟨htake, hone⟩ := hturn.live.take hturn.due hturn.steady (Nat.lt_of_not_le hsome)
      obtain ⟨hturn', hlen'⟩ := htake.live.turn hh
      have hroom := hturn.live.room
      simp only [Bool.false_eq_true, false_and, if_false]
      rw [bind_of_some (modify_apply _ _), reacting_breakIf hh]
      refine ⟨_, _, rfl, (hturn.trans htake).trans hturn', ?_, .inr rfl⟩
      rw [htake.due] at hlen'
      simp only [framesPerPoll, List.length_nil] at hroom hlen'
      omega
  | succ limit ih =>
    obtain ⟨hturn, hlen⟩ := hw.turn hh
    rw [World.pollFrames, reacting_breakIf hh, bind_of_some (get_apply _)]
    split
    · rename_i hall
      refine ⟨_, _, rfl, hturn, ?_, .inl hall⟩
      rw [length_waiting]
      omega
    · rename_i hsome
      obtain ⟨htake, -⟩ := hturn.live.take hturn.due hturn.steady (Nat.lt_of_not_le hsome)
      obtain ⟨hturn', -⟩ := htake.live.turn hh
      simp only [Bool.false_eq_true, false_and, if_false]
      rw [bind_of_some (modify_apply _ _), reacting_breakIf hh]
      obtain ⟨n, w', heq, hruns, hroom, hend⟩ := ih (handled + 1) hturn'.live
      refine ⟨n, w', heq, ((hturn.trans htake).trans hturn').trans hruns, hroom, ?_⟩
      rcases hend with hend | hend
      · exact .inl hend
      · refine .inr (hend.trans ?_)
        simp only [Wire.turn, Wire.take]
        omega

theorem poll_returns (rounds : ℕ) (hh : Healthy h horizon react) (hw : Live h horizon w) :
    ∃ n w', (reacting react rounds).poll w = (some (.ok n), w') ∧ Runs h horizon w w' ∧
      w'.waiting.length ≤ 255 ∧ w.stream.length ≤ w'.read := by
  obtain ⟨n, w', heq, hruns, hroom, hend⟩ := pollFrames_returns rounds hh 255 0 hw
  have hup : ¬w.failed = true := by rw [hw.up]; exact Bool.false_ne_true
  refine ⟨n, w', ?_, hruns, hroom, ?_⟩
  · rw [World.poll, World.pollUpTo, bind_of_some (get_apply _), if_neg hup]
    exact heq
  · rcases hend with hend | hend
    · exact hruns.moves.length_le.trans hend
    · have hroom := hw.room
      rw [length_waiting] at hroom
      simp only [framesPerPoll] at hroom
      omega

end

end Q1n1.Pmic
