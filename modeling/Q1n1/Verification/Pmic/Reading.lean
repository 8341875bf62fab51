import Q1n1.Verification.Pmic.Healthy
import Q1n1.Verification.Pmic.Pairing

/-! # A healthy remote yields a reading

Unless the last value read happens to be the one that comes first, which then counts as stale. -/

namespace Q1n1.Pmic

open Bytes Cut List Router

/-! ## What the router hears -/

/-- Routers that differ in their counters and logs only. -/
structure Router.Same (r r' : Router) : Prop where
  reply : r'.reply = r.reply
  replyLength : r'.replyLength = r.replyLength
  haveReply : r'.haveReply = r.haveReply
  waiting : r'.waiting = r.waiting
  orphans : r'.orphans = r.orphans
  since : r'.orphanSinceUs = r.orphanSinceUs
  previous : r'.previous = r.previous

theorem ownOf_cons (a : Arrival) (as : List Arrival) : ownOf (a :: as) = ownOf [a] ++ ownOf as :=
  ownOf_append [a] as

theorem ownOf_singleton (a : Arrival) :
    ownOf [a] = [] ∨ ∃ m, a.frame.data? = some m ∧ Own m ∧ ownOf [a] = [m] := by
  cases hd : a.frame.data? with
  | none => exact .inl (by simp [ownOf, hd])
  | some m =>
    by_cases hown : Own m
    · exact .inr ⟨m, rfl, hown, by simp [ownOf, hd, hown]⟩
    · exact .inl (by simp [ownOf, hd, hown])

theorem Router.receive_silent {a : Arrival} (h : ownOf [a] = []) (r : Router) :
    r.Same (r.receive a) := by
  cases hd : a.frame.data? with
  | none =>
    simp only [receive, hd]
    exact ⟨rfl, rfl, rfl, rfl, rfl, rfl, rfl⟩
  | some m =>
    have hown : ¬Own m := by
      intro hown
      simp [ownOf, hd, hown] at h
    simp only [receive, hd, deliver, fate_foreign hown]
    exact ⟨rfl, rfl, rfl, rfl, rfl, rfl, rfl⟩

theorem foldl_receive_silent {as : List Arrival} (h : ownOf as = []) (r : Router) :
    r.Same (as.foldl receive r) := by
  induction as generalizing r with
  | nil => exact ⟨rfl, rfl, rfl, rfl, rfl, rfl, rfl⟩
  | cons a as ih =>
    rw [ownOf_cons, append_eq_nil_iff] at h
    have h₁ := r.receive_silent h.1
    have h₂ := ih h.2 (r.receive a)
    exact ⟨h₂.reply.trans h₁.reply, h₂.replyLength.trans h₁.replyLength,
      h₂.haveReply.trans h₁.haveReply, h₂.waiting.trans h₁.waiting,
      h₂.orphans.trans h₁.orphans, h₂.since.trans h₁.since, h₂.previous.trans h₁.previous⟩

/-- A router that is not waiting, after `k` messages of this kind. -/
structure Router.Idled (k : ℕ) (r r' : Router) : Prop where
  waiting : r'.waiting = false
  haveReply : r'.haveReply = r.haveReply
  orphans : r'.orphans = r.orphans - k
  since : r'.orphanSinceUs = r.orphanSinceUs
  previous : r'.previous = r.previous

variable {r : Router}

theorem Router.receive_idle {a : Arrival} (hw : r.waiting = false) :
    r.Idled (ownOf [a]).length (r.receive a) := by
  rcases ownOf_singleton a with h | ⟨m, hd, hown, h⟩
  · have hs := r.receive_silent h
    rw [h]
    exact ⟨hs.waiting.trans hw, hs.haveReply, hs.orphans, hs.since, hs.previous⟩
  · rw [h]
    by_cases ho : r.orphans = 0
    · have hfate : r.fate m = .unsolicited := by simp [fate_own hown, ho, hw]
      simp only [receive, hd, deliver, hfate]
      exact ⟨hw, rfl, by rw [ho]; rfl, rfl, rfl⟩
    · have hfate : r.fate m = .stale := by simp [fate_own hown, ho]
      simp only [receive, hd, deliver, hfate]
      exact ⟨hw, rfl, rfl, rfl, rfl⟩

theorem foldl_receive_idle (as : List Arrival) (hw : r.waiting = false) :
    r.Idled (ownOf as).length (as.foldl receive r) := by
  induction as generalizing r with
  | nil => exact ⟨hw, rfl, rfl, rfl, rfl⟩
  | cons a as ih =>
    have h₁ := receive_idle (a := a) hw
    have h₂ := ih h₁.waiting
    rw [ownOf_cons, length_append]
    refine ⟨h₂.waiting, h₂.haveReply.trans h₁.haveReply, ?_, h₂.since.trans h₁.since,
      h₂.previous.trans h₁.previous⟩
    rw [foldl_cons, h₂.orphans, h₁.orphans, Nat.sub_sub]

/-- A router that waited, with the reply `m`. -/
structure Router.Answered (m : List UInt8) (r r' : Router) : Prop where
  reply : r'.reply = m.take replyBytes
  replyLength : r'.replyLength = m.length
  haveReply : r'.haveReply = true
  orphans : r'.orphans = 0
  previous : r'.previous = r.previous

variable {m : List UInt8}

theorem foldl_receive_awaiting {as : List Arrival} (hw : r.waiting = true) (ho : r.orphans = 0)
    (hh : r.haveReply = false) (hown : ownOf as = [m]) :
    r.Answered m (as.foldl receive r) := by
  induction as generalizing r with
  | nil => cases hown
  | cons a as ih =>
    rw [ownOf_cons] at hown
    rw [foldl_cons]
    rcases ownOf_singleton a with h | ⟨m', hd, hm', h⟩
    · have hs := r.receive_silent h
      rw [h] at hown
      have := ih (hs.waiting.trans hw) (hs.orphans.trans ho) (hs.haveReply.trans hh) hown
      exact { this with previous := this.previous.trans hs.previous }
    · -- this is the reply, and nothing of its kind follows
      rw [h, singleton_append, List.cons.injEq] at hown
      obtain ⟨rfl, hrest⟩ := hown
      have hfate : r.fate m' = .taken := by simp [fate_own hm', ho, hw, hh]
      have hs := foldl_receive_silent hrest (r.receive a)
      simp only [receive, hd, deliver, hfate] at hs ⊢
      exact { hs with orphans := hs.orphans.trans ho }

/-! ## Calls -/

section

variable {h : Remote} {horizon : ℕ} {react : Wire → Turn} {w w' : Wire}

theorem Runs.heard (hw : Live h horizon w) (hr : Runs h horizon w w') :
    ownOf (consumed w w') ++ ownOf w'.waiting = ownOf w.waiting ++ h.due w := by
  obtain ⟨new, hs, -⟩ := hr.moves.stream
  have hnew := hr.new
  rw [hs, drop_left] at hnew
  have hread : w'.read = w.read + (w'.read - w.read) := by have := hr.moves.read; omega
  have hwait : w'.waiting = (w'.stream.drop w.read).drop (w'.read - w.read) := by
    rw [drop_drop, ← hread, Wire.waiting]
  rw [← hnew, ← ownOf_append, ← ownOf_append, consumed, hwait, take_append_drop, hs,
    drop_append_of_le_length hw.within, Wire.waiting]

theorem Runs.emptied (hr : Runs h horizon w w') (hdue : h.due w = [])
    (hread : w.stream.length ≤ w'.read) : ownOf w'.waiting = [] := by
  have hnew := hr.new
  have hsplit : w'.read = w.stream.length + (w'.read - w.stream.length) := by omega
  rw [hdue, ← take_append_drop (w'.read - w.stream.length) (w'.stream.drop _), ownOf_append,
    append_eq_nil_iff, drop_drop, ← hsplit] at hnew
  exact hnew.2

/-- A client between calls, and the last value it read. -/
structure Still (h : Remote) (horizon : ℕ) (p : List UInt8) (c : Client Wire) : Prop where
  live : Live h horizon c.link
  waiting : c.router.waiting = false
  previous : c.router.previous = p

/-- The replies still owed are here or come, or are given up by now. -/
def Paid (h : Remote) (c : Client Wire) : Prop :=
  c.router.orphans ≤ (ownOf c.link.waiting).length + (h.due c.link).length ∨
    c.router.orphanSinceUs + orphanGiveUpUs < c.link.clock

variable (rounds : ℕ) {p : List UInt8} {c : Client Wire}

theorem onLink_returns {e : World} {α : Type} {m : Cut Wire α} {a : α} (hw : c.link.WF)
    (heq : m c.link = (some a, w')) (hm : Moves c.link w') :
    onLink e.ops m c = (some a, c.moved w') := by
  have hstate : (onLink e.ops m c).2 = c.moved w' := by
    have := onLink_moves (e := e) (m := m) hw (by rw [heq]; exact hm)
    rw [this, heq]
    rfl
  have hfst : (onLink e.ops m c).1 = some a := congrArg Prod.fst heq
  exact Prod.ext hfst hstate

/-- What a client has heard in a poll. -/
structure Hears (h : Remote) (horizon : ℕ) (c c' : Client Wire) : Prop where
  runs : Runs h horizon c.link c'.link
  router : c'.router = (consumed c.link c'.link).foldl Router.receive c.router
  room : c'.link.waiting.length ≤ 255
  read : c.link.stream.length ≤ c'.link.read

section

variable (hh : Healthy h horizon react)
include hh

theorem onLink_poll_returns (hw : Live h horizon c.link) :
    ∃ n c', onLink (reacting react rounds).ops (reacting react rounds).ops.poll c =
      (some (.ok n), c') ∧ Hears h horizon c c' := by
  obtain ⟨n, w', heq, hruns, hroom, hread⟩ := poll_returns rounds hh hw
  exact ⟨n, c.moved w', onLink_returns hw.wf heq hruns.moves, hruns, rfl, hroom, hread⟩

theorem now_returns (hw : Live h horizon c.link) :
    now (reacting react rounds).ops c =
      (some (c.link.turn (react c.link)).clock, { c with link := c.link.turn (react c.link) }) ∧
      Runs h horizon c.link (c.link.turn (react c.link)) := by
  have hruns := (hw.turn hh).1
  refine ⟨?_, hruns⟩
  have hmoved : c.moved (c.link.turn (react c.link)) =
      { c with link := c.link.turn (react c.link) } :=
    Client.moved_of_read rfl
  rw [← hmoved]
  exact onLink_returns hw.wf rfl hruns.moves

theorem relax_returns (hw : Live h horizon c.link) :
    onLink (reacting react rounds).ops (reacting react rounds).ops.relax c =
      (some (), { c with link := c.link.turn (react c.link) }) := by
  have hmoved : c.moved (c.link.turn (react c.link)) =
      { c with link := c.link.turn (react c.link) } :=
    Client.moved_of_read rfl
  rw [← hmoved]
  exact onLink_returns hw.wf rfl (hw.turn hh).1.moves

theorem Live.waiting_turn (hw : Live h horizon w) (hdue : h.due w = []) :
    ownOf (w.turn (react w)).waiting = ownOf w.waiting := by
  have hheard := (hw.turn hh).1.heard hw
  have hnone : consumed w (w.turn (react w)) = [] := consumed_of_read rfl
  rw [hnone, hdue, append_nil] at hheard
  exact hheard

end

variable {deadline : ℕ}

theorem awaitOrphans_zero {e : World} {bound : ℕ} (ho : c.router.orphans = 0) :
    awaitOrphans e.ops deadline (bound + 1) c = (some .ok, c) := by
  rw [awaitOrphans, getRouter, bind_of_some (gets_apply _ _), if_pos ho]
  rfl

theorem awaitOrphans_returns (bound : ℕ) (hh : Healthy h horizon react)
    (hdeadline : horizon ≤ deadline) (hs : Still h horizon p c) (hdue : h.due c.link = [])
    (hsteady : c.link.last.Steady) (hpaid : Paid h c) :
    ∃ c', awaitOrphans (reacting react rounds).ops deadline (bound + 2) c = (some .ok, c') ∧
      Still h horizon p c' ∧ h.due c'.link = [] ∧ c'.link.last.Steady ∧ c'.router.orphans = 0 := by
  by_cases ho : c.router.orphans = 0
  · exact ⟨c, awaitOrphans_zero ho, hs, hdue, hsteady, ho⟩
  obtain ⟨hnow, hruns₁⟩ := now_returns rounds hh hs.live
  rw [awaitOrphans, getRouter, bind_of_some (gets_apply _ _), if_neg ho, bind_of_some hnow,
    bind_of_some (gets_apply _ _)]
  split
  · -- it is too late for what is owed
    exact ⟨_, rfl, ⟨hruns₁.live, hs.waiting, hs.previous⟩, hruns₁.due, hruns₁.steady, rfl⟩
  rename_i hlate
  have hwait₁ := hs.live.waiting_turn hh hdue
  generalize c.link.turn (react c.link) = w₁ at hlate hruns₁ hwait₁ ⊢
  obtain ⟨hnow₂, hruns₂⟩ := now_returns rounds (c := { c with link := w₁ }) hh
    hruns₁.live
  have hwait₂ := hruns₁.live.waiting_turn hh hruns₁.due
  rw [bind_of_some hnow₂, if_neg (Nat.not_lt.mpr (hruns₂.live.clock.trans hdeadline))]
  simp only [] at hruns₂ hwait₂ ⊢
  generalize w₁.turn (react w₁) = w₂ at hruns₂ hwait₂ ⊢
  rw [bind_of_some (relax_returns rounds (c := { c with link := w₂ }) hh hruns₂.live)]
  have hruns₃ := (hruns₂.live.turn hh).1
  have hwait₃ := hruns₂.live.waiting_turn hh hruns₂.due
  simp only [] at hruns₃ hwait₃ ⊢
  generalize w₂.turn (react w₂) = w₃ at hruns₃ hwait₃ ⊢
  obtain ⟨n, c₄, hpoll, hears⟩ :=
    onLink_poll_returns rounds (c := { c with link := w₃ }) hh hruns₃.live
  rw [bind_of_some hpoll]
  -- the poll hands over what waited, and that covers what was owed
  have hidled := foldl_receive_idle (consumed w₃ c₄.link) hs.waiting
  have hrouter : c₄.router = (consumed w₃ c₄.link).foldl receive c.router := hears.router
  rw [← hrouter] at hidled
  have hheard : ownOf (consumed w₃ c₄.link) = ownOf c.link.waiting := by
    have hheard := hears.runs.heard hruns₃.live
    have hempty := hears.runs.emptied hruns₃.due hears.read
    rw [hempty, hruns₃.due, append_nil, append_nil] at hheard
    rw [hheard, hwait₃, hwait₂, hwait₁]
  have hzero : c₄.router.orphans = 0 := by
    rw [hidled.orphans, hheard]
    rcases hpaid with hpaid | hpaid
    · rw [hdue, length_nil] at hpaid
      omega
    · exfalso
      have := hruns₁.moves.clock
      apply hlate
      simp only []
      omega
  exact ⟨c₄, awaitOrphans_zero hzero, ⟨hears.runs.live, hidled.waiting,
    hidled.previous.trans hs.previous⟩, hears.runs.due, hears.runs.steady, hzero⟩

/-! ### A request and its reply -/

/-- A reply as it should be, with the value in it. -/
structure Replies (size : ℕ) (value m : List UInt8) : Prop where
  length : m.length = replyBytes
  type : get32 4 m = typeRequest
  opcode : get32 8 m = opcodeRead
  error : get32 (replyBytes - 4) m = 0
  data : (m.drop 12).take size = value

theorem Live.publish (hw : Live h horizon w) (hdue : h.due w = []) (hroom : w.waiting.length ≤ 255)
    (data : List UInt8) :
    Live h horizon (w.publish data) ∧ h.due (w.publish data) = [h.answer data] := by
  have hsent : h.sent w = h.expected w := by rw [hw.expected_eq, hdue, append_nil]
  have hexp : h.expected (w.publish data) = h.expected w ++ [h.answer data] := by
    rw [Remote.expected, Wire.publish, drop_append_of_le_length hw.requests, map_append,
      ← append_assoc]
    rfl
  have hdue' : h.due (w.publish data) = [h.answer data] := by
    rw [Remote.due, hexp, show h.sent (w.publish data) = h.expected w from hsent, drop_left]
  refine ⟨⟨hw.within, hw.up, hw.clock, hw.stream, ?_, ?_, ?_⟩, hdue'⟩
  · exact hw.requests.trans (by simp [Wire.publish])
  · rw [hexp, ← hsent]
    exact prefix_append _ _
  · rw [hdue']
    exact Nat.succ_le_succ hroom

section

variable (hh : Healthy h horizon react)
include hh

theorem send_returns (data : List UInt8) (deadline : ℕ) (hw : Live h horizon w)
    (hdue : h.due w = []) (hopen : w.last.closed = false) :
    ∃ s w', (reacting react rounds).send data deadline w = (some (.ok ()), w') ∧
      Runs h horizon w s ∧ ownOf s.waiting = [] ∧ Moves (s.publish data) w' ∧
      w'.read = s.read ∧ Live h horizon w' ∧ h.due w' = [] ∧
        ownOf w'.waiting = [h.answer data] := by
  obtain ⟨n, w₁, hpoll, hruns₁, hroom₁, hread₁⟩ := poll_returns rounds hh hw
  have hempty₁ := hruns₁.emptied hdue hread₁
  obtain ⟨hruns₂, hroom₂⟩ := hruns₁.live.turn hh
  have hempty₂ := hruns₁.live.waiting_turn hh hruns₁.due
  generalize hw₂ : w₁.turn (react w₁) = w₂ at hruns₂ hroom₂ hempty₂
  have hroom : w₂.waiting.length ≤ 255 := by
    rw [hruns₁.due, length_nil] at hroom₂
    omega
  obtain ⟨hlive, hanswer⟩ := hruns₂.live.publish hruns₂.due hroom data
  obtain ⟨hruns₃, -⟩ := hlive.turn hh
  have hheard := hruns₃.heard hlive
  have hnone : consumed (w₂.publish data) ((w₂.publish data).turn (react (w₂.publish data))) = [] :=
    consumed_of_read rfl
  have hwait : (w₂.publish data).waiting = w₂.waiting := rfl
  rw [hnone, hanswer, hwait, hempty₂, hempty₁] at hheard
  refine ⟨w₂, (w₂.publish data).turn (react (w₂.publish data)), ?_, hruns₁.trans hruns₂,
    hempty₂.trans hempty₁, hruns₃.moves, rfl, hruns₃.live, hruns₃.due, hheard⟩
  have hup : ¬w.failed = true := by rw [hw.up]; exact Bool.false_ne_true
  have hopen' : ¬w.last.closed = true := by rw [hopen]; exact Bool.false_ne_true
  have hintent : (reacting react rounds).awaitIntent deadline
      ((reacting react rounds).rounds w + 1) w = (some (.ok ()), w₁) := by
    rw [World.awaitIntent, bind_of_some hpoll]
    simp [bind_apply, hruns₁.steady.2.1, hruns₁.steady.2.2.1]
  have hfits : (reacting react rounds).awaitRoom deadline
      ((reacting react rounds).rounds w₁ + 1) w₁ = (some (.ok ()), w₂) := by
    rw [World.awaitRoom, reacting_breakIf hh, hw₂]
    simp [bind_apply, hruns₂.steady.2.2.2]
  have hpublish : (reacting react rounds).publish data w₂ =
      (some (.ok ()), (w₂.publish data).turn (react (w₂.publish data))) := by
    rw [World.publish, bind_of_some (modify_apply _ _), reacting_breakIf hh]
    rfl
  exact World.send_ok hup hopen' hintent hfits hpublish

theorem onLink_send_returns (data : List UInt8) (deadline : ℕ) (hs : Still h horizon p c)
    (hdue : h.due c.link = []) (hopen : c.link.last.closed = false) (ho : c.router.orphans = 0)
    (hhave : c.router.haveReply = false) :
    ∃ c', onLink (reacting react rounds).ops ((reacting react rounds).ops.send data deadline) c =
      (some (.ok ()), c') ∧ Still h horizon p c' ∧ h.due c'.link = [] ∧
      ownOf c'.link.waiting = [h.answer data] ∧ c'.router.orphans = 0 ∧
      c'.router.haveReply = false := by
  obtain ⟨s, w', heq, hruns, -, hmoves, hread, hlive, hdue', hanswer⟩ :=
    send_returns rounds hh data deadline hs.live hdue hopen
  have hidled := foldl_receive_idle (consumed c.link s) hs.waiting
  have hstate : (onLink (reacting react rounds).ops
      ((reacting react rounds).ops.send data deadline) c).2 = { c.moved s with link := w' } := by
    have := onLink_sent (e := reacting react rounds)
      (m := (reacting react rounds).send data deadline)
      (p := fun _ => True) hs.live.wf hruns.moves (by rw [heq]; exact hread) (by
        obtain ⟨new, hnew, -⟩ := hmoves.stream
        rw [heq]
        exact ⟨new, hnew, trivial⟩)
    rw [heq] at this
    exact this
  have hfst : (onLink (reacting react rounds).ops
      ((reacting react rounds).ops.send data deadline) c).1 = some (.ok ()) :=
    congrArg Prod.fst heq
  refine ⟨_, Prod.ext hfst hstate, ⟨hlive, hidled.waiting, hidled.previous.trans hs.previous⟩,
    hdue', hanswer, ?_, hidled.haveReply.trans hhave⟩
  change ((consumed c.link s).foldl receive c.router).orphans = 0
  rw [hidled.orphans, ho, Nat.zero_sub]

theorem awaitReply_returns (deadline bound : ℕ) (hw : Live h horizon c.link)
    (hdue : h.due c.link = []) (hown : ownOf c.link.waiting = [m])
    (hwait : c.router.waiting = true) (ho : c.router.orphans = 0)
    (hhave : c.router.haveReply = false) :
    ∃ c', awaitReply (reacting react rounds).ops deadline (bound + 1) c = (some .ok, c') ∧
      Live h horizon c'.link ∧ c.router.Answered m c'.router := by
  obtain ⟨n, c', hpoll, hears⟩ := onLink_poll_returns rounds hh hw
  have hheard := hears.runs.heard hw
  rw [hears.runs.emptied hdue hears.read, hown, hdue, append_nil, append_nil] at hheard
  have hanswered := foldl_receive_awaiting hwait ho hhave hheard
  rw [← hears.router] at hanswered
  refine ⟨c', ?_, hears.runs.live, hanswered⟩
  rw [awaitReply, bind_of_some hpoll]
  simp only []
  rw [getRouter, bind_of_some (gets_apply _ _), if_pos hanswered.haveReply]
  rfl

end

variable {value : List UInt8} {size : ℕ}

theorem takeReply_returns (ha : r.Answered m c.router) (hm : Replies size value m) :
    takeReply (ε := LinkError) size c =
      (some (.ok value), { c with router := { c.router with waiting := false } }) := by
  have hreply : c.router.reply = m := ha.reply.trans (take_of_length_le hm.length.le)
  have hjudge : ({ c.router with waiting := false } : Router).judge (ε := LinkError) size =
      .ok value := by
    simp [judge, hreply, ha.replyLength, hm.length, hm.type, hm.opcode, hm.error, hm.data]
  rw [takeReply, modifyRouter, bind_of_some (modify_apply _ _), getRouter,
    bind_of_some (gets_apply _ _), hjudge]
  rfl

theorem sample_returns (hh : Healthy h horizon react) {reg : ℕ} (hrounds : 1 ≤ rounds)
    (hdeadline : horizon ≤ deadline) (hsize : ¬(size = 0 ∨ dataBytes < size))
    (hm : Replies size value (h.answer (requestFor reg size))) (hs : Still h horizon p c)
    (hpaid : Paid h c) :
    ∃ c', sample (reacting react rounds).ops reg size deadline c = (some (.ok value), c') ∧
      Still h horizon p c' ∧ Paid h c' := by
  obtain ⟨n, c₁, hpoll, hears⟩ := onLink_poll_returns rounds hh hs.live
  have hidled := foldl_receive_idle (consumed c.link c₁.link) hs.waiting
  rw [← hears.router] at hidled
  have hstill₁ : Still h horizon p c₁ :=
    ⟨hears.runs.live, hidled.waiting, hidled.previous.trans hs.previous⟩
  have hpaid₁ : Paid h c₁ := by
    rcases hpaid with hpaid | hpaid
    · left
      have hheard := congrArg List.length (hears.runs.heard hs.live)
      rw [length_append, length_append] at hheard
      rw [hidled.orphans, hears.runs.due, length_nil]
      omega
    · right
      rw [hidled.since]
      exact hpaid.trans_le hears.runs.moves.clock
  obtain ⟨bound, rfl⟩ : ∃ bound, rounds = bound + 1 := ⟨rounds - 1, by omega⟩
  obtain ⟨c₂, horphans, hstill₂, hdue₂, hsteady₂, hzero₂⟩ :=
    awaitOrphans_returns (bound + 1) bound hh hdeadline hstill₁ hears.runs.due hears.runs.steady
      hpaid₁
  obtain ⟨c₃, hsend, hstill₃, hdue₃, hown₃, hzero₃, hhave₃⟩ :=
    onLink_send_returns (bound + 1) (c := { c₂ with router := c₂.router.prepared }) (p := p) hh
      (requestFor reg size) deadline ⟨hstill₂.live, rfl, hstill₂.previous⟩ hdue₂
        hsteady₂.2.1 hzero₂ rfl
  obtain ⟨c₄, hreply, hlive₄, hanswered⟩ :=
    awaitReply_returns (bound + 1) (c := { c₃ with router := c₃.router.asked }) hh deadline
      (bound + 1) hstill₃.live hdue₃ hown₃ rfl hzero₃ hhave₃
  refine ⟨_, sample_ok hsize hpoll horphans hsend hreply (takeReply_returns hanswered hm), ?_, ?_⟩
  · exact ⟨hlive₄, rfl, hanswered.previous.trans hstill₃.previous⟩
  · exact .inl (by rw [show c₄.router.orphans = 0 from hanswered.orphans]; exact Nat.zero_le _)

theorem Replies.length_value (hm : Replies size value m) (hsize : size ≤ dataBytes) :
    value.length = size := by
  rw [← hm.data, length_take, length_drop, hm.length]
  simp only [replyBytes, dataBytes] at *
  omega

def Repeats (p : List UInt8) (size : ℕ) (value : List UInt8) : Prop :=
  8 ≤ size ∧ size ≤ p.length ∧ value = p.take size

instance (p : List UInt8) (size : ℕ) (value : List UInt8) : Decidable (Repeats p size value) :=
  inferInstanceAs (Decidable (_ ∧ _ ∧ _))

theorem agrees_self (reg : ℕ) (value : List UInt8) : agrees reg value value = true := by
  simp [agrees]

theorem read_returns (hh : Healthy h horizon react) {reg : ℕ} (hrounds : 1 ≤ rounds)
    (hdeadline : horizon ≤ deadline) (hallowed : allowed reg size = true)
    (hsize : ¬(size = 0 ∨ dataBytes < size))
    (hm : Replies size value (h.answer (requestFor reg size))) (hs : Still h horizon p c)
    (hpaid : Paid h c) :
    ∃ c', read (reacting react rounds).ops reg size deadline c =
        (some (if Repeats p size value then .error .stale else .ok value), c') ∧
      Still h horizon (if Repeats p size value then p else value) c' ∧ Paid h c' := by
  obtain ⟨c₁, hfirst, hs₁, hpaid₁⟩ :=
    sample_returns rounds hh hrounds hdeadline hsize hm hs hpaid
  obtain ⟨c₂, hsecond, hs₂, hpaid₂⟩ :=
    sample_returns rounds hh hrounds hdeadline hsize hm hs₁ hpaid₁
  have hrepeats : c₂.router.repeats size value = decide (Repeats p size value) := by
    rw [Bool.eq_iff_iff, decide_eq_true_eq]
    simp [repeats, Repeats, hs₂.previous, and_assoc]
  rw [read, if_neg (by rw [hallowed]; exact Bool.noConfusion), bind_of_some hfirst]
  simp only []
  rw [bind_of_some hsecond]
  simp only []
  rw [getRouter, bind_of_some (gets_apply _ _), agrees_self, if_neg Bool.noConfusion, hrepeats]
  by_cases hr : Repeats p size value
  · simp only [hr, decide_true, if_true]
    exact ⟨c₂, rfl, hs₂, hpaid₂⟩
  · simp only [hr, decide_false, Bool.false_eq_true, if_false]
    exact ⟨_, rfl, ⟨hs₂.live, hs₂.waiting, rfl⟩, hpaid₂⟩

/-- The three registers hold these values, and they make sense. -/
structure Holds (h : Remote) (bstValue bixValue psrValue : List UInt8) : Prop where
  bst : Replies bstBytes bstValue (h.answer (requestFor bst bstBytes))
  bix : Replies bixBytes bixValue (h.answer (requestFor bix bixBytes))
  psr : Replies psrBytes psrValue (h.answer (requestFor psr psrBytes))
  passes : decodePasses bstValue bixValue psrValue = true

variable {bstValue bixValue psrValue : List UInt8}

/-- The value that comes first is what was read last: the call stops there, and so will the next. -/
theorem battery_stale (hh : Healthy h horizon react) (hrounds : 1 ≤ rounds)
    (hdeadline : horizon ≤ deadline) (hv : Holds h bstValue bixValue psrValue)
    (hs : Still h horizon p c) (hpaid : Paid h c) (hr : Repeats p bstBytes bstValue) :
    ∃ c', battery (reacting react rounds).ops deadline c = (some (.stale, none), c') ∧
      Still h horizon p c' ∧ Paid h c' := by
  obtain ⟨c', hread, hs', hpaid'⟩ :=
    read_returns rounds hh hrounds hdeadline (by decide) (by decide) hv.bst hs hpaid
  rw [if_pos hr] at hread hs'
  refine ⟨c', ?_, hs', hpaid'⟩
  rw [battery, bind_of_some hread]
  rfl

theorem battery_ok (hh : Healthy h horizon react) (hrounds : 1 ≤ rounds)
    (hdeadline : horizon ≤ deadline) (hv : Holds h bstValue bixValue psrValue)
    (hs : Still h horizon p c) (hpaid : Paid h c) (hr : ¬Repeats p bstBytes bstValue) :
    ∃ c', battery (reacting react rounds).ops deadline c =
      (some (.ok, some (decode bstValue bixValue psrValue)), c') := by
  obtain ⟨c₁, hbst, hs₁, hpaid₁⟩ :=
    read_returns rounds hh hrounds hdeadline (by decide) (by decide) hv.bst hs hpaid
  rw [if_neg hr] at hbst hs₁
  -- what was read last is shorter than the next value
  have hbix' : ¬Repeats bstValue bixBytes bixValue := by
    intro hr'
    have hlen := hr'.2.1
    rw [hv.bst.length_value (by decide)] at hlen
    exact absurd hlen (by decide)
  obtain ⟨c₂, hbix, hs₂, hpaid₂⟩ :=
    read_returns rounds hh hrounds hdeadline (by decide) (by decide) hv.bix hs₁ hpaid₁
  rw [if_neg hbix'] at hbix hs₂
  have hpsr' : ¬Repeats bixValue psrBytes psrValue := fun hr' => absurd hr'.1 (by decide)
  obtain ⟨c₃, hpsr, -, -⟩ :=
    read_returns rounds hh hrounds hdeadline (by decide) (by decide) hv.psr hs₂ hpaid₂
  rw [if_neg hpsr'] at hpsr
  refine ⟨c₃, ?_⟩
  rw [battery, bind_of_some hbst]
  simp only []
  rw [bind_of_some hbix]
  simp only []
  rw [bind_of_some hpsr]
  simp only [hv.passes, if_true]
  rfl

end

theorem still_of_run {turns : List Turn} {ops : List Op} {c : Client Wire}
    (hrun : runOps scheduled ops (fresh turns) = (some (), c)) {horizon : ℕ}
    (answer : List UInt8 → List UInt8) {debts : List (List UInt8)} (hup : c.link.failed = false)
    (hclock : c.link.clock ≤ horizon)
    (hroom : c.link.waiting.length + debts.length ≤ framesPerPoll) :
    Still ⟨c.link, answer, debts⟩ horizon c.router.previous c ∧
      Remote.due ⟨c.link, answer, debts⟩ c.link = debts := by
  have hrest : Rest c := by
    obtain ⟨-, hpost⟩ := does_runOps scheduled_lawful ops (fresh turns) (rest_fresh turns)
    rw [hrun] at hpost
    exact hpost () rfl
  have hsent : Remote.sent ⟨c.link, answer, debts⟩ c.link = [] := by
    rw [Remote.sent, drop_length]
    rfl
  have hdue : Remote.due ⟨c.link, answer, debts⟩ c.link = debts := by
    rw [Remote.due, hsent, Remote.expected, drop_length]
    exact append_nil debts
  refine ⟨⟨⟨hrest.wf.within, hup, hclock, le_rfl, le_rfl, ?_, ?_⟩, hrest.waiting, rfl⟩, hdue⟩
  · rw [hsent]
    exact nil_prefix
  · rw [hdue]
    exact hroom

def sampleBst (drained : Bool) : List UInt8 :=
  [1, 1000, if drained then 39000 else 40000, 12000].flatMap (putLe 4)

def sampleBix : List UInt8 :=
  ([0, 0, 50000, 48000, 1, 11500, 5000, 2000, 12] ++ List.replicate 8 0).flatMap (putLe 4)

def samplePsr : List UInt8 := putLe 4 0

def replyOf (value : List UInt8) : List UInt8 :=
  [owner, typeRequest, opcodeRead].flatMap (putLe 4) ++ value ++
    List.replicate (dataBytes - value.length) 0 ++ putLe 4 0

def sampleAnswer (drained : Bool) (request : List UInt8) : List UInt8 :=
  if request = requestFor bst bstBytes then replyOf (sampleBst drained)
  else if request = requestFor bix bixBytes then replyOf sampleBix
  else replyOf samplePsr

/-- A remote that sends what is due, and nothing else. -/
def sampleReact (h : Remote) (w : Wire) : Turn :=
  { now := 20, frames := (h.due w).map fun data => .message data none }

theorem own_sampleAnswer (drained : Bool) (request : List UInt8) :
    Own (sampleAnswer drained request) := by
  unfold sampleAnswer
  split
  · cases drained <;> decide +kernel
  · split
    · decide +kernel
    · decide +kernel

variable {drained : Bool}

theorem healthy_sampleReact {h : Remote} (ha : h.answer = sampleAnswer drained)
    (hd : ∀ data ∈ h.debts, Own data) : Healthy h 20 (sampleReact h) := by
  have hown : ∀ w, ∀ data ∈ h.due w, Own data := by
    intro w data hdata
    rcases mem_append.mp (mem_of_mem_drop hdata) with hdata | hdata
    · exact hd data hdata
    · obtain ⟨request, -, rfl⟩ := mem_map.mp hdata
      rw [ha]
      exact own_sampleAnswer drained request
  refine ⟨fun _ => ⟨rfl, rfl, rfl, rfl⟩, fun _ => le_rfl, ?_, ?_⟩
  · intro w
    have hdata : (sampleReact h w).frames.filterMap Frame.data? = h.due w := by
      simp [sampleReact, filterMap_map, Function.comp_def, Frame.data?]
    rw [hdata, filter_eq_self]
    intro data hmem
    simpa using hown w data hmem
  · intro w
    simp [sampleReact]

theorem holds_sampleAnswer {h : Remote} (ha : h.answer = sampleAnswer drained) :
    Holds h (sampleBst drained) sampleBix samplePsr := by
  cases drained <;> refine ⟨?_, ?_, ?_, by decide +kernel⟩ <;> rw [ha] <;>
    exact ⟨by decide +kernel, by decide +kernel, by decide +kernel, by decide +kernel,
      by decide +kernel⟩

/-- Two samples of `_BST` are answered, the first of `_BIX` is not. -/
def lostTurns : List Turn :=
  List.replicate 4 (still 1) ++
    [{ now := 1, frames := [.message (replyOf (sampleBst false)) (some 1)] }, still 1, still 1] ++
    List.replicate 4 (still 1) ++
    [{ now := 1, frames := [.message (replyOf (sampleBst false)) (some 2)] }, still 1, still 1] ++
    List.replicate 5 (still 1) ++ [still 11, still 11]

def lostClient : Client Wire where
  link :=
    { stream := [⟨.message (replyOf (sampleBst false)) (some 1), 1, 1⟩,
        ⟨.message (replyOf (sampleBst false)) (some 2), 1, 2⟩]
      read := 2
      requests := [requestFor bst bstBytes, requestFor bst bstBytes, requestFor bix bixBytes]
      clock := 11
      last := still 11 }
  router :=
    { reply := replyOf (sampleBst false), orphans := 1, orphanSinceUs := 11
      previous := sampleBst false
      requests := 3, replies := 2, fates := [(.taken, some 1), (.taken, some 2)]
      expired := [(3, 11)] }

theorem run_lostTurns :
    runOps scheduled [.battery 10] (fresh lostTurns) = (some (), lostClient) := by
  decide +kernel

theorem healthy_lostClient (drained : Bool) :
    let h : Remote := ⟨lostClient.link, sampleAnswer drained, [replyOf sampleBix]⟩
    Healthy h 20 (sampleReact h) := by
  refine healthy_sampleReact rfl fun data hdata => ?_
  rw [mem_singleton.mp hdata]
  decide +kernel

end Q1n1.Pmic
