import Q1n1.Verification.Pmic.Calls

/-! # Replies are paired with their own requests -/

namespace Q1n1.Pmic

open Bytes Cut List World

theorem safe_of_steps {c c' : Client Wire} (h : Relation.ReflTransGen SafeStep c c')
    (hc : Good c → Safe c) : Good c' → Safe c' :=
  steps_keep (I := fun c => Good c → Safe c) (fun _ _ hstep _ => hstep.2) h hc

/-! ## Every run

Replies to one session's requests are told apart by counting, as long as the remote keeps its
promise and what waits in its FIFO never exceeds what one poll handles. -/

theorem replies_paired (turns : List Turn) (ops : List Op) :
    let run := runOps scheduled ops (fresh turns)
    (Answering run.2.link run.2.router → run.2.link.crowded = false → run.2.router.orphans ≤ 1 ∧
      ∀ p ∈ run.2.router.fates.zip run.2.link.delivered, p.1.1 = .stale →
        p.1.2 = none ∧ ∃ k t, p.2.2 = some k ∧ (k, t) ∈ run.2.router.expired) ∧
    (run.1 = some () → ∀ reg size deadline data c,
      sample scheduled.ops reg size deadline run.2 = (some (.ok data), c) →
      Answering c.link c.router → c.link.crowded = false →
      c.link.requests.length = run.2.link.requests.length + 1 ∧
      ∃ a ∈ c.link.stream, ∃ m, a.frame = .message m (some c.link.requests.length) ∧
        data = (m.drop 12).take size) := by
  intro run
  obtain ⟨hsteps, hrest⟩ := does_runOps scheduled_lawful ops (fresh turns) (rest_fresh turns)
  constructor
  · intro hanswer hroomy
    have hsafe := safe_of_steps hsteps (rest_fresh turns).safe ⟨hanswer, hroomy⟩
    exact ⟨hsafe.orphans, hsafe.fair.stale⟩
  · intro hdone reg size deadline data c hsample hanswer hroomy
    obtain ⟨-, hpost⟩ := does_sample scheduled_lawful reg size deadline (hrest () hdone) run.2 rfl
    rw [hsample] at hpost
    obtain ⟨hn, hreply⟩ := (hpost _ rfl).2 data rfl ⟨hanswer, hroomy⟩
    exact ⟨hn, by rw [hn]; exact hreply⟩

def replyWith (value : UInt8) : List UInt8 :=
  [owner, typeRequest, opcodeRead].flatMap (putLe 4) ++ List.replicate dataBytes value ++ putLe 4 0

def still (now : ℕ) : Turn := { now := now }

/-- A request that times out and is answered late, then one that is answered at once. -/
def lateTurns : List Turn :=
  List.replicate 5 (still 0) ++ [still 11, still 11] ++
    [{ now := 12, frames := [.message (replyWith 7) (some 1)] }, still 12, still 12] ++
    List.replicate 4 (still 13) ++
    [{ now := 14, frames := [.message (replyWith 9) (some 2)] }, still 14, still 14]

def lateLink : Wire :=
  { stream := [⟨.message (replyWith 7) (some 1), 12, 1⟩, ⟨.message (replyWith 9) (some 2), 14, 2⟩]
    read := 2
    requests := [requestFor bst bstBytes, requestFor psr psrBytes]
    clock := 14
    last := still 14 }

def lateRouter : Router :=
  { reply := replyWith 9, replyLength := replyBytes, haveReply := true, orphanSinceUs := 11
    requests := 2, replies := 1, staleDiscarded := 1
    fates := [(.stale, none), (.taken, some 2)], expired := [(1, 11)] }

theorem sample_lateTurns :
    sample scheduled.ops psr psrBytes 3000000
        (runOps scheduled [.sample bst bstBytes 10, .service 16] (fresh lateTurns)).2 =
      (some (.ok (replicate 4 9)), { link := lateLink, router := lateRouter }) := by
  decide +kernel

theorem answering_lateLink : Answering lateLink lateRouter := by
  have hmem : ∀ a ∈ lateLink.stream, a = ⟨.message (replyWith 7) (some 1), 12, 1⟩ ∨
      a = ⟨.message (replyWith 9) (some 2), 14, 2⟩ := by
    intro a ha
    simpa [lateLink] using ha
  refine ⟨?_, by decide +kernel, ?_, ?_⟩
  · intro a ha data n hf
    rcases hmem a ha with rfl | rfl
    · cases hf
      exact iff_of_true (by decide +kernel) rfl
    · cases hf
      exact iff_of_true (by decide +kernel) rfl
  · intro a ha k hk
    rcases hmem a ha with rfl | rfl <;> cases hk <;> decide
  · intro a ha k hk t ht
    rcases hmem a ha with rfl | rfl <;> cases hk
    · cases mem_singleton.mp ht
      decide
    · cases mem_singleton.mp ht

theorem replies_paired_lateTurns :
    ∃ a ∈ lateLink.stream, ∃ m, a.frame = .message m (some 2) ∧
      List.replicate 4 9 = (m.drop 12).take psrBytes :=
  ((replies_paired lateTurns [.sample bst bstBytes 10, .service 16]).2 (by decide +kernel)
    psr psrBytes 3000000 _ _ sample_lateTurns answering_lateLink rfl).2

/-! ### A reply that waits behind a crowd -/

def Wire.stilled (w : Wire) (t : ℕ) (rest : List Turn) : Wire :=
  { w with turns := rest, clock := t, last := still t }

variable {w : Wire}

theorem scheduled_still {t : ℕ} (rest : List Turn) (hturns : w.turns = still t :: rest)
    (hclock : w.clock ≤ t) (hcrowded : w.crowded = true) :
    scheduled.turn w = (some (), w.stilled t rest) := by
  simp [scheduled, hturns, Wire.turn, still, hclock, hcrowded, Wire.stilled]

theorem breakIf_still {t : ℕ} {rest : List Turn} {m : Cut Wire (Except LinkError α)}
    (hturns : w.turns = still t :: rest) (hclock : w.clock ≤ t) (hcrowded : w.crowded = true) :
    scheduled.breakIf m w = m (w.stilled t rest) := by
  rw [breakIf, bind_of_some (scheduled_still rest hturns hclock hcrowded)]
  rfl

theorem pollFrames_step {t k handled : ℕ} {rest : List Turn}
    (hturns : w.turns = still t :: still t :: rest) (hclock : w.clock ≤ t)
    (hcrowded : w.crowded = true) (hread : w.read < w.stream.length) :
    scheduled.pollFrames false handled (k + 1) w =
      scheduled.pollFrames false (handled + 1) k (w.stilled t rest).take := by
  have hsome : ¬w.stream.length ≤ w.read := Nat.not_le_of_lt hread
  rw [pollFrames, breakIf_still hturns hclock hcrowded]
  simp only [bind_apply, get_apply, Wire.stilled, hsome, if_false, Bool.false_eq_true,
    false_and, modify_apply]
  exact breakIf_still (w := (w.stilled t (still t :: rest)).take) rfl le_rfl hcrowded

theorem pollFrames_still {t : ℕ} (rest : List Turn) (k handled : ℕ)
    (hturns : w.turns = replicate (2 * (k + 1)) (still t) ++ rest) (hclock : w.clock ≤ t)
    (hcrowded : w.crowded = true) (hread : w.read + (k + 1) ≤ w.stream.length) :
    scheduled.pollFrames false handled (k + 1) w =
      (some (.ok (handled + (k + 1))), { w.stilled t rest with read := w.read + (k + 1) }) := by
  induction k generalizing w handled with
  | zero => exact pollFrames_step hturns hclock hcrowded (by omega)
  | succ k ih =>
    have hturns' : w.turns =
        still t :: still t :: (replicate (2 * (k + 1)) (still t) ++ rest) := hturns
    rw [pollFrames_step hturns' hclock hcrowded (by omega),
      ih (handled + 1) (w := (w.stilled t _).take) rfl le_rfl hcrowded
        (by simp only [Wire.stilled, Wire.take]; omega)]
    simp only [Wire.stilled, Wire.take, add_assoc, add_comm 1]

/-- The first request times out at 11; its reply arrives then, behind 512 other frames. -/
def crowd : List Frame := List.replicate 512 .other ++ [.message (replyWith 7) (some 1)]

def crowdedTurns : List Turn :=
  List.replicate 5 (still 0) ++ [still 11, { now := 11, frames := crowd }] ++
    List.replicate 1030 (still 2000012)

/-- The link when the crowd has arrived, `read` frames of it read, with `m` turns to come. -/
def crowdedLink (read clock m : ℕ) (requests : List (List UInt8)) (last : Turn) : Wire :=
  { stream := crowd.map fun f => ⟨f, 11, 1⟩
    read := read
    requests := requests
    clock := clock
    last := last
    turns := List.replicate m (still 2000012)
    crowded := true }

def expiredRouter : Router :=
  { orphans := 1, orphanSinceUs := 11, requests := 1, expired := [(1, 11)] }

theorem run_crowdedTurns :
    runOps scheduled [.sample bst bstBytes 10] (fresh crowdedTurns) =
      (some (), { link := crowdedLink 0 11 1030 [requestFor bst bstBytes]
                    { now := 11, frames := crowd }
                  router := expiredRouter }) := by
  decide +kernel

variable {read clock : ℕ} {m : ℕ}

theorem poll_crowdedLink (requests : List (List UInt8)) (last : Turn) (hclock : clock ≤ 2000012)
    (hread : read + 256 ≤ 513) :
    scheduled.poll (crowdedLink read clock (512 + m) requests last) =
      (some (.ok 256), crowdedLink (read + 256) 2000012 m requests (still 2000012)) := by
  have h := pollFrames_still (t := 2000012) (replicate m (still 2000012)) 255 0
    (w := crowdedLink read clock (512 + m) requests last)
    (by rw [crowdedLink, replicate_add]) hclock rfl (by
      simp only [crowdedLink, crowd, length_map, length_append, length_replicate,
        length_singleton]
      exact hread)
  rw [poll, pollUpTo, bind_of_some (get_apply _)]
  exact h

variable {requests : List (List UInt8)} {last : Turn}

theorem inbox_crowdedLink (hread : read ≤ 512) :
    (crowdedLink read clock m requests last).inbox = [] := by
  rw [Wire.inbox, crowdedLink, crowd, map_append, take_append_of_le_length (by
    rw [length_map, length_replicate]; exact hread), map_replicate,
    take_replicate, filterMap_replicate_of_none rfl]

theorem onLink_poll_crowdedLink (r : Router) (hclock : clock ≤ 2000012) (hread : read + 256 ≤ 512) :
    onLink scheduled.ops scheduled.ops.poll
        { link := crowdedLink read clock (512 + m) requests last, router := r } =
      (some (.ok 256),
        { link := crowdedLink (read + 256) 2000012 m requests (still 2000012), router := r }) := by
  have hpoll := poll_crowdedLink (m := m) requests last hclock
    (hread.trans (Nat.le_succ 512))
  simp only [onLink, ops, hpoll, inbox_crowdedLink hread,
    inbox_crowdedLink (Nat.le_of_add_right_le hread), drop_nil, foldl_nil]

theorem send_crowdedLink :
    scheduled.send (requestFor psr psrBytes) 3000000
        (crowdedLink 256 2000012 (512 + 5) [requestFor bst bstBytes] (still 2000012)) =
      (some (.ok ()), crowdedLink 512 2000012 3
        [requestFor bst bstBytes, requestFor psr psrBytes] (still 2000012)) := by
  have hintent : ∀ bound, scheduled.awaitIntent 3000000 (bound + 1)
      (crowdedLink 256 2000012 (512 + 5) [requestFor bst bstBytes] (still 2000012)) =
      (some (.ok ()), crowdedLink 512 2000012 5 [requestFor bst bstBytes] (still 2000012)) := by
    intro bound
    rw [awaitIntent, bind_of_some (poll_crowdedLink _ _ le_rfl (by decide))]
    rfl
  have hroom : ∀ bound, scheduled.awaitRoom 3000000 (bound + 1)
      (crowdedLink 512 2000012 5 [requestFor bst bstBytes] (still 2000012)) =
      (some (.ok ()), crowdedLink 512 2000012 4 [requestFor bst bstBytes] (still 2000012)) := by
    intro bound
    rw [awaitRoom, breakIf_still (t := 2000012) rfl le_rfl rfl]
    rfl
  have hpublish : scheduled.publish (requestFor psr psrBytes)
      (crowdedLink 512 2000012 4 [requestFor bst bstBytes] (still 2000012)) =
      (some (.ok ()), crowdedLink 512 2000012 3
        [requestFor bst bstBytes, requestFor psr psrBytes] (still 2000012)) := by
    rw [publish, bind_of_some (modify_apply _ _), breakIf_still (t := 2000012) rfl le_rfl rfl]
    rfl
  exact send_ok Bool.false_ne_true Bool.false_ne_true (hintent _) (hroom _) hpublish

abbrev owingLink (read m : ℕ) : Wire :=
  crowdedLink read 2000012 m [requestFor bst bstBytes] (still 2000012)

abbrev askedLink (read m : ℕ) : Wire :=
  crowdedLink read 2000012 m [requestFor bst bstBytes, requestFor psr psrBytes] (still 2000012)

theorem onLink_now_crowdedLink (r : Router) (hread : read ≤ 512) :
    onLink scheduled.ops scheduled.ops.now
        { link := crowdedLink read 2000012 (m + 1) requests last, router := r } =
      (some 2000012,
        { link := crowdedLink read 2000012 m requests (still 2000012), router := r }) := by
  have hnow : scheduled.now (crowdedLink read 2000012 (m + 1) requests last) =
      (some 2000012, crowdedLink read 2000012 m requests (still 2000012)) := by
    rw [World.now, bind_of_some (scheduled_still (t := 2000012)
      (replicate m (still 2000012)) rfl le_rfl rfl)]
    rfl
  simp only [onLink, ops, hnow, inbox_crowdedLink hread, drop_nil, foldl_nil]

def gaveUpRouter : Router := { orphanSinceUs := 11, requests := 1, expired := [(1, 11)] }

theorem awaitOrphans_crowdedLink (bound : ℕ) :
    awaitOrphans scheduled.ops 3000000 (bound + 1)
        { link := owingLink 256 (517 + 1)
          router := expiredRouter } =
      (some .ok, { link := owingLink 256 (512 + 5)
                   router := gaveUpRouter }) := by
  rw [awaitOrphans, getRouter, bind_of_some (gets_apply _ _), if_neg (by decide), now,
    bind_of_some (onLink_now_crowdedLink _ (by decide)), bind_of_some (gets_apply _ _),
    if_pos (by decide)]
  rfl

theorem onLink_send_crowdedLink (r : Router) :
    onLink scheduled.ops (scheduled.ops.send (requestFor psr psrBytes) 3000000)
        { link := owingLink 256 (512 + 5)
          router := r } =
      (some (.ok ()), { link := askedLink 512 3
                        router := r }) := by
  simp only [onLink, ops, send_crowdedLink, inbox_crowdedLink (by decide : 512 ≤ 512),
    inbox_crowdedLink (by decide : 256 ≤ 512), drop_nil, foldl_nil]

def takenRouter (waiting : Bool) : Router :=
  { reply := replyWith 7, replyLength := replyBytes, haveReply := true, waiting := waiting
    orphanSinceUs := 11, requests := 2, replies := 1, fates := [(.taken, some 2)]
    expired := [(1, 11)] }

theorem awaitReply_crowdedLink :
    awaitReply scheduled.ops 3000000 (scheduled.rounds (askedLink 512 3) + 1)
        { link := askedLink 512 3
          router := gaveUpRouter.asked } =
      (some .ok, { link := askedLink 513 0
                   router := takenRouter true }) := by
  decide +kernel

theorem takeReply_takenRouter :
    takeReply (ε := LinkError) psrBytes { link := w, router := takenRouter true } =
      (some (.ok (replicate 4 7)), { link := w, router := takenRouter false }) := by
  have hjudge : (takenRouter false).judge (ε := LinkError) psrBytes = .ok (replicate 4 7) := by
    decide +kernel
  have hwait : modifyRouter (fun r => { r with waiting := false })
      { link := w, router := takenRouter true } =
      (some (), { link := w, router := takenRouter false }) := rfl
  rw [takeReply, bind_of_some hwait, getRouter, bind_of_some (gets_apply _ _), hjudge]
  rfl

/-- The next sample gives the owed reply up, and takes it for its own. -/
theorem sample_crowded :
    sample scheduled.ops psr psrBytes 3000000
        { link := crowdedLink 0 11 (512 + (517 + 1)) [requestFor bst bstBytes]
            { now := 11, frames := crowd }
          router := expiredRouter } =
      (some (.ok (replicate 4 7)),
        { link := askedLink 513 0
          router := takenRouter false }) := by
  exact sample_ok (by decide) (onLink_poll_crowdedLink expiredRouter (by decide) (by decide))
    (awaitOrphans_crowdedLink _) (onLink_send_crowdedLink gaveUpRouter) awaitReply_crowdedLink
    takeReply_takenRouter

theorem mem_crowd {a : Arrival} (ha : a ∈ crowd.map fun f => (⟨f, 11, 1⟩ : Arrival)) :
    a = ⟨.other, 11, 1⟩ ∨ a = ⟨.message (replyWith 7) (some 1), 11, 1⟩ := by
  obtain ⟨f, hf, rfl⟩ := mem_map.mp ha
  rcases mem_append.mp hf with hf | hf
  · exact .inl (by rw [(mem_replicate.mp hf).2])
  · exact .inr (by rw [mem_singleton.mp hf])

theorem answering_crowd {r : Router} (hr : r.expired = [(1, 11)]) :
    Answering (crowdedLink read clock m requests last) r := by
  refine ⟨?_, ?_, ?_, ?_⟩
  · intro a ha data n hf
    rcases mem_crowd ha with rfl | rfl
    · cases hf
    · cases hf
      exact iff_of_true (by decide +kernel) rfl
  · rw [crowdedLink, crowd, map_append, filterMap_append, map_replicate,
      filterMap_replicate_of_none rfl]
    exact pairwise_singleton _ _
  · intro a ha k hk
    rcases mem_crowd ha with rfl | rfl
    · cases hk
    · cases hk
      exact ⟨le_rfl, le_rfl⟩
  · intro a ha k hk t ht
    rw [hr, mem_singleton] at ht
    cases ht
    rcases mem_crowd ha with rfl | rfl
    · cases hk
    · exact Nat.le_add_right _ _

/-- A reply that arrived in time is taken for the next request's, to which no reply ever came: more
frames were waiting before it than the polls of one sample handle. -/
theorem late_reply_taken :
    let run := runOps scheduled [.sample bst bstBytes 10] (fresh crowdedTurns)
    run.1 = some () ∧ ∃ c,
      sample scheduled.ops psr psrBytes 3000000 run.2 = (some (.ok (replicate 4 7)), c) ∧
      Answering c.link c.router ∧ c.link.requests.length = 2 ∧
      ∀ a ∈ c.link.stream, a.frame.answers? ≠ some 2 := by
  rw [run_crowdedTurns]
  refine ⟨rfl, _, sample_crowded, answering_crowd rfl, rfl, ?_⟩
  intro a ha
  rcases mem_crowd ha with rfl | rfl <;> decide

end Q1n1.Pmic
