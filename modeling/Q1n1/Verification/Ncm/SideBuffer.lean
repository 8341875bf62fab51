import Q1n1.Model.Ncm.Outgoing
import Q1n1.Verification.Xhci.Slots

/-! # Who owns the side buffer -/

namespace Q1n1.Ncm

open Xhci List Option Port Driver

/-! ## The link -/

theorem frameRefused_side {n : Link} {capacity length : ℕ} {shortEnd : Bool} {r : Int × Link}
    (h : n.frameRefused capacity length shortEnd = some r) : r.2.side = n.side := by
  simp only [Link.frameRefused] at h
  split at h
  · rw [← Option.some.inj h]
  · split at h
    · rw [← Option.some.inj h]
      rfl
    · cases h

theorem send_side (n : Link) (frame : List UInt8) : (n.send frame false).2.side = n.side := by
  simp only [Link.send]
  split
  · rename_i refused h
    exact frameRefused_side h
  · rfl

theorem flush_side (n : Link) : (n.flush false).2.side = n.side := by
  simp only [Link.flush]
  split
  · rfl
  · split <;> rfl

theorem queueFrom_side (n : Link) (frame : List UInt8) (attempts : ℕ) :
    (n.queueFrom frame false attempts).2.side = n.side := by
  induction attempts generalizing n with
  | zero => rfl
  | succ attempts ih =>
    simp only [Link.queueFrom]
    split
    · rfl
    · split
      · rfl
      · split
        · rfl
        · split
          · exact flush_side n
          · exact (ih _).trans (flush_side n)

theorem queue_side (n : Link) (frame : List UInt8) : (n.queue frame false).2.side = n.side := by
  simp only [Link.queue]
  split
  · exact send_side n frame
  · split
    · rfl
    · exact queueFrom_side n frame 2

/-- The request is one of those that wait for their own transfer. -/
def Request.Waited : Request → Prop
  | .sendSide _ => False
  | _ => True

variable {r : Request}

theorem ended_side (hr : r.Waited) {result : Int} (h : result < 0) (n : Link) :
    ((r.ended result).run n).2.side = n.side := by
  have hdone : decide (0 ≤ result) = false := decide_eq_false (by omega)
  cases r with
  | send frame =>
    simp only [Request.ended, Call.run, hdone]
    exact send_side n frame
  | sendSide frame => exact hr.elim
  | queue frame =>
    simp only [Request.ended, Call.run, hdone]
    exact queue_side n frame
  | flush =>
    simp only [Request.ended, Call.run, hdone]
    exact flush_side n

theorem frameRefused_none_congr {n m : Link} {capacity length : ℕ} {shortEnd : Bool}
    (hattached : m.attached = n.attached) (hp : m.p = n.p)
    (h : n.frameRefused capacity length shortEnd = none) :
    m.frameRefused capacity length shortEnd = none := by
  simp only [Link.frameRefused] at h ⊢
  rw [hattached, hp]
  split at h
  · cases h
  · rename_i hlength
    rw [if_neg hlength]
    split at h
    · cases h
    · rename_i hroom
      rw [if_neg hroom]

theorem sendSide_side {n : Link} {s : Side} {frame : List UInt8} {ended : Int}
    (hside : n.side = some s) (hfree : ¬(s.inflight = true ∧ ended = 0))
    (hframe : n.frameRefused s.size frame.length true = none) :
    (n.sendSide frame ended true).2.side =
      some { s with buffer := frameNtb n.p n.sequence s.buffer frame true, inflight := true } := by
  have hattached : ¬n.attached = false := by
    intro hno
    simp [Link.frameRefused, hno] at hframe
  simp only [Link.sendSide, hside]
  rw [if_neg hattached, if_neg hfree]
  generalize hn : (if s.inflight = true ∧ ended < 0 then n.sendFailed else n) = n'
  have hsame : n'.attached = n.attached ∧ n'.p = n.p ∧ n'.sequence = n.sequence := by
    rw [← hn]
    split <;> exact ⟨rfl, rfl, rfl⟩
  split
  · rename_i refused hrefused
    have hnone := frameRefused_none_congr
      (m := { n' with side := some { s with inflight := false } })
      hsame.1 hsame.2.1 hframe
    exact absurd (hrefused.symm.trans hnone) (by simp)
  · rw [if_pos trivial, ← hsame.2.1, ← hsame.2.2]
    rfl

theorem frameTotal_shortEnd (p : Params) (length : ℕ) : frameTotal p length true % 512 ≠ 0 := by
  simp only [frameTotal, frameNdp, true_and]
  split <;> omega

/-! ## The port -/

def Port.Holds (m : Port) (s : Started) (address : ℕ) : Prop :=
  ∃ side, m.link.side = some side ∧ side.inflight = true ∧ side.buffer = s.buffer ∧
    m.inflight.address = address

/-- What holds whatever the driver waits for. -/
structure Port.Owned (m : Port) : Prop where
  orderly : m.driver.Orderly m.out
  fresh : ∀ o ∈ m.driver.outstanding m.out, o.serial < m.driver.serial
  past : ∀ s ∈ m.started, s.serial < m.driver.serial
  short : ∀ s ∈ m.started, s.length % 512 ≠ 0
  holds : ∀ s ∈ m.started, ∀ o ∈ m.driver.outstanding m.out, o.serial = s.serial →
    m.Holds s o.address

def Port.Free (m : Port) : Prop :=
  ∀ s ∈ m.started, ∀ o ∈ m.driver.outstanding m.out, o.serial ≠ s.serial

/-- What the wait of a call is for: the side transfer, or the last TRB of the ring. -/
structure Port.Awaits (m : Port) (w : Wait) (r : Request) : Prop where
  type : w.type = trbTransferEvent
  goal : w.goal = .sent ∨ (∃ length, w.goal = .send m.device m.dciOut length) ∨
    ∃ length, w.goal = .sendEnd length
  side : w.goal = .sent → (∃ frame, r = .sendSide frame) ∧ w.trb = m.inflight.address ∧
    ∃ s, m.link.side = some s ∧ s.inflight = true
  last : w.goal ≠ .sent → r.Waited ∧
    ∀ o, (m.driver.outstanding m.out).getLast? = some o → o.address = w.trb

structure Port.Inv (m : Port) : Prop where
  owned : m.Owned
  waits : match m.call with
    | none => m.driver.waiting = none
    | some r => ∃ w, m.driver.waiting = some w ∧ m.Awaits w r

variable {m : Port}

theorem Port.Owned.of_link (h : m.Owned) (link : Link) (hlink : m.Free ∨ link.side = m.link.side)
    (call : Option Request) : ({ m with link, call } : Port).Owned := by
  refine { h with holds := fun s hs o ho heq => ?_ }
  rcases hlink with hfree | hside
  · exact absurd heq (hfree s hs o ho)
  · simpa only [Holds, hside] using h.holds s hs o ho heq

variable {y : Driver}

theorem Port.Owned.reading (h : m.Owned) (hr : m.driver.Reading y) :
    ({ m with driver := y } : Port).Owned := by
  refine ⟨h.orderly.reading hr, ?_, ?_, h.short, ?_⟩
  all_goals simp only [hr.outstanding, hr.serial]
  · exact h.fresh
  · exact h.past
  · exact h.holds

theorem Port.Free.reading (h : m.Free) (hr : m.driver.Reading y) :
    ({ m with driver := y } : Port).Free :=
  fun s hs o ho => h s hs o (hr.outstanding ▸ ho)

theorem Port.Owned.push (h : m.Owned) {s : Submission} (horderly : y.Orderly m.out)
    (houtstanding : y.outstanding m.out =
      m.driver.outstanding m.out ++ [m.driver.nextOutstanding m.out s])
    (hserial : y.serial = m.driver.serial + 1) : ({ m with driver := y } : Port).Owned := by
  have hmem : ∀ o ∈ y.outstanding m.out, o ∈ m.driver.outstanding m.out ∨
      o.serial = m.driver.serial := by
    simp only [houtstanding, mem_append, mem_singleton]
    rintro o (ho | rfl)
    · exact .inl ho
    · exact .inr rfl
  refine ⟨horderly, fun o ho => ?_, fun s hs => ?_, h.short, fun s hs o ho heq => ?_⟩
  · dsimp only
    rcases hmem o ho with hold | hnew
    · have := h.fresh o hold
      omega
    · omega
  · exact hserial ▸ Nat.lt_succ_of_lt (h.past s hs)
  · rcases hmem o ho with hold | hnew
    · exact h.holds s hs o hold heq
    · exact absurd (heq.symm.trans hnew) (h.past s hs).ne

theorem outstanding_eq_nil {l : List Outstanding} {address : ℕ}
    (hlast : ∀ o, l.getLast? = some o → o.address = address)
    (hvacant : address ∉ l.map Outstanding.address) : l = [] := by
  cases hl : l.getLast? with
  | none => exact List.getLast?_eq_none_iff.mp hl
  | some o =>
    exact absurd (mem_map.mpr ⟨o, mem_of_getLast? hl, hlast o hl⟩) hvacant

theorem Port.Owned.sendStart (h : m.Owned) (hslot : m.driver.SlotFree m.out) (length : ℕ) :
    let y := m.driver.start (.sendStart m.device m.dciOut m.sideAddress length)
    y.waiting = m.driver.waiting ∧ ({ m with driver := y } : Port).Owned ∧
      ((y.results.getLast? = some 0 ∧ y.outstanding = m.driver.outstanding) ∨
        y.results.getLast? = some (m.driver.nextSlot m.out : Int) ∧ m.driver.nextSlot m.out ≠ 0 ∧
        y.serial = m.driver.serial + 1 ∧ y.outstanding m.out = m.driver.outstanding m.out ++
          [m.driver.nextOutstanding m.out (normalSubmission m.sideAddress length)]) := by
  simp only [start]
  split
  · exact ⟨rfl, h.reading (m.driver.reading_keep _ _ _ _), .inl ⟨by simp [returns], rfl⟩⟩
  · rename_i husable
    simp only [unusable, Bool.or_eq_true, decide_eq_true_eq, not_or] at husable
    have hpushed := m.driver.push_outstanding m.out (normalSubmission m.sideAddress length)
    exact ⟨rfl, h.push ((h.orderly.push hslot _).reading (reading_keep _ _ _ _ _)) hpushed
      rfl, .inr ⟨by simp [returns, out], h.orderly.nextSlot_ne husable.1.1.2, rfl,
        hpushed⟩⟩

theorem Port.Owned.launch (h : m.Owned) (hfree : m.Free) (hcall : m.call = none)
    (hwaiting : m.driver.waiting = none) (hslot : m.driver.SlotFree m.out) (frame : List UInt8)
    {ended : Int} (hended : ∀ s, m.link.side = some s → ¬(s.inflight = true ∧ ended = 0)) :
    (m.launch frame ended).Inv := by
  have hidle : ∀ m' : Port, m'.Owned → m'.call = none → m'.driver.waiting = none → m'.Inv := by
    intro m' hm' hc hw
    exact ⟨hm', by rw [hc]; exact hw⟩
  simp only [Port.launch]
  split
  · exact hidle m h hcall hwaiting
  · rename_i s hside
    split
    · exact hidle _ (h.of_link _ (.inl hfree) _) hcall hwaiting
    · rename_i hframe
      rw [not_isSome_iff_eq_none] at hframe
      obtain ⟨hw, howned, hcases⟩ := h.sendStart hslot (frameTotal m.link.p frame.length true)
      generalize m.driver.start (.sendStart m.device m.dciOut m.sideAddress
        (frameTotal m.link.p frame.length true)) = y at hw howned hcases ⊢
      rcases hcases with ⟨hresult, hsame⟩ | ⟨hresult, hne, hserial, hpushed⟩
      · rw [hresult, getD_some, if_pos rfl]
        refine hidle _ (howned.of_link _ (.inl fun s hs o ho => ?_) _) hcall (hw.trans hwaiting)
        exact hfree s hs o (hsame ▸ ho)
      · rw [hresult, getD_some, if_neg (by exact_mod_cast hne)]
        refine hidle _ ⟨howned.orderly, howned.fresh, ?_, ?_, ?_⟩ hcall (hw.trans hwaiting)
        · simp only [mem_append, mem_singleton]
          rintro s (hs | rfl)
          · exact howned.past s hs
          · exact hserial ▸ Nat.lt_succ_self _
        · simp only [mem_append, mem_singleton]
          rintro s (hs | rfl)
          · exact h.short s hs
          · exact frameTotal_shortEnd m.link.p frame.length
        · intro s' hs' o ho heq
          have ho' : o ∈ y.outstanding m.out := ho
          rw [hpushed, mem_append, mem_singleton] at ho'
          rcases mem_append.mp hs' with hs' | hs'
          · rcases ho' with ho' | rfl
            · exact absurd heq (hfree s' hs' o ho')
            · exact absurd heq.symm (h.past s' hs').ne
          · obtain rfl := mem_singleton.mp hs'
            rcases ho' with ho' | rfl
            · exact absurd heq (h.fresh o ho').ne
            · exact ⟨_, sendSide_side hside (hended s hside) hframe, rfl, rfl, Int.toNat_natCast _⟩

/-! ## Calls that have waited -/

variable {w : Wait}

theorem Port.settle_of_waiting (h : m.driver.waiting = some w) : m.settle = m := by
  rw [Port.settle]
  split
  · rfl
  · simp [h]

theorem Port.settle_of_done (hcall : m.call = some r) (hwaiting : m.driver.waiting = none) :
    m.settle = m.finish r := by
  simp [Port.settle, hcall, hwaiting]

theorem Port.Owned.finish_waited (h : m.Owned) (hr : r.Waited) (hwaiting : m.driver.waiting = none)
    (hended : m.result < 0 ∨ m.Free) : (m.finish r).Inv := by
  have hfinish : m.finish r =
      { m with call := none, link := ((r.ended m.result).run m.link).2 } := by
    cases r with
    | sendSide frame => exact hr.elim
    | _ => rfl
  rw [hfinish]
  refine ⟨h.of_link _ ?_ none, hwaiting⟩
  exact hended.symm.imp id fun hfailed => ended_side hr hfailed m.link

theorem Port.Owned.finish_side (h : m.Owned) {s : Side} (hside : m.link.side = some s)
    (hinflight : s.inflight = true) (hwaiting : m.driver.waiting = none) (frame : List UInt8)
    (hended : m.result = 0 ∨ m.Free ∧ m.driver.SlotFree m.out) :
    (m.finish (.sendSide frame)).Inv := by
  have hsame : (m.link.sendSide frame 0 false).2 = m.link := by
    simp only [Link.sendSide, hside]
    split
    · rfl
    · rw [if_pos ⟨hinflight, trivial⟩]
  simp only [Port.finish]
  split
  · rw [hsame]
    exact ⟨h.of_link _ (.inr rfl) none, hwaiting⟩
  · rename_i hresult
    obtain ⟨hfree, hslot⟩ := hended.resolve_left hresult
    exact (h.of_link m.link (.inr rfl) none).launch hfree rfl hwaiting hslot frame
      fun _ _ hzero => hresult hzero.2

theorem Port.Owned.gaveUp (h : m.Owned) (hcall : m.call = some r) (hw : m.Awaits w r)
    (hr : m.driver.Reading y) (hwaiting : y.waiting = none)
    (hresults : y.results = m.driver.results ++ [w.goal.timedOut]) :
    (Port.settle { m with driver := y }).Inv := by
  have howned := h.reading hr
  have hresult : ({ m with driver := y } : Port).result = w.goal.timedOut := by
    simp [result, hresults]
  rw [settle_of_done (m := { m with driver := y }) hcall hwaiting]
  by_cases hgoal : w.goal = .sent
  · obtain ⟨⟨frame, rfl⟩, -, s, hside, hinflight⟩ := hw.side hgoal
    exact howned.finish_side hside hinflight hwaiting frame (.inl (by rw [hresult, hgoal]; rfl))
  · refine howned.finish_waited (hw.last hgoal).1 hwaiting (.inl ?_)
    rw [hresult]
    rcases hw.goal with hg | ⟨length, hg⟩ | ⟨length, hg⟩
    · exact absurd hg hgoal
    · simp [hg, Goal.timedOut]
    · simp [hg, Goal.timedOut]

theorem Port.Owned.free_of_event (h : m.Owned) (hw : m.Awaits w r) {e : Event}
    (he : e ∈ m.driver.events) (htype : e.type = w.type) (htrb : e.parameter = w.trb) : m.Free := by
  have hvacant := htrb ▸ h.orderly.spares e he (htype.trans hw.type)
  intro s hs o ho heq
  by_cases hgoal : w.goal = .sent
  · obtain ⟨-, -, -, -, haddress⟩ := h.holds s hs o ho heq
    rw [(hw.side hgoal).2.1, haddress] at hvacant
    exact hvacant (mem_map_of_mem ho)
  · rw [outstanding_eq_nil (hw.last hgoal).2 hvacant] at ho
    cases ho

theorem Port.Owned.outcome (h : m.Owned) (hcall : m.call = some r) (hw : m.Awaits w r)
    (hslot : m.driver.SlotFree m.out) (houtcome : m.driver.Outcome m.device m.dciOut w y) :
    (Port.settle { m with driver := y }).Inv := by
  cases houtcome with
  | waits w' waiting goal type trb reading =>
    rw [settle_of_waiting (m := { m with driver := y }) waiting]
    refine ⟨h.reading reading, ?_⟩
    dsimp only
    rw [hcall]
    refine ⟨w', waiting, type.trans hw.type, goal ▸ hw.goal, ?_, ?_⟩
    · rw [goal, trb]
      exact hw.side
    · rw [goal, trb, reading.outstanding]
      exact hw.last
  | gaveUp waiting results reading => exact h.gaveUp hcall hw reading waiting results
  | ended waiting e event type trb reading =>
    have hfree := (h.free_of_event hw event type trb).reading reading
    rw [settle_of_done (m := { m with driver := y }) hcall waiting]
    by_cases hgoal : w.goal = .sent
    · obtain ⟨⟨frame, rfl⟩, -, s, hside, hinflight⟩ := hw.side hgoal
      exact (h.reading reading).finish_side hside hinflight waiting frame
        (.inr ⟨hfree, hslot.reading reading⟩)
    · exact (h.reading reading).finish_waited (hw.last hgoal).1 waiting (.inr hfree)
  | goesOn length goal z reading push =>
    have hlast := z.push_outstanding m.out zeroLengthSubmission
    have howned : ({ m with driver := y } : Port).Owned := by
      rw [push]
      exact (h.reading reading).push ((((h.orderly.reading reading).push
        (hslot.reading reading) _).reading (reading_keep _ _ _ _ _))) hlast rfl
    rw [settle_of_waiting (m := { m with driver := y }) (by rw [push])]
    refine ⟨howned, ?_⟩
    dsimp only
    rw [hcall, push]
    refine ⟨_, rfl, rfl, .inr (.inr ⟨length, rfl⟩), fun hg => (by cases hg), fun _ => ⟨?_, ?_⟩⟩
    · exact (hw.last (by simp [goal])).1
    · intro o ho
      have ho' : ((z.push m.out zeroLengthSubmission).outstanding m.out).getLast? = some o := ho
      rw [hlast, List.getLast?_concat] at ho'
      rw [← Option.some.inj ho']
      rfl

/-! ## Steps -/

/-- The next slot of the ring is free whenever a call of the link is made or looks at the
events. -/
def Port.Clear (m : Port) : PortAct → Prop
  | .call _ => m.call = none → m.driver.SlotFree m.out
  | .poll => m.call ≠ none → m.driver.SlotFree m.out
  | _ => True

theorem Port.Awaits.goal_out (h : m.Awaits w r) :
    ∀ d c length, w.goal = .send d c length → d = m.device ∧ c = m.dciOut := by
  intro d c length hgoal
  rcases h.goal with hg | ⟨length', hg⟩ | ⟨length', hg⟩
  all_goals simp_all

section

variable (h : m.Inv)
include h

theorem Port.Inv.idle (hcall : m.call = none) : m.driver.waiting = none := by
  simpa [hcall] using h.waits

theorem Port.Inv.waiting (hcall : m.call = some r) :
    ∃ w, m.driver.waiting = some w ∧ m.Awaits w r := by
  simpa [hcall] using h.waits

theorem Port.Inv.settle : m.settle.Inv := by
  rcases eq_none_or_eq_some m.call with hcall | ⟨r, hcall⟩
  · rwa [Port.settle, hcall]
  · obtain ⟨w, hw, -⟩ := h.waiting hcall
    rwa [settle_of_waiting hw]

theorem Port.Inv.poll (hclear : m.Clear .poll) : (m.step .poll).Inv := by
  rcases eq_none_or_eq_some m.call with hcall | ⟨r, hcall⟩
  · simpa [Port.step, Driver.step, h.idle hcall] using h.settle
  · obtain ⟨w, hw, hawaits⟩ := h.waiting hcall
    simp only [Port.step, Driver.step, hw]
    exact h.owned.outcome hcall hawaits (hclear (by simp [hcall]))
      (pollFor_outcome h.owned.orderly.reads hawaits.goal_out)

theorem Port.Inv.expire : (m.step .expire).Inv := by
  rcases eq_none_or_eq_some m.call with hcall | ⟨r, hcall⟩
  · simpa [Port.step, Driver.step, h.idle hcall] using h.settle
  · obtain ⟨w, hw, hawaits⟩ := h.waiting hcall
    simp only [Port.step, Driver.step, hw]
    split
    · exact h.owned.gaveUp hcall hawaits (m.driver.reading_keep _ _ _ _) rfl rfl
    · exact h.settle

theorem Port.Inv.controller (horderly : y.Orderly m.out)
    (hwaiting : y.waiting = m.driver.waiting) (hserial : y.serial = m.driver.serial)
    (houtstanding : y.outstanding m.out = m.driver.outstanding m.out ∨
      ∃ o, m.driver.outstanding m.out = o :: y.outstanding m.out) :
    ({ m with driver := y } : Port).Inv := by
  have hmem : ∀ o ∈ y.outstanding m.out, o ∈ m.driver.outstanding m.out := by grind
  have hlast : ∀ o, (y.outstanding m.out).getLast? = some o →
      (m.driver.outstanding m.out).getLast? = some o := by
    intro o ho
    rcases houtstanding with heq | ⟨first, heq⟩
    · rwa [← heq]
    · rw [heq, List.getLast?_cons, ho, getD_some]
  refine ⟨⟨horderly, fun o ho => hserial ▸ h.owned.fresh o (hmem o ho),
    fun s hs => hserial ▸ h.owned.past s hs, h.owned.short,
    fun s hs o ho => h.owned.holds s hs o (hmem o ho)⟩, ?_⟩
  rcases eq_none_or_eq_some m.call with hcall | ⟨r, hcall⟩
  · simp [hcall, hwaiting, h.idle hcall]
  · obtain ⟨w, hw, hawaits⟩ := h.waiting hcall
    dsimp only
    rw [hcall, hwaiting]
    exact ⟨w, hw, hawaits.type, hawaits.goal, hawaits.side, fun hg => ⟨(hawaits.last hg).1,
      fun o ho => (hawaits.last hg).2 o (hlast o ho)⟩⟩

theorem Port.Inv.complete (status high : ℕ) : (m.step (.complete status high)).Inv := by
  refine h.controller (h.owned.orderly.complete status high) ?_ ?_ ?_
  all_goals
    simp only [Driver.complete]
    split
    · simp
    · split <;> try split
      all_goals simp [post, *]

theorem Port.Inv.portChange (parameter status high : ℕ) :
    (m.step (.portChange parameter status high)).Inv := by
  refine h.controller (h.owned.orderly.portChange parameter status high) ?_ ?_ (.inl ?_)
  all_goals
    simp only [Driver.portChange]
    split <;> rfl

theorem Port.Inv.enter_waited (hcall : m.call = none) (hslot : m.driver.SlotFree m.out)
    (hr : r.Waited) : (m.enter r).Inv := by
  have hwaiting := h.idle hcall
  have hentered : ({ m with call := some r } : Port).Owned :=
    h.owned.of_link m.link (.inr rfl) (some r)
  cases hblock : m.link.block r with
  | none =>
    have henter : m.enter r = { m with link := ((r.ended (-1)).run m.link).2 } := by
      cases r with
      | sendSide frame => exact hr.elim
      | _ => simp only [enter, hblock]
    rw [henter]
    refine ⟨h.owned.of_link _ (.inr (ended_side hr (by decide) m.link)) m.call, ?_⟩
    simpa [hcall] using hwaiting
  | some b =>
    have henter : m.enter r = Port.settle { m with
        call := some r
        driver := m.driver.start (.send m.device m.dciOut
          (if b.batched then m.batchAddress else m.outAddress) b.length) } := by
      cases r with
      | sendSide frame => exact hr.elim
      | _ => simp only [enter, hblock]
    rw [henter]
    simp only [start]
    split
    · rw [settle_of_done (m := { m with
        driver := m.driver.returns (-1), call := some r }) (r := r) rfl hwaiting]
      refine (hentered.reading (m.driver.reading_keep _ _ _ _)).finish_waited hr hwaiting
        (.inl ?_)
      simp [result]
    · have hnone : takeDeferred trbTransferEvent (m.driver.nextSlot m.out)
          (m.driver.push m.out (normalSubmission
            (if b.batched then m.batchAddress else m.outAddress) b.length)).deferred = none :=
        takeDeferred_forget _ (.inl rfl) _
      have hlast := m.driver.push_outstanding m.out (normalSubmission
        (if b.batched then m.batchAddress else m.outAddress) b.length)
      simp only [out] at hnone
      simp only [Driver.submit, Driver.await, RingId.eventType, hnone]
      rw [Port.settle]
      refine ⟨hentered.push ((h.owned.orderly.push hslot _).reading
        (reading_keep _ _ _ _ _)) hlast rfl, _, rfl, rfl, .inr (.inl ⟨b.length, rfl⟩),
        fun hg => (by cases hg), fun _ => ⟨hr, fun o ho => ?_⟩⟩
      have ho' := hlast ▸ ho
      rw [List.getLast?_concat] at ho'
      rw [← Option.some.inj ho']
      rfl

theorem Port.Inv.enter_side (hcall : m.call = none) (hslot : m.driver.SlotFree m.out)
    (frame : List UInt8) : (m.enter (.sendSide frame)).Inv := by
  simp only [enter]
  split
  · exact h
  · rename_i s hside
    split
    · exact h
    · split
      · rename_i hinflight
        have hentered : ({ m with call := some (.sendSide frame) } : Port).Owned :=
          h.owned.of_link m.link (.inr rfl) _
        refine hentered.outcome rfl (w :=
          { goal := .sent
            type := trbTransferEvent
            trb := m.inflight.address
            serial := m.inflight.serial
            polls := some eventTrbs }) ⟨rfl, .inl rfl, fun _ => ⟨⟨frame, rfl⟩, rfl, s, hside,
              hinflight⟩, fun hg => absurd rfl hg⟩ hslot (Driver.await_outcome ?_)
        exact fun _ _ _ hg => by cases hg
      · rename_i hidle
        refine h.owned.launch (fun s' hs' o ho heq => ?_) hcall (h.idle hcall) hslot frame ?_
        · obtain ⟨side, hlink, hinflight, -⟩ := h.owned.holds s' hs' o ho heq
          simp_all
        · simp_all

theorem Port.Inv.step {a : PortAct} (hclear : m.Clear a) : (m.step a).Inv := by
  cases a with
  | call r =>
    simp only [Port.step]
    split
    · rename_i hnone
      have hcall := isNone_iff_eq_none.mp hnone
      cases r with
      | sendSide frame => exact h.enter_side hcall (hclear hcall) frame
      | _ => exact h.enter_waited hcall (hclear hcall) trivial
    · exact h
  | poll => exact h.poll hclear
  | expire => exact h.expire
  | complete status high => exact h.complete status high
  | portChange parameter status high => exact h.portChange parameter status high

end

/-! ## Runs -/

/-- Every step of the run is taken in a state that is clear for it. -/
def Port.ClearRun (m : Port) : List PortAct → Prop
  | [] => True
  | a :: acts => m.Clear a ∧ (m.step a).ClearRun acts

theorem Port.Inv.run (h : m.Inv) (acts : List PortAct) (hclear : m.ClearRun acts) :
    (m.run acts).Inv := by
  induction acts generalizing m with
  | nil => exact h
  | cons a acts ih => exact ih (h.step hclear.1) hclear.2

def Port.initial (link : Link) (rings : RingId → Ring) (device dciOut : ℕ) : Port where
  link := link
  driver := { rings }
  device := device
  dciOut := dciOut

/-- From the moment a side transfer is started until the controller has completed it, the side
buffer is as it was, and no side block is a whole number of packets: in every run in which the
slot that the next push takes is free whenever the link makes or goes on with a call. -/
theorem Port.run_keeps_side (link : Link) {rings : RingId → Ring} {device dciOut : ℕ}
    (hring : (rings (.ep device dciOut)).Placed) (acts : List PortAct)
    (hclear : (Port.initial link rings device dciOut).ClearRun acts) :
    let m := (Port.initial link rings device dciOut).run acts
    ∀ s ∈ m.started, s.length % 512 ≠ 0 ∧ ∀ o ∈ m.driver.outstanding m.out, o.serial = s.serial →
        ∃ side, m.link.side = some side ∧ side.buffer = s.buffer := by
  intro m s hs
  have hinitial : (Port.initial link rings device dciOut).Inv := by
    refine ⟨⟨⟨Driver.reads_init rings, hring, ?_, ?_, ?_⟩, ?_, ?_, ?_, ?_⟩, rfl⟩
    all_goals simp [Port.initial, Driver.addresses, Driver.events, Driver.unread]
  have hinv := hinitial.run acts hclear
  refine ⟨hinv.owned.short s hs, fun o ho heq => ?_⟩
  obtain ⟨side, hside, -, hbuffer, -⟩ := hinv.owned.holds s hs o ho heq
  exact ⟨side, hside, hbuffer⟩

instance (x : Driver) (out : RingId) : Decidable (x.SlotFree out) :=
  decidable_of_iff (x.nextSlot out ∉ x.addresses out ∧
      ∀ p ∈ x.unread, p.event.type = trbTransferEvent → p.event.parameter ≠ x.nextSlot out)
    ⟨fun h => ⟨h.1, h.2⟩, fun h => ⟨h.completed, h.read⟩⟩

instance (m : Port) (a : PortAct) : Decidable (m.Clear a) :=
  match a with
  | .call _ => inferInstanceAs (Decidable (m.call = none → m.driver.SlotFree m.out))
  | .poll => inferInstanceAs (Decidable (m.call ≠ none → m.driver.SlotFree m.out))
  | .expire => .isTrue trivial
  | .complete _ _ => .isTrue trivial
  | .portChange _ _ _ => .isTrue trivial

theorem Port.clearRun_iff (m : Port) (acts : List PortAct) :
    m.ClearRun acts ↔ ∀ i (h : i < acts.length), (m.run (acts.take i)).Clear acts[i] := by
  induction acts generalizing m with
  | nil => simp [ClearRun]
  | cons a acts ih =>
    rw [ClearRun, ih]
    constructor
    · rintro ⟨hfirst, hrest⟩ (_ | i) hi
      · exact hfirst
      · exact hrest i (Nat.lt_of_succ_lt_succ hi)
    · exact fun h => ⟨h 0 (Nat.succ_pos _), fun i hi => h (i + 1) (Nat.succ_lt_succ hi)⟩

instance (m : Port) (acts : List PortAct) : Decidable (m.ClearRun acts) :=
  decidable_of_iff' _ (m.clearRun_iff acts)

/-- A link with a side buffer, on rings of 64 TRBs. -/
def sidePort : Port :=
  Port.initial (openLink (List.replicate 28 0) {} false) someRings 1 3

/-- A side transfer that is asked about too early, and one after it. -/
def twoSideSends : List PortAct :=
  [.call (.sendSide [1, 2]), .call (.sendSide [3, 4]), .poll, .complete (2 ^ 24) 0,
    .call (.sendSide [5, 6]), .poll]

theorem Port.run_keeps_side_twice :
    (sidePort.run twoSideSends).started.map Started.serial = [0, 1] ∧
      ∀ s ∈ (sidePort.run twoSideSends).started, s.length % 512 ≠ 0 ∧
        ∀ o ∈ (sidePort.run twoSideSends).driver.outstanding (sidePort.run twoSideSends).out,
          o.serial = s.serial → ∃ side, (sidePort.run twoSideSends).link.side = some side ∧
            side.buffer = s.buffer :=
  ⟨by decide +kernel, Port.run_keeps_side _ (fun _ => by decide) twoSideSends
    (by decide +kernel)⟩

/-- Sends that fill the ring and all time out; a side transfer in the slot of the first; and
the first, completed at last. -/
def lapTimedOut : List PortAct :=
  (List.replicate 63 [PortAct.call (.send [7]), .poll, .expire]).flatten ++
    [.call (.sendSide [1, 2]), .complete (2 ^ 24) 0, .call (.sendSide [3, 4]), .poll]

/-- The check of the side transfer takes that event for its own: the buffer is rewritten while
the transfer is outstanding. -/
theorem lapTimedOut_rewrites :
    let m := sidePort.run lapTimedOut
    m.started.map (fun s => (s.serial, s.buffer 12)) = [(63, 1), (64, 3)] ∧
      63 ∈ (m.driver.outstanding m.out).map Outstanding.serial ∧
      m.link.side.map (fun side => side.buffer 12) = some 3 := by
  decide +kernel

end Q1n1.Ncm
