import Q1n1.Model.LiveBattery.Carry

/-! # The owed replies in the record -/

namespace Q1n1.LiveBattery

open Cut Pmic

/-- The record has the router's number of owed replies. -/
def Current (s : Live) : Prop := s.carry.1 = s.client.router.orphans

/-- A call that returns from a state with `P` leaves one with `Q`. -/
def Leads {α : Type} (P : Live → Prop) (m : Cut Live α) (Q : Live → Prop) : Prop :=
  Does (fun _ _ => True) P m fun _ => Q

variable {P Q : Live → Prop} {α : Type}

theorem leads_onLink {g : Session} {m : Cut Wire α} (h : ∀ s (messages : List _) w, P s →
      Q { s with client := ⟨w, messages.foldl Router.deliver s.client.router⟩ }) :
    Leads P (onSession g m) Q :=
  fun s hs => ⟨.single trivial, fun _ _ => h s _ _ hs⟩

theorem leads_modify {f : Live → Live} (h : ∀ s, P s → Q (f s)) : Leads P (modify f) Q :=
  does_modify (fun _ _ => trivial) h

variable (g : Session) (f : Flags) (x : Findings)

/-! ## A call -/

theorem onClient_bound (m : Cut (Client Wire) α) :
    Leads (·.bound = true) (onClient m) (·.bound = true) :=
  fun _ hs => ⟨.single trivial, fun _ _ => hs⟩

theorem readOut_bound (deadline : ℕ) :
    Leads (·.bound = true) (readOut g f deadline) (·.bound = true) := by
  refine does_cond ((onClient_bound _).bind fun _ => does_skip) ?_
  refine (onClient_bound _).bind fun ready => does_cond does_skip (does_cond ?_ ?_)
  · exact (onClient_bound _).bind fun _ => does_skip
  · exact (onClient_bound _).bind fun _ => does_skip

theorem runSession_bound : Leads (·.bound = true) (runSession g f x) (·.bound = true) := by
  refine does_get fun s _ => Does.bind (leads_modify (Q := (·.bound = true)) fun _ h => h) ?_
  refine fun _ => (onClient_bound _).bind fun continued => ?_
  refine does_cond (does_cond (onClient_bound _) does_skip) (does_cond ?_ ?_)
  · exact (onClient_bound _).bind fun _ => readOut_bound g f _
  · refine does_cond does_skip ((onClient_bound _).bind fun _ => ?_)
    refine (onClient_bound _).bind fun restarted => ?_
    exact does_cond (readOut_bound g f _) does_skip

theorem run_current :
    Leads Current (run g f x) fun s => Current s ∨ s.bound = true ∧ f.survey = false := by
  unfold run
  refine does_ite (fun _ => does_pure fun _ h => .inl h) fun hgo => ?_
  have hsurvey : f.survey = false := by simp_all
  cases hview : x.view with
  | false =>
    refine (leads_modify (Q := Current) fun s h => ?_).bind fun _ => does_pure fun _ h => .inl h
    simpa [Current] using h
  | true =>
    refine (leads_modify (Q := (·.bound = true)) fun s _ => ?_).bind fun _ => ?_
    · rfl
    · exact (runSession_bound g f x).post fun _ s h => .inr ⟨h, hsurvey⟩

theorem liveBatteryRun_current : Leads Current (liveBatteryRun g f x) Current := by
  refine Does.bind (leads_modify fun _ h => h) fun _ => Does.bind (run_current g f x) fun _ => ?_
  refine leads_modify fun s h => ?_
  split
  · rfl
  · rename_i hkeep
    rcases h with h | ⟨hbound, hsurvey⟩
    · exact h
    · simp [hbound, hsurvey] at hkeep

/-! ## Runs -/

/-- A tick at this time services the session. -/
def Live.Serviced (s : Live) (now : ℕ) : Prop :=
  s.bound = true ∧ g.started s.client.link = true ∧ serviceUs ≤ now - s.lastServiceUs

/-- A tick that services the session comes only while no reply is owed. -/
def Event.Clear (s : Live) : Event → Prop
  | .call .. => True
  | .tick now .. => s.Serviced g now → s.client.router.orphans = 0

def ClearRun : List Event → Live → Prop
  | [], _ => True
  | e :: rest, s => e.Clear g s ∧ ClearRun rest (e.perform g s).2

theorem deliver_orphans (messages : List (List UInt8)) {r : Router} (h : r.orphans = 0) :
    (messages.foldl Router.deliver r).orphans = 0 := by
  induction messages generalizing r with
  | nil => exact h
  | cons data messages ih =>
    refine ih ?_
    unfold Router.deliver
    split <;> simp [h]

theorem tickService_current (now : ℕ) :
    Leads (fun s => Current s ∧ (s.Serviced g now → s.client.router.orphans = 0))
      (tickService g now x) Current := by
  refine does_get_bind fun s hs => does_ite (fun hdue => ?_) fun _ =>
    does_pure fun t ht => ht ▸ hs.1
  simp only [Bool.and_eq_true, decide_eq_true_eq] at hdue
  refine Does.bind (leads_modify (Q := (· = { s with lastServiceUs := now })) ?_) fun _ => ?_
  · rintro _ rfl
    rfl
  refine does_ite (fun hbound => ?_) fun _ => does_cond ?_ ?_
  · -- nothing is owed, so nothing that is delivered pays a debt
    refine Does.bind (Q := fun _ => Current) (leads_onLink ?_) fun _ => does_skip
    rintro _ messages w rfl
    have hzero := hs.2 ⟨hbound, hdue⟩
    exact (hs.1.trans hzero).trans (deliver_orphans messages hzero).symm
  · refine does_pure ?_
    rintro _ rfl
    exact hs.1
  · refine (leads_modify (Q := Current) ?_).bind fun _ => liveBatteryRun_current g _ x
    rintro _ rfl
    exact hs.1

theorem perform_current (e : Event) :
    Leads (fun s => Current s ∧ e.Clear g s) (e.perform g) Current := by
  cases e with
  | call f x => exact (liveBatteryRun_current g f x).pre fun s h => h.1
  | tick now resume refresh =>
    refine does_cond (does_pure fun s h => h.1) ((tickService_current g resume now).bind ?_)
    intro _
    refine does_get fun s _ => does_cond ?_ does_skip
    refine Does.bind (leads_modify (Q := Current) fun _ h => h) fun _ => ?_
    exact liveBatteryRun_current g _ refresh

/-- Whenever the calls and ticks so far have returned, the record has the router's number of owed
replies, as long as no tick services the session while one is owed. -/
theorem performAll_current (events : List Event) (s : Live) (hstart : Current s)
    (hclear : ClearRun g events s) (hdone : (performAll g events s).1 = some ()) :
    Current (performAll g events s).2 := by
  induction events generalizing s with
  | nil => exact hstart
  | cons e rest ih =>
    cases hrun : e.perform g s with
    | mk result t =>
      cases result with
      | none =>
        rw [performAll, bind_of_none hrun] at hdone
        cases hdone
      | some _ =>
        have hstep := (perform_current g e s ⟨hstart, hclear.1⟩).2 ()
        rw [hrun] at hstep
        rw [performAll, bind_of_some hrun] at hdone ⊢
        have hrest := hclear.2
        rw [hrun] at hrest
        exact ih t (hstep rfl) hrest hdone

/-! ## A reply that comes after its deadline -/

def upSession : Session where
  world := scheduled
  started := fun w => !w.failed
  check := return true
  release := fun _ => return ()
  restart := return true
  waitReady := fun _ => return true

def lateReply : List UInt8 := Bytes.putLe 4 owner ++ List.replicate 8 0

def lateStart : Live where
  client := fresh (List.replicate 5 { now := 1 } ++ [{ now := 11 }, { now := 11 },
    { now := 20000, frames := [.message lateReply (some 1)] }, { now := 20000 }, { now := 20000 }])

/-- A session that is adopted, serviced by a tick, and left with a reply owed. -/
def servicedEvents : List Event :=
  [.call { resume := true } { deadline := 10 },
    .tick 20000 { deadline := 20010 } { deadline := 20010 }, .call {} { deadline := 20010 }]

def servicedStart : Live where
  client := fresh (List.replicate 2 { now := 20000 } ++ List.replicate 5 { now := 20001 } ++
    [{ now := 20011 }, { now := 20011 }])

theorem performAll_current_late :
    (performAll upSession (servicedEvents.take 1) servicedStart).2.Serviced upSession 20000 ∧
      Current (performAll upSession servicedEvents servicedStart).2 ∧
      (performAll upSession servicedEvents servicedStart).2.carry.1 = 1 :=
  ⟨by refine ⟨?_, ?_, ?_⟩ <;> decide +kernel, performAll_current upSession _ servicedStart rfl
    ⟨trivial, fun _ => by decide +kernel, trivial, trivial⟩ (by decide +kernel), by decide +kernel⟩

def lateEvents : List Event :=
  [.call {} { deadline := 10 }, .tick 20000 { deadline := 20010 } { deadline := 20010 }]

/-- The call times out and one reply is owed. A tick reads that reply, and the record still has
one. -/
theorem tick_not_current :
    Current lateStart ∧ (performAll upSession lateEvents lateStart).1 = some () ∧
      (performAll upSession lateEvents lateStart).2.client.router.orphans = 0 ∧
      (performAll upSession lateEvents lateStart).2.carry.1 = 1 :=
  ⟨rfl, by decide +kernel, by decide +kernel, by decide +kernel⟩

end Q1n1.LiveBattery
