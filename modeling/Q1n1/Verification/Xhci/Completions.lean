import Q1n1.Library.History
import Q1n1.Verification.Xhci.EventRing

/-! # Whose event an operation takes -/

namespace Q1n1.Xhci

open PhaseRing List Function

/-- The type is that of an event for a TRB. -/
def IsCompletion (type : ℕ) : Prop := type = trbTransferEvent ∨ type = trbCommandCompletion

/-- An event is for a TRB exactly when its type says so, and that TRB is the last one pushed
at the address it names. -/
structure Event.Good (last : ℕ → Option ℕ) (e : Event) : Prop where
  typed : IsCompletion e.type ↔ e.serial ≠ none
  own : ∀ n, e.serial = some n → last e.parameter = some n

structure Driver.Inv (x : Driver) : Prop where
  tagged : Tagged eventTrbs (fun p => p.trb.cycle) x.event x.posted x.polled
  index : x.eventIndex = x.polled % eventTrbs
  cycle : x.eventCycle = phase eventTrbs x.polled
  outstanding : ∀ r, ∀ o ∈ x.outstanding r, o.asks r = true →
    o.address < 2 ^ 64 ∧ x.last o.address = some o.serial
  unread : ∀ p ∈ x.unread, p.event.Good x.last
  deferred : ∀ e ∈ x.deferred, e.Good x.last
  waiting : ∀ w, x.waiting = some w → IsCompletion w.type ∧ x.last w.trb = some w.serial
  uses : ∀ u ∈ x.uses, u.event.serial = some u.serial

variable {x : Driver}

theorem Driver.Inv.reads (h : x.Inv) : x.Reads := ⟨h.tagged, h.index, h.cycle⟩

theorem Driver.inv_init (rings : RingId → Ring) : ({ rings } : Driver).Inv where
  tagged := (Driver.reads_init rings).tagged
  index := (Driver.reads_init rings).index
  cycle := (Driver.reads_init rings).cycle
  outstanding := by simp
  unread := by simp [Driver.unread]
  deferred := by simp
  waiting := by simp
  uses := by simp

theorem Driver.Inv.post {trb : Bool → Trb} {serial : Option ℕ} (h : x.Inv)
    (hroom : x.hasRoom = true) (hcycle : ∀ c, (trb c).cycle = c)
    (hgood : ∀ c, (Posted.event ⟨trb c, serial⟩).Good x.last) : (x.post trb serial).Inv := by
  obtain ⟨hreads, c, hunread⟩ := h.reads.post serial hroom hcycle
  refine { hreads, h with unread := ?_ }
  rw [hunread]
  exact History.forall_concat h.unread (hgood c)

theorem Driver.Inv.complete (h : x.Inv) (r : RingId) (status high : ℕ) :
    (x.complete r status high).Inv := by
  simp only [Driver.complete]
  split
  · exact h
  · rename_i o rest hqueue
    have hrest : ∀ r', ∀ o' ∈ update x.outstanding r rest r', o' ∈ x.outstanding r' := by
      intro r' o' ho'
      by_cases hr : r' = r
      · subst hr
        rw [update_self] at ho'
        rw [hqueue]
        exact mem_cons_of_mem o ho'
      · rwa [update_of_ne hr] at ho'
    have hpopped : ({ x with outstanding := update x.outstanding r rest } : Driver).Inv :=
      { h with outstanding := fun r' o' ho' => h.outstanding r' o' (hrest r' o' ho') }
    split
    · rename_i hasks
      split
      · rename_i hroom
        obtain ⟨hsmall, hlast⟩ := h.outstanding r o (by simp [hqueue]) hasks
        have htype : r.eventType < 64 ∧ IsCompletion r.eventType := by
          cases r with
          | cmd => exact ⟨by simp [RingId.eventType, trbCommandCompletion], .inr rfl⟩
          | ep device dci => exact ⟨by simp [RingId.eventType, trbTransferEvent], .inl rfl⟩
        refine hpopped.post hroom (eventTrb_cycle _ _ _ _) ?_
        intro c
        refine ⟨?_, ?_⟩
        · simp only [Posted.event, eventTrb_type htype.1]
          simpa using htype.2
        · intro n hn
          simp only [Posted.event, eventTrb_parameter hsmall] at hn ⊢
          exact hlast.trans hn
      · exact h
    · exact hpopped

theorem Driver.Inv.portChange (h : x.Inv) (parameter status high : ℕ) :
    (x.portChange parameter status high).Inv := by
  simp only [Driver.portChange]
  split
  · rename_i hroom
    refine h.post hroom (eventTrb_cycle _ _ _ _) ?_
    intro c
    refine ⟨?_, by simp [Posted.event]⟩
    simp only [Posted.event, eventTrb_type (by decide : trbPortStatusChange < 64)]
    simp [IsCompletion, trbPortStatusChange, trbTransferEvent, trbCommandCompletion]
  · exact h

variable {e : Event}

theorem Driver.Inv.poll {x' : Driver} (h : x.Inv) (hpoll : x.poll = some (e, x')) :
    x'.Inv ∧ e.Good x.last ∧ x' = { x with
        eventIndex := x'.eventIndex, eventCycle := x'.eventCycle, polled := x.polled + 1 } := by
  obtain ⟨hreads, ⟨p, rfl, hunread⟩, hx⟩ := h.reads.poll hpoll
  have hmem : ∀ q ∈ x'.unread, q ∈ x.unread := by
    intro q hq
    rw [hunread]
    exact mem_cons_of_mem p hq
  have hgood : p.event.Good x.last := h.unread p (by rw [hunread]; exact mem_cons_self)
  refine ⟨?_, hgood, hx⟩
  generalize x'.eventIndex = index, x'.eventCycle = cycle at hx
  subst hx
  exact { hreads, h with unread := fun q hq => h.unread q (hmem q hq) }

theorem Driver.Inv.defer (h : x.Inv) (he : e.Good x.last) : (x.defer e).Inv := by
  have hadd : ∀ kept : List Event, (∀ e' ∈ kept, e' ∈ x.deferred) →
      ({ x with deferred := kept ++ [e] } : Driver).Inv := by
    intro kept hkept
    refine { h with deferred := ?_ }
    exact History.forall_concat (fun e' he' => h.deferred e' (hkept e' he')) he
  simp only [Driver.defer]
  split
  · exact hadd x.deferred fun _ => id
  · exact hadd x.deferred.tail fun _ => mem_of_mem_tail

theorem takeDeferred_some {type trb : ℕ} {events kept : List Event}
    (h : takeDeferred type trb events = some (e, kept)) :
    e.type = type ∧ e.parameter = trb ∧ e ∈ events ∧ ∀ e' ∈ kept, e' ∈ events := by
  induction events generalizing kept with
  | nil => simp [takeDeferred] at h
  | cons first rest ih =>
    simp only [takeDeferred] at h
    split at h
    · obtain ⟨⟨out, kept'⟩, hrest, heq⟩ := Option.map_eq_some_iff.mp h
      obtain ⟨rfl, rfl⟩ := Prod.mk.inj heq
      obtain ⟨htype, htrb, hmem, hsub⟩ := ih hrest
      refine ⟨htype, htrb, mem_cons_of_mem _ hmem, ?_⟩
      intro e' he'
      rcases mem_cons.mp he' with rfl | hin
      · exact mem_cons_self
      · exact mem_cons_of_mem _ (hsub e' hin)
    · rename_i hmatch
      obtain ⟨rfl, rfl⟩ := Prod.mk.inj (Option.some.inj h)
      rw [not_or, not_not, not_not] at hmatch
      exact ⟨hmatch.1, hmatch.2, mem_cons_self, fun e' => mem_cons_of_mem _⟩

/-- Nothing is to come any more for what was pushed at the address before: the controller
has completed it, and the driver has read its event off the event ring. -/
structure Driver.Quiet (x : Driver) (address : ℕ) : Prop where
  completed : ∀ r, ∀ o ∈ x.outstanding r, o.address = address → o.asks r = false
  read : ∀ p ∈ x.unread, p.serial ≠ none → p.trb.parameter ≠ address

theorem Event.Good.update {last : ℕ → Option ℕ} {address : ℕ} {serial : Option ℕ} (h : e.Good last)
    (hne : e.serial ≠ none → e.parameter ≠ address) :
    e.Good (update last address serial) := by
  refine ⟨h.typed, ?_⟩
  intro n hn
  rw [update_of_ne (hne (by simp [hn]))]
  exact h.own n hn

/-- Pushing at a quiet address keeps every event with its TRB: the cache is purged of the
address. -/
theorem Driver.Inv.push (h : x.Inv) (r : RingId) (s : Submission)
    (hquiet : x.Quiet (x.nextSlot r)) (hidle : x.waiting = none) : (x.push r s).Inv := by
  refine ⟨h.tagged, h.index, h.cycle, ?_, ?_, ?_, ?_, h.uses⟩
  · intro r' o ho hasks
    have hcases : o ∈ x.outstanding r' ∨ o = ⟨x.nextSlot r, s, x.serial⟩ := by
      by_cases hr : r' = r
      · subst hr
        simpa [Driver.push, Driver.forget] using ho
      · left
        simpa [Driver.push, Driver.forget, update_of_ne hr] using ho
    rcases hcases with hold | rfl
    · obtain ⟨hsmall, hlast⟩ := h.outstanding r' o hold hasks
      have hne : o.address ≠ x.nextSlot r := by
        intro heq
        rw [hquiet.completed r' o hold heq] at hasks
        cases hasks
      exact ⟨hsmall, (update_of_ne hne _ _).trans hlast⟩
    · exact ⟨Nat.mod_lt _ (by decide), update_self _ _ _⟩
  · intro p hp
    exact (h.unread p hp).update (hquiet.read p hp)
  · intro e he
    obtain ⟨hold, hkept⟩ := mem_filter.mp he
    have hgood := h.deferred e hold
    refine hgood.update ?_
    intro hserial heq
    rcases hgood.typed.mpr hserial with htype | htype <;> simp [heq, htype] at hkept
  · intro w hw
    have hnone : (x.push r s).waiting = none := hidle
    rw [hnone] at hw
    cases hw

/-! ## Waiting -/

/-- A wait for the TRB last pushed at its address. -/
def Driver.Expects (x : Driver) (w : Wait) : Prop :=
  IsCompletion w.type ∧ x.last w.trb = some w.serial

variable {w : Wait}

theorem Event.Good.serial_eq (h : e.Good x.last) (hw : x.Expects w) (htype : e.type = w.type)
    (htrb : e.parameter = w.trb) : e.serial = some w.serial := by
  obtain ⟨n, hn⟩ := Option.ne_none_iff_exists'.mp (h.typed.mp (htype ▸ hw.1))
  have hlast := h.own n hn
  rw [htrb, hw.2] at hlast
  exact hn.trans hlast.symm

section

variable (h : x.Inv)
include h

theorem Driver.Inv.use (he : e.serial = some w.serial) :
    ({ x with waiting := none, uses := x.uses ++ [⟨w.serial, e⟩] } : Driver).Inv := by
  refine { h with waiting := by simp, uses := ?_ }
  exact History.forall_concat h.uses he

theorem Driver.Inv.of_results (pending : ℕ → ℕ → Pending) (results : List Int) :
    ({ x with pending, results } : Driver).Inv :=
  { h with }

theorem Driver.Inv.finishLast (he : e.serial = some w.serial) : (x.finishLast w e).Inv := by
  have huse := h.use he
  obtain ⟨goal, type, trb, serial, polls, empty⟩ := w
  cases goal <;> exact huse.of_results _ _

theorem Driver.Inv.wait (hw : x.Expects w) : ({ x with waiting := some w } : Driver).Inv := by
  refine { h with waiting := ?_ }
  intro w' hw'
  obtain rfl := Option.some.inj hw'
  exact hw

theorem Driver.Inv.fromCache {kept : List Event} (hw : x.Expects w)
    (htake : takeDeferred w.type w.trb x.deferred = some (e, kept)) :
    ({ x with deferred := kept } : Driver).Inv ∧ e.serial = some w.serial := by
  obtain ⟨htype, htrb, hmem, hsub⟩ := takeDeferred_some htake
  refine ⟨?_, (h.deferred e hmem).serial_eq hw htype htrb⟩
  exact { h with deferred := fun e he => h.deferred e (hsub e he) }

theorem Driver.Inv.awaitLast (hw : x.Expects w) : (x.awaitLast w).Inv := by
  simp only [Driver.awaitLast]
  split
  · rename_i e kept htake
    obtain ⟨hkept, he⟩ := h.fromCache hw htake
    exact hkept.finishLast he
  · exact h.wait hw

end

/-- The event `e` ends the wait, and the send goes on with a zero-length packet. -/
def Wait.GoesOn (w : Wait) (e : Event) (device dci : ℕ) : Prop :=
  ∃ length, w.goal = .send device dci length ∧ e.failed = false ∧ needsZeroLength length = true

theorem Driver.Inv.finish (h : x.Inv) (he : e.serial = some w.serial)
    (hquiet : ∀ device dci, w.GoesOn e device dci → x.Quiet (x.nextSlot (.ep device dci))) :
    (x.finish w e).Inv := by
  simp only [Driver.finish]
  split
  · rename_i device dci length hgoal
    split
    · rename_i hzero
      rw [Bool.and_eq_true, Bool.not_eq_true'] at hzero
      have hslot := hquiet device dci ⟨length, hgoal, hzero.1, hzero.2⟩
      have hpush := (h.use he).push (.ep device dci) zeroLengthSubmission
        ⟨hslot.completed, hslot.read⟩ rfl
      exact hpush.awaitLast ⟨.inl rfl, update_self _ _ _⟩
    · exact h.finishLast he
  · exact h.finishLast he

theorem Driver.Inv.await (h : x.Inv) (hw : x.Expects w)
    (hgoal : ∀ device dci length, w.goal ≠ .send device dci length) : (x.await w).Inv := by
  simp only [Driver.await]
  split
  · rename_i e kept htake
    obtain ⟨hkept, he⟩ := h.fromCache hw htake
    apply hkept.finish he
    rintro device dci ⟨length, heq, -⟩
    exact absurd heq (hgoal device dci length)
  · exact h.wait hw

theorem takeDeferred_forget (x : Driver) {type : ℕ} (htype : IsCompletion type) (trb : ℕ) :
    takeDeferred type trb (x.forget trb).deferred = none := by
  rw [Option.eq_none_iff_forall_ne_some]
  rintro ⟨e, kept⟩ htake
  obtain ⟨htypes, htrb, hmem, -⟩ := takeDeferred_some htake
  have hkept := (mem_filter.mp hmem).2
  rcases htype with rfl | rfl <;> simp [htypes, htrb] at hkept

theorem RingId.eventType_completion (r : RingId) : IsCompletion r.eventType := by
  cases r with
  | cmd => exact .inr rfl
  | ep device dci => exact .inl rfl

theorem Driver.Inv.submit (h : x.Inv) (r : RingId) (s : Submission) (goal : Goal)
    (hquiet : x.Quiet (x.nextSlot r)) (hidle : x.waiting = none) : (x.submit r s goal).Inv := by
  have hpush := h.push r s hquiet hidle
  have hnone : takeDeferred r.eventType (x.nextSlot r) (x.push r s).deferred = none :=
    takeDeferred_forget _ r.eventType_completion _
  simp only [Driver.submit, Driver.await, hnone]
  exact hpush.wait ⟨r.eventType_completion, update_self _ _ _⟩

/-! ## Steps -/

/-- Every push of the list, in turn, is at a quiet address. -/
def Driver.QuietPushes (x : Driver) (r : RingId) : List Submission → Prop
  | [] => True
  | s :: rest => x.Quiet (x.nextSlot r) ∧ (x.push r s).QuietPushes r rest

/-- What an operation needs of the state it starts in: that it pushes at quiet addresses only,
and that nothing was pushed since at the address of the TRB it asks about. -/
def Driver.ClearOp (x : Driver) : Op → Prop
  | .command _ => x.Quiet (x.nextSlot .cmd)
  | .control device c => x.QuietPushes (.ep device 1) (c.first ++ [c.status])
  | .post device dci _ _ =>
    x.unusable device dci = false → (x.pending device dci).address = 0 →
      x.Quiet (x.nextSlot (.ep device dci))
  | .reap device dci _ =>
    dci < maxDci → (x.pending device dci).address ≠ 0 →
      x.last (x.pending device dci).address = some (x.pending device dci).serial
  | .send device dci _ _ =>
    x.unusable device dci = false → x.Quiet (x.nextSlot (.ep device dci))
  | .sendStart device dci _ length =>
    x.unusable device dci = false → length % 512 ≠ 0 → x.Quiet (x.nextSlot (.ep device dci))
  | .sent handle => x.last handle.address = some handle.serial

/-- The same for a step: a poll that ends a send may push its zero-length packet. -/
def Driver.Clear (x : Driver) : Act → Prop
  | .start op => x.waiting = none → x.ClearOp op
  | .poll =>
    ∀ w e x', x.waiting = some w → x.poll = some (e, x') → e.type = w.type →
      e.parameter = w.trb → ∀ device dci, w.GoesOn e device dci →
      x'.Quiet (x'.nextSlot (.ep device dci))
  | _ => True

theorem Driver.Inv.pushes {r : RingId} {last : Submission} (first : List Submission)
    (h : x.Inv) (hidle : x.waiting = none) (hquiet : x.QuietPushes r (first ++ [last])) :
    let y := first.foldl (fun x s => x.push r s) x
    y.Inv ∧ y.waiting = none ∧ y.Quiet (y.nextSlot r) := by
  induction first generalizing x with
  | nil => exact ⟨h, hidle, hquiet.1⟩
  | cons s first ih => exact ih (h.push r s hquiet.1 hidle) hidle hquiet.2

theorem Driver.Inv.start {op : Op} (h : x.Inv) (hidle : x.waiting = none)
    (hclear : x.ClearOp op) : (x.start op).Inv := by
  cases op with
  | command s => exact h.submit .cmd s .command hclear hidle
  | control device c =>
    obtain ⟨hfirst, hwaiting, hquiet⟩ := Driver.Inv.pushes c.first h hidle hclear
    exact hfirst.submit _ c.status _ hquiet hwaiting
  | post device dci buffer length =>
    simp only [Driver.start]
    split
    · exact h.of_results _ _
    · rename_i husable
      split
      · exact h.of_results _ _
      · rename_i hfree
        have hquiet := hclear (Bool.eq_false_iff.mpr husable) (not_not.mp hfree)
        exact (h.push _ _ hquiet hidle).of_results _ _
  | reap device dci length =>
    simp only [Driver.start]
    split
    · exact h.of_results _ _
    · rename_i hpending
      rw [not_or, not_le] at hpending
      exact h.await ⟨.inl rfl, hclear hpending.1 hpending.2⟩ (by simp)
  | send device dci buffer length =>
    simp only [Driver.start]
    split
    · exact h.of_results _ _
    · rename_i husable
      exact h.submit _ _ _ (hclear (Bool.eq_false_iff.mpr husable)) hidle
  | sendStart device dci buffer length =>
    simp only [Driver.start]
    split
    · exact h.of_results _ _
    · rename_i husable
      simp only [Bool.or_eq_true, decide_eq_true_eq, not_or] at husable
      have hquiet := hclear (Bool.eq_false_iff.mpr husable.1.1) husable.2
      exact (h.push _ _ hquiet hidle).of_results _ _
  | sent handle => exact h.await ⟨.inl rfl, hclear⟩ (by simp)

theorem Driver.Inv.giveUp (h : x.Inv) (w : Wait) : (x.giveUp w).Inv :=
  { h with waiting := by simp [Driver.giveUp] }

theorem Driver.Inv.pollFor (h : x.Inv) (hw : x.waiting = some w) (hclear : x.Clear .poll) :
    (x.pollFor w).Inv := by
  have hexpects := h.waiting w hw
  simp only [Driver.pollFor]
  split
  · exact h.giveUp w
  · split
    · split
      · exact h.giveUp w
      · exact h.wait hexpects
    · rename_i e x' hpoll
      obtain ⟨hinv, hgood, hx⟩ := h.poll hpoll
      have hlast : x'.last = x.last := by rw [hx]
      have hexpects' : x'.Expects w := ⟨hexpects.1, hlast ▸ hexpects.2⟩
      split
      · rename_i hmatch
        refine hinv.finish (hgood.serial_eq hexpects hmatch.1 hmatch.2) ?_
        exact hclear w e x' hw hpoll hmatch.1 hmatch.2
      · have hdefer := hinv.defer (hlast ▸ hgood)
        refine hdefer.wait ?_
        simp only [Driver.Expects, Driver.defer]
        split <;> exact hexpects'

theorem Driver.Inv.step {a : Act} (h : x.Inv) (hclear : x.Clear a) : (x.step a).Inv := by
  cases a with
  | start op =>
    simp only [Driver.step]
    split
    · rename_i hidle
      have hnone : x.waiting = none := Option.isNone_iff_eq_none.mp hidle
      exact h.start hnone (hclear hnone)
    · exact h
  | poll =>
    simp only [Driver.step]
    split
    · exact h
    · rename_i w hw
      exact h.pollFor hw hclear
  | expire =>
    simp only [Driver.step]
    split
    · exact h
    · split
      · exact h.giveUp _
      · exact h
  | complete r status high => exact h.complete r status high
  | portChange parameter status high => exact h.portChange parameter status high

/-! ## Runs -/

/-- Every step of the run is taken in a state that is clear for it. -/
def Driver.ClearRun (x : Driver) : List Act → Prop
  | [] => True
  | a :: acts => x.Clear a ∧ (x.step a).ClearRun acts

theorem Driver.Inv.run (h : x.Inv) (acts : List Act) (hclear : x.ClearRun acts) :
    (x.run acts).Inv := by
  induction acts generalizing x with
  | nil => exact h
  | cons a acts ih => exact ih (h.step hclear.1) hclear.2

/-- In every run whose steps are all clear, each event that an operation takes for the
completion of its TRB is the event of that TRB. -/
theorem Driver.run_uses (rings : RingId → Ring) (acts : List Act)
    (hclear : ({ rings } : Driver).ClearRun acts) :
    ∀ u ∈ (({ rings } : Driver).run acts).uses, u.event.serial = some u.serial :=
  ((Driver.inv_init rings).run acts hclear).uses

def someRings : RingId → Ring
  | .cmd => { base := 0x1000, count := 64, index := 0, cycle := true }
  | .ep device dci =>
    { base := 0x10000 * (device + 1) + 0x1000 * dci, count := 64, index := 0, cycle := true }

/-- A started send that completes and is checked. -/
def startAndCheck : List Act :=
  [.start (.sendStart 1 3 0x8000 100), .complete (.ep 1 3) (success * 2 ^ 24) 0,
    .start (.sent ⟨0x23000, 0⟩), .poll]

theorem Driver.run_uses_startAndCheck :
    (({ rings := someRings } : Driver).run startAndCheck).results = [0x23000, 1] ∧
      ∀ u ∈ (({ rings := someRings } : Driver).run startAndCheck).uses,
        u.event.serial = some u.serial := by
  refine ⟨by decide +kernel, Driver.run_uses someRings startAndCheck ⟨?_, trivial, ?_, ?_, trivial⟩⟩
  · intro _ _ _
    exact ⟨by simp, by simp [Driver.unread]⟩
  · intro _
    rfl
  · intro w e x' hw _ _ _ device dci hgoes
    obtain ⟨length, hgoal, -⟩ := hgoes
    have hw' : Goal.sent = w.goal := congrArg (fun o => (o.map Wait.goal).getD .command) hw
    rw [← hw'] at hgoal
    cases hgoal

/-- A lap of started sends that all complete unchecked, and then one more. -/
def lapUnread : List Act :=
  List.replicate 63 (.start (.sendStart 1 3 0x8000 100)) ++
    List.replicate 63 (.complete (.ep 1 3) (success * 2 ^ 24) 0) ++
    [.start (.sendStart 1 3 0x8000 100), .start (.sent ⟨0x23000, 63⟩), .poll]

/-- The check of the last send takes the event of the first, which was still unread, while
its own TRB is outstanding. -/
theorem lapUnread_misattributed : (({ rings := someRings } : Driver).run lapUnread).uses.map
        (fun u => (u.serial, u.event.serial)) = [(63, some 0)] ∧
      (({ rings := someRings } : Driver).run lapUnread).results.getLast? = some 1 ∧
      ((({ rings := someRings } : Driver).run lapUnread).outstanding (.ep 1 3)).map
        Outstanding.serial = [63] := by
  decide +kernel

end Q1n1.Xhci
