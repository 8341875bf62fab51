import Q1n1.Model.Proxy.Ports
import Q1n1.Verification.Proxy.OnePort

/-! # Sessions over the USB ports -/

namespace Q1n1.Proxy

open Bytes List

/-! ## The ports keep to their selection -/

/-- What happened to the modes after the first `n` times: `off` was used on port `i`, and it was
the mode last set there until then. -/
def Ports.UsedRightly (s : Ports) (n : ℕ) (i : PortId) (off : Bool) : Prop :=
  s.modes[n]? = some (.used i off) ∧ off = lastMode (s.modes.take n) i

/-- Each port has the mode last set on it. -/
def Ports.ModesRight (s : Ports) : Prop :=
  ∀ i, (s.port i).checksumsOff = lastMode s.modes i

def Ports.view : View Ports PortId where
  selected := Ports.selected
  past s i := (s.port i).past
  used := Ports.UsedRightly
  good := Ports.ModesRight

variable {s : Ports} {i j : PortId}

theorem lastMode_concat (modes : List ModeEvent) (e : ModeEvent) :
    lastMode (modes ++ [e]) i = match e with
      | .stopped j => if j = i then false else lastMode modes i
      | .set j off => if j = i then off else lastMode modes i
      | .used _ _ => lastMode modes i := by
  rw [lastMode, foldl_append]
  rfl

namespace Ports

theorem UsedRightly.append {n : ℕ} {off : Bool} {t : Ports} (more : List ModeEvent)
    (h : s.UsedRightly n i off) (ht : t.modes = s.modes ++ more) : t.UsedRightly n i off := by
  have hn : n < s.modes.length := (List.getElem?_eq_some_iff.mp h.1).1
  rw [UsedRightly, ht, getElem?_append_left hn, take_append_of_le_length hn.le]
  exact h

theorem past_setPort {p : Port} (hpast : (s.port i).past.Sublist p.past) (j : PortId) :
    (s.port j).past.Sublist (Function.update s.port i p j).past := by
  by_cases hj : j = i
  · subst hj
    simpa using hpast
  · simp [hj]

theorem setPort_follows {p : Port} {selected : Option PortId} {schedule : List Tick}
    (hpast : (s.port i).past.Sublist p.past) (hmode : p.checksumsOff = (s.port i).checksumsOff) :
    view.Follows s ⟨Function.update s.port i p, selected, schedule, s.modes⟩ := by
  refine ⟨past_setPort hpast, fun n j off h => ?_, fun h j => ?_⟩
  · exact UsedRightly.append [] h (append_nil _).symm
  · by_cases hj : j = i
    · subst hj
      simpa [hmode] using h j
    · simpa [hj] using h j

theorem setMode_follows {p : Port} {e : ModeEvent} {schedule : List Tick}
    (hpast : (s.port i).past.Sublist p.past) (hmode : p.checksumsOff = lastMode (s.modes ++ [e]) i)
    (hother : ∀ j, j ≠ i → lastMode (s.modes ++ [e]) j = lastMode s.modes j) :
    view.Follows s ⟨Function.update s.port i p, s.selected, schedule, s.modes ++ [e]⟩ := by
  refine ⟨past_setPort hpast, fun n j off h => ?_, fun h j => ?_⟩
  · exact UsedRightly.append [e] h rfl
  · by_cases hj : j = i
    · subst hj
      simpa using hmode
    · simpa [hj, hother j hj] using h j

theorem event_keeps (s : Ports) (e : PortEvent) : view.Keeps s (s.event e) := by
  cases e with
  | arrive i bs => exact ⟨setPort_follows (List.Sublist.refl _) rfl, rfl⟩
  | ready i ready => exact ⟨setPort_follows (List.Sublist.refl _) rfl, rfl⟩
  | stop i =>
    refine ⟨setMode_follows (sublist_append_left _ _) ?_ ?_, rfl⟩
    · simp [lastMode_concat]
    · intro j hj
      simp [lastMode_concat, Ne.symm hj]

theorem tick_keeps (s : Ports) : view.Keeps s s.tick.2 := by
  have hevents (events : List PortEvent) (t : Ports) (h : view.Keeps s t) :
      view.Keeps s (events.foldl event t) := by
    induction events generalizing t with
    | nil => exact h
    | cons e events ih => exact ih _ (h.trans (t.event_keeps e))
  rw [tick]
  split
  · exact .refl s
  · exact hevents _ _ ⟨⟨fun _ => List.Sublist.refl _, fun _ _ _ => id, id⟩, rfl⟩

theorem eq_of_eligible (hsel : s.selected = some i) (h : s.eligible j = true) : j = i := by
  rw [eligible, hsel] at h
  simp only [Option.isNone_some, Bool.false_or, Bool.and_eq_true, beq_iff_eq,
    Option.some.injEq] at h
  exact h.1.symm

end Ports

def Port.taken (p : Port) (n : ℕ) : Port :=
  { p with queue := p.queue.drop n, past := p.past ++ p.queue.take n }

namespace Ports

theorem read_cases (n : ℕ) (s : Ports) :
    read n s = ((0, []), s.tick.2) ∨
    ∃ i, s.tick.2.eligible i = true ∧ (s.tick.2.port i).queue.take n ≠ [] ∧
      read n s = ((i, (s.tick.2.port i).queue.take n),
        { s.tick.2.setPort i ((s.tick.2.port i).taken n) with selected := some i }) := by
  rw [read]
  split
  · exact .inl rfl
  · rename_i i hfound
    have hi := List.find?_some hfound
    rw [Bool.and_eq_true, decide_eq_true_eq] at hi
    exact .inr ⟨i, hi.1, hi.2, rfl⟩

theorem write_cases (bs : List UInt8) (s : Ports) :
    write bs s = ((0, 0), s.tick.2) ∨
    ∃ i, (List.finRange 2).find? s.tick.2.eligible = some i ∧
      write bs s = ((i, min s.tick.1.room bs.length), s.tick.2) := by
  rw [write]
  dsimp only
  split
  · exact .inl rfl
  · rename_i i hfound
    exact .inr ⟨i, hfound, rfl⟩

theorem ready_snd (s : Ports) : s.ready.2 = s.tick.2 := by
  rw [ready]
  split <;> rfl

theorem write_snd (bs : List UInt8) (s : Ports) : (write bs s).2 = s.tick.2 := by
  rcases write_cases bs s with h | ⟨i, -, h⟩
  · rw [h]
  · rw [h]

theorem read_follows (n : ℕ) (s : Ports) : view.Follows s (read n s).2 := by
  rcases read_cases n s with h | ⟨i, -, -, h⟩
  · rw [h]
    exact s.tick_keeps.toFollows
  · rw [h]
    exact s.tick_keeps.toFollows.trans
      (setPort_follows (sublist_append_left _ _) rfl)

theorem read_some {n : ℕ} (hbs : (read n s).1.2 ≠ []) :
    (read n s).2.selected = some (read n s).1.1 ∧
    (∀ i, s.selected = some i → (read n s).1.1 = i) ∧
    ((s.port (read n s).1.1).past ++ (read n s).1.2).Sublist
      ((read n s).2.port (read n s).1.1).past := by
  rcases read_cases n s with h | ⟨i, heligible, -, h⟩
  · rw [h] at hbs
    exact absurd rfl hbs
  · rw [h]
    refine ⟨rfl, fun j hj => eq_of_eligible (s.tick_keeps.selected.trans hj) heligible, ?_⟩
    simpa [setPort, Port.taken, view] using s.tick_keeps.past i

theorem io_sticky : io.Sticky view where
  poll := tick_keeps
  abort := .refl
  ready s := by
    show view.Keeps s s.ready.2
    rw [ready_snd]
    exact s.tick_keeps
  expired := tick_keeps
  checksumsOff i s := by
    refine ⟨⟨fun _ => List.Sublist.refl _, fun _ _ _ h => h.append _ rfl, fun h j => ?_⟩, rfl⟩
    show (s.port j).checksumsOff = lastMode (s.modes ++ [_]) j
    rw [lastMode_concat]
    exact h j
  checksumsOff_used i s h := by
    show (s.modes ++ [_])[s.modes.length]? = _ ∧
      _ = lastMode ((s.modes ++ [_]).take s.modes.length) i
    rw [getElem?_concat_length, take_left]
    exact ⟨rfl, h i⟩
  setChecksumsOff i off s := by
    refine ⟨setMode_follows (List.Sublist.refl _) ?_ ?_, rfl⟩
    · simp [lastMode_concat]
    · intro j hj
      simp [lastMode_concat, Ne.symm hj]
  write bs s := by
    show view.Keeps s (write bs s).2
    rw [write_snd]
    exact s.tick_keeps
  write_to bs s i hsel hsent := by
    rcases write_cases bs s with h | ⟨j, hfound, h⟩
    · exact absurd (congrArg (·.1.2) h) hsent
    · have heligible := List.find?_some hfound
      exact (congrArg (·.1.1) h).trans
        (eq_of_eligible (s.tick_keeps.selected.trans hsel) heligible)
  read := read_follows
  read_none n s hbs := by
    rcases read_cases n s with h | ⟨i, -, hgot, h⟩
    · exact (congrArg (·.2.selected) h).trans s.tick_keeps.selected
    · exact absurd ((congrArg (·.1.2) h).symm.trans hbs) hgot
  read_some n s hbs := read_some hbs
  end_ s := ⟨fun _ => List.Sublist.refl _, fun _ _ _ => id, id⟩
  end_selected s := rfl
  checksumState s i hsel := by
    show s.selected.getD 0 = i
    rw [show s.selected = some i from hsel]
    rfl

end Ports

/-! ## Sessions -/

/-- The exchange belongs to port `i`: what it served as the request and its data are bytes it
took, they were received there, in this order, everything it gave went there, and each mode it
went by was the one last set there when it looked. -/
structure Exchange.OnPort (e : Exchange PortId) (s : Ports) (i : PortId) : Prop where
  took : ∀ r ∈ e.took, r.1 = i
  order : (e.took.flatMap (·.2)).Sublist (s.port i).arrived
  served : e.served.Sublist (e.took.flatMap (·.2))
  gave : ∀ r ∈ e.gave, r.1 = i
  modes : ∀ m ∈ e.modes, m.2.1 = i ∧ s.UsedRightly m.1 i m.2.2

theorem Exchange.On.onPort {e : Exchange PortId} (h : e.On Ports.view s i) : e.OnPort s i :=
  ⟨h.took, h.order.trans (sublist_append_left _ _), h.served, h.gave, h.modes⟩

theorem Ports.start_modesRight (port : PortId → Port) (selected : Option PortId)
    (schedule : List Tick) : (Ports.start port selected schedule).ModesRight := by
  intro i
  match i with
  | 0 => rfl
  | 1 => rfl

section

variable {M : Type}

/-- Whatever happens to the ports and whenever it happens: what a request takes from the
transport, what it gives to it and the checksum mode it goes by are of one port. -/
theorem Ports.run_onPort (P : Platform M) (steps reason code info : ℕ) (slot : PortId)
    (world : World M) (port : PortId → Port) (selected : Option PortId) (schedule : List Tick) :
    let r := Loop.run Ports.io P steps
      { reason := reason, code := code, info := info, slot := slot, world := world }
      (Ports.start port selected schedule)
    ∀ e, e ∈ r.1.log ∨ e = r.1.current ∧ e.took ≠ [] → ∃ i, e.OnPort r.2 i := by
  intro r e he
  have h : Loop.Inv Ports.view _ False r :=
    Loop.run_inv Ports.io_sticky steps
      (Loop.inv_of_fresh (Ports.start_modesRight port selected schedule) rfl rfl rfl rfl)
  exact (h.on he).imp fun i hi => hi.onPort

/-- When a reply is written after an exception session, the port of the request is up and no port
before it is, or none is up. -/
def Loop.replyHome {W : Type} (l : Loop W PortId) (s : Ports) : Bool :=
  let up j := (s.tick.2.tick.2.port j).ready
  match l.task, l.current.port with
  | .writing _ _, some i =>
    l.current.nested == 0 || (List.finRange 2).all fun j => !up j || up i && decide (i ≤ j)
  | _, _ => true

theorem Loop.writesHome_of_replyHome {W : Type} {l : Loop W PortId} (h : l.replyHome s = true) :
    l.WritesHome Ports.view Ports.io s := by
  intro left k i hnested htask hport hnone hsent
  have hsnd : (Ports.io.ready s).2 = s.tick.2 := Ports.ready_snd s
  rw [hsnd] at hsent ⊢
  simp only [Loop.replyHome, htask, hport, beq_eq_false_iff_ne.mpr hnested, Bool.false_or,
    List.all_eq_true, mem_finRange, forall_const] at h
  have hnone' : s.tick.2.tick.2.selected = none :=
    (s.tick_keeps.trans s.tick.2.tick_keeps).selected.trans hnone
  -- with nothing selected, the write goes to the first port that is up
  rcases Ports.write_cases left s.tick.2 with hw | ⟨j, hfound, hw⟩
  · exact absurd (congrArg (·.1.2) hw) hsent
  · have heligible (j : PortId) :
        s.tick.2.tick.2.eligible j = (s.tick.2.tick.2.port j).ready := by
      simp [Ports.eligible, hnone']
    have hup := h j
    rw [← heligible, ← heligible, List.find?_some hfound] at hup
    simp only [Bool.not_true, Bool.false_or, Bool.and_eq_true, decide_eq_true_eq] at hup
    refine (congrArg (·.1.1) hw).trans ?_
    match i, j with
    | 0, 0 => rfl
    | 1, 1 => rfl
    | 1, 0 => exact absurd hup.2 (by decide)
    | 0, 1 => exact absurd hfound (by simp [List.finRange_succ, hup.1])

/-- With exception sessions inside requests, as long as their replies find the way home. -/
theorem Ports.moves_onPort (P : Platform M) (moves : List Move) (reason code info : ℕ)
    (slot : PortId) (world : World M) (port : PortId → Port) (selected : Option PortId)
    (schedule : List Tick) (hhome : Loop.meets Ports.io P Loop.replyHome moves
      { reason := reason, code := code, info := info, slot := slot, world := world }
      (Ports.start port selected schedule) = true) :
    ∀ r ∈ Loop.moves Ports.io P moves
      { reason := reason, code := code, info := info, slot := slot, world := world }
      (Ports.start port selected schedule),
    ∀ e, e ∈ r.1.log ∨ e = r.1.current ∧ e.took ≠ [] → ∃ i, e.OnPort r.2 i := by
  intro r hr e he
  have h : Loop.Inv Ports.view _ True r :=
    Loop.moves_inv Ports.io_sticky (fun l s => Loop.writesHome_of_replyHome)
      (Loop.inv_of_fresh (Ports.start_modesRight port selected schedule) rfl rfl rfl rfl) hhome hr
  exact (h.on he).imp fun i hi => hi.onPort

end

/-! ## A reply that strays -/

/-- Nothing faults and no SError shows. -/
def quietPlatform : Platform Unit where
  load _ _ r := (⟨0, false⟩, r)
  store _ _ _ r := (false, r)
  call _ _ r := (7, r)
  cache _ _ _ r := r
  serrorPoll r := (⟨false, 0, false⟩, r)
  serrorMechanism := 0
  serrorRecord := 0
  bootargs := 0
  base := 0
  fbConsole _ r := (0, r)
  delayPolls _ r := (0, r)

/-- Both ports are up, and one has a P_CALL and a P_EXIT with the handled code to deliver. -/
def callingPorts (i : PortId) : PortId → Port := fun j =>
  { ready := true
    queue := if j = i then
      cmdBytes reqProxy (putLe 8 0x002 ++ putLe 8 0x1000) ++
        cmdBytes reqProxy (putLe 8 0x001 ++ putLe 8 excRetHandled)
      else [] }

/-- The loop takes the P_CALL, the code faults, a session of eight steps serves the P_EXIT, and
the reply to the P_CALL is written. -/
def callMoves : List Move :=
  List.replicate 7 .step ++ [.fault 0 0 8] ++ List.replicate 2 .step

def callSession (i : PortId) : Option (Loop (World Unit) PortId × Ports) :=
  Loop.moves Ports.io quietPlatform callMoves { slot := firstPort, world := { ram := ⟨(), {}⟩ } }
    (Ports.start (callingPorts i) none (List.replicate 80 { room := 64 }))

/-- Where the exchanges of a session took bytes and gave bytes, and how many sessions ran inside. -/
def portsUsed (r : Loop (World Unit) PortId × Ports) : List (List PortId × List PortId × ℕ) :=
  r.1.log.map fun e => (e.took.map (·.1), e.gave.map (·.1), e.nested)

theorem portsUsed_callSession : (callSession 1).map portsUsed =
    some [([1, 1, 1, 1, 1], [1], 0), ([1, 1, 1, 1, 1], [0], 1)] := by
  decide +kernel

/-- The P_CALL came in on port 1, and its reply went out on port 0. -/
theorem callSession_strays : ∃ r ∈ callSession 1, ∃ e ∈ r.1.log, e.nested = 1 ∧
    e.port = some 1 ∧ e.gave.map (·.1) = [0] ∧ ¬∃ i, e.OnPort r.2 i := by
  obtain ⟨r, hr, hused⟩ := Option.map_eq_some_iff.mp portsUsed_callSession
  obtain ⟨e₁, rest, hlog, -, hrest⟩ := map_eq_cons_iff.mp hused
  obtain ⟨e, rest', rfl, he, -⟩ := map_eq_cons_iff.mp hrest
  obtain ⟨htook, hpair⟩ := Prod.mk.inj he
  obtain ⟨hgave, hnested⟩ := Prod.mk.inj hpair
  have hport : e.port = some 1 := by
    rw [Exchange.port, ← List.head?_map, htook]
    rfl
  refine ⟨r, hr, e, by simp [hlog], hnested, hport, hgave, ?_⟩
  rintro ⟨i, hon⟩
  have hin : ∀ j ∈ e.took.map (·.1), j = i := by simpa using fun j bs h => hon.took (j, bs) h
  have hout : ∀ j ∈ e.gave.map (·.1), j = i := by simpa using fun j bs h => hon.gave (j, bs) h
  rw [htook] at hin
  rw [hgave] at hout
  exact absurd ((hin 1 (by simp)).trans (hout 0 (by simp)).symm) (by decide)

/-- A P_CALL from port 0 gets its reply there. -/
theorem Ports.moves_onPort_callSession : (callSession 0).isSome = true ∧
    ∀ r ∈ callSession 0, ∀ e, e ∈ r.1.log ∨ e = r.1.current ∧ e.took ≠ [] → ∃ i, e.OnPort r.2 i :=
  ⟨by decide +kernel, Ports.moves_onPort _ _ _ _ _ _ _ _ _ _ (by decide +kernel)⟩

end Q1n1.Proxy
