import Q1n1.Model.Virtio.Device

/-! # The notification loop

What one QNOTIFY does, whatever the guest writes to its rings meanwhile: it
announces ring positions in order from the first one not yet seen, each with the
entry the memory then held, and stops at the published index. -/

namespace Q1n1.Virtio

open Memory List

def State.visit (s : State) (p : Place) : State := { s with places := s.places ++ [p] }

theorem device_bind {α β : Type} (f : Device → α) (k : α → M β) (s : State) :
    (device f >>= k) s = k (f s.dev) (s.visit .device) := rfl

theorem queue_bind {α β : Type} (i : ℕ) (f : Queue → α) (k : α → M β) (s : State) :
    (queue i f >>= k) s = k (f (s.dev.qs i)) (s.visit (.queue i)) := rfl

variable (m : Memory)

theorem guest_bind {β : Type} (a n : ℕ) (k : ℕ → M β) (s : State) :
    (guest m a n >>= k) s = k (m.field n (a % 2 ^ 64)) (s.visit (.guest (a % 2 ^ 64) n)) := rfl

theorem setQueue_bind {β : Type} (i : ℕ) (f : Queue → Queue) (k : Unit → M β) (s : State) :
    (setQueue i f >>= k) s = k () { s.visit (.queue i) with dev := s.dev.setQueue i f } := rfl

/-! ## Rings -/

def published (d : Device) (i : ℕ) (m : Memory) : ℕ := m.field 2 (((d.qs i).avail + 2) % 2 ^ 64)

/-- What the host is told for ring position `seq`. -/
def noticeAt (d : Device) (i : ℕ) (m : Memory) (seq : ℕ) : Notice where
  devbase := d.base
  qu := (d.qs i).idx % 2 ^ 16
  idx := m.field 2 (((d.qs i).avail + 4 + 2 * (seq % (d.qs i).size)) % 2 ^ 64)
  descbase := (d.qs i).desc
  seq := seq

def Device.advance (d : Device) (i n : ℕ) : Device :=
  d.setQueue i fun q => { q with availSeen := (q.availSeen + n) % 2 ^ 16 }

/-- The rings that a notification reads lie outside the hypervisor's memory `hv`. -/
structure RingOutside (hv : ℕ → Prop) (d : Device) (i : ℕ) : Prop where
  index : ∀ k < 2, ¬hv (((d.qs i).avail + 2) % 2 ^ 64 + k)
  entries : ∀ j < 2 ^ 16, ((d.qs i).size ≠ 0 → j < (d.qs i).size) →
    ∀ k < 2, ¬hv (((d.qs i).avail + 4 + 2 * j) % 2 ^ 64 + k)
  descriptors : d.verbose = true → ∀ j < 2 ^ 16, ∀ k < 14,
    ¬hv (((d.qs i).desc + 16 * j) % 2 ^ 64 + k)

/-- The places that a notification of queue `i` goes to. -/
def AtQueue (hv : ℕ → Prop) (i : ℕ) : Place → Prop
  | .device => True
  | .queue j => j = i
  | .config _ | .link => False
  | .guest a n => ∀ k < n, ¬hv (a + k)

variable {hv : ℕ → Prop} {d : Device} {i : ℕ}

namespace Device

theorem advance_advance (d : Device) (i n k : ℕ) :
    (d.advance i n).advance i k = d.advance i (n + k) := by
  unfold advance setQueue
  congr 1
  funext j
  by_cases hj : j = i
  · simp only [hj, if_true]
    congr 1
    omega
  · simp only [hj, if_false]

theorem advance_zero (d : Device) (h : (d.qs i).availSeen < 2 ^ 16) : d.advance i 0 = d := by
  have hqs : (d.advance i 0).qs = d.qs := by
    funext j
    by_cases hj : j = i
    · simp only [advance, setQueue, hj, if_true, add_zero, Nat.mod_eq_of_lt h]
    · simp only [advance, setQueue, hj, if_false]
  cases d
  simpa [advance, setQueue] using hqs

theorem advance_seen (d : Device) (i n : ℕ) :
    ((d.advance i n).qs i).availSeen = ((d.qs i).availSeen + n) % 2 ^ 16 := by
  simp [advance, setQueue]

end Device

theorem noticeAt_advance (d : Device) (i n : ℕ) (m : Memory) (seq : ℕ) :
    noticeAt (d.advance i n) i m seq = noticeAt d i m seq := by
  simp [noticeAt, Device.advance, Device.setQueue]

theorem published_advance (d : Device) (i n : ℕ) (m : Memory) :
    published (d.advance i n) i m = published d i m := by
  simp [published, Device.advance, Device.setQueue]

theorem RingOutside.advance (h : RingOutside hv d i) (n : ℕ) :
    RingOutside hv (d.advance i n) i := by
  refine ⟨?_, ?_, ?_⟩
  · simpa [Device.advance, Device.setQueue] using h.index
  · simpa [Device.advance, Device.setQueue] using h.entries
  · simpa [Device.advance, Device.setQueue] using h.descriptors

/-! ## The loop -/

/-- The first `n` announcements of a notification. -/
def announced (d : Device) (i : ℕ) (passes : List Memory) (n : ℕ) : List Notice :=
  (List.range n).map fun j =>
    noticeAt d i (passes.getD j fun _ => 0) (((d.qs i).availSeen + j) % 2 ^ 16)

theorem announced_succ (d : Device) (i : ℕ) (m : Memory) (later : List Memory) (n : ℕ)
    (h : (d.qs i).availSeen < 2 ^ 16) :
    announced d i (m :: later) (n + 1) =
      noticeAt d i m (d.qs i).availSeen :: announced (d.advance i 1) i later n := by
  unfold announced
  rw [range_succ_eq_map, map_cons, map_map]
  congr 1
  · simp only [getD_cons_zero, add_zero, Nat.mod_eq_of_lt h]
  · apply map_congr_left
    intro j _
    simp only [Function.comp_apply, getD_cons_succ, noticeAt_advance, Device.advance_seen]
    congr 1
    omega

theorem notifyAvail_apply (i seq idx : ℕ) (s : State) :
    ∃ places, (∀ p ∈ places, p = .device ∨ p = .queue i ∨ (s.dev.verbose = true ∧
        p = .guest (((s.dev.qs i).desc + 16 * idx) % 2 ^ 64) 14)) ∧
      notifyAvail m i seq idx s = (some (), { s with
        places := s.places ++ places
        notices := s.notices ++
          [⟨s.dev.base, (s.dev.qs i).idx % 2 ^ 16, idx, (s.dev.qs i).desc, seq⟩] }) := by
  unfold notifyAvail
  rw [queue_bind, device_bind, queue_bind, device_bind]
  cases hv : s.dev.verbose with
  | true =>
    refine ⟨[.queue i, .device, .queue i, .device,
      .guest (((s.dev.qs i).desc + 16 * idx) % 2 ^ 64) 14], by simp, ?_⟩
    rw [if_pos (by exact hv), guest_bind]
    simp [State.visit]
  | false =>
    refine ⟨[.queue i, .device, .queue i, .device], by simp, ?_⟩
    rw [if_neg (by simp [State.visit, hv])]
    simp [State.visit]

theorem notifyLoop_caught_up (later : List Memory) (s : State)
    (h : published s.dev i m = (s.dev.qs i).availSeen) :
    notifyLoop i (s.dev.qs i).avail (m :: later) s =
      (some (), (s.visit (.guest (((s.dev.qs i).avail + 2) % 2 ^ 64) 2)).visit (.queue i)) := by
  rw [notifyLoop, guest_bind, queue_bind, if_neg (by simpa [State.visit, published] using h)]
  rfl

theorem notifyLoop_unseen (later : List Memory) (s : State)
    (hseen : (s.dev.qs i).availSeen < 2 ^ 16) (hring : RingOutside hv s.dev i)
    (h : published s.dev i m ≠ (s.dev.qs i).availSeen) :
    ∃ new, (∀ p ∈ new, AtQueue hv i p) ∧ notifyLoop i (s.dev.qs i).avail (m :: later) s =
        notifyLoop i (s.dev.qs i).avail later { s with
          dev := s.dev.advance i 1
          places := s.places ++ new
          notices := s.notices ++ [noticeAt s.dev i m (s.dev.qs i).availSeen] } := by
  rw [notifyLoop, guest_bind, queue_bind, if_pos (by simpa [State.visit, published] using h),
    queue_bind, guest_bind]
  obtain ⟨places, hplaces, hnotify⟩ := notifyAvail_apply m i (s.dev.qs i).availSeen
    (m.field 2 (((s.dev.qs i).avail + 4 + 2 * ((s.dev.qs i).availSeen % (s.dev.qs i).size)) %
      2 ^ 64))
    ((((s.visit (.guest (((s.dev.qs i).avail + 2) % 2 ^ 64) 2)).visit (.queue i)).visit
      (.queue i)).visit (.guest (((s.dev.qs i).avail + 4 + 2 * ((s.dev.qs i).availSeen %
        (s.dev.qs i).size)) % 2 ^ 64) 2))
  refine ⟨[.guest (((s.dev.qs i).avail + 2) % 2 ^ 64) 2, .queue i, .queue i,
    .guest (((s.dev.qs i).avail + 4 + 2 * ((s.dev.qs i).availSeen % (s.dev.qs i).size)) % 2 ^ 64) 2]
      ++ places ++ [.queue i], ?_, ?_⟩
  · intro p hp
    simp only [mem_append, mem_cons, not_mem_nil, or_false] at hp
    rcases hp with ((rfl | rfl | rfl | rfl) | hp) | rfl
    · exact hring.index
    · rfl
    · rfl
    · refine hring.entries _ ?_ ?_
      · exact (Nat.mod_le _ _).trans_lt hseen
      · intro hsize
        exact Nat.mod_lt _ (pos_of_ne_zero hsize)
    · rcases hplaces p hp with rfl | rfl | ⟨hverbose, rfl⟩
      · trivial
      · rfl
      · exact hring.descriptors hverbose _ (m.field_lt 2 _)
    · rfl
  · refine (Cut.bind_of_some hnotify).trans ?_
    rw [setQueue_bind]
    simp only [State.visit, append_assoc, cons_append, nil_append]
    rfl

/-- What the loop has done after `n` announcements. -/
structure LoopEnd (hv : ℕ → Prop) (i : ℕ) (passes : List Memory) (s t : State) (returned : Bool)
    (n : ℕ) : Prop where
  dev : t.dev = s.dev.advance i n
  line : t.line = s.line
  notices : t.notices = s.notices ++ announced s.dev i passes n
  places : ∃ new, t.places = s.places ++ new ∧ ∀ p ∈ new, AtQueue hv i p
  unseen : ∀ j < n, published s.dev i (passes.getD j fun _ => 0) ≠
    ((s.dev.qs i).availSeen + j) % 2 ^ 16
  caught_up : returned = true → n < passes.length ∧
    published s.dev i (passes.getD n fun _ => 0) = ((s.dev.qs i).availSeen + n) % 2 ^ 16
  waiting : returned = false → n = passes.length

theorem notifyLoop_end (passes : List Memory) (s : State)
    (hseen : (s.dev.qs i).availSeen < 2 ^ 16) (hring : RingOutside hv s.dev i) :
    ∃ n, LoopEnd hv i passes s (notifyLoop i (s.dev.qs i).avail passes s).2
      (notifyLoop i (s.dev.qs i).avail passes s).1.isSome n := by
  induction passes generalizing s with
  | nil =>
    refine ⟨0, ⟨?_, rfl, ?_, ⟨[], ?_, ?_⟩, ?_, ?_, ?_⟩⟩
    · exact (s.dev.advance_zero hseen).symm
    · simp [notifyLoop, announced]
    · simp [notifyLoop]
    · simp
    · simp
    · simp [notifyLoop]
    · simp
  | cons m later ih =>
    by_cases h : published s.dev i m = (s.dev.qs i).availSeen
    · rw [notifyLoop_caught_up m later s h]
      refine ⟨0, ⟨?_, rfl, ?_, ⟨[.guest (((s.dev.qs i).avail + 2) % 2 ^ 64) 2, .queue i], ?_, ?_⟩,
        ?_, ?_, ?_⟩⟩
      · exact (s.dev.advance_zero hseen).symm
      · simp [State.visit, announced]
      · simp [State.visit]
      · intro p hp
        simp only [mem_cons, not_mem_nil, or_false] at hp
        rcases hp with rfl | rfl
        · exact hring.index
        · rfl
      · simp
      · intro _
        rw [add_zero, Nat.mod_eq_of_lt hseen]
        exact ⟨Nat.succ_pos _, h⟩
      · simp
    · obtain ⟨new, hnew, hpass⟩ := notifyLoop_unseen m later s hseen hring h
      rw [hpass]
      have havail : (s.dev.qs i).avail = ((s.dev.advance i 1).qs i).avail := by
        simp [Device.advance, Device.setQueue]
      rw [havail]
      obtain ⟨n, hn⟩ := ih { s with
          dev := s.dev.advance i 1
          places := s.places ++ new
          notices := s.notices ++ [noticeAt s.dev i m (s.dev.qs i).availSeen] }
        (by rw [Device.advance_seen]; exact Nat.mod_lt _ (by decide)) (hring.advance 1)
      refine ⟨n + 1, ⟨?_, hn.line, ?_, ?_, ?_, ?_, ?_⟩⟩
      · rw [hn.dev, Device.advance_advance, add_comm]
      · rw [hn.notices, announced_succ _ _ _ _ _ hseen, append_assoc]
        rfl
      · obtain ⟨more, hmore, hin⟩ := hn.places
        refine ⟨new ++ more, by rw [hmore, append_assoc], ?_⟩
        intro p hp
        rcases mem_append.mp hp with hp | hp
        · exact hnew p hp
        · exact hin p hp
      · intro j hj
        cases j with
        | zero =>
          rw [add_zero, Nat.mod_eq_of_lt hseen]
          exact h
        | succ j =>
          have := hn.unseen j (by omega)
          simp only [published_advance, Device.advance_seen] at this
          rw [getD_cons_succ]
          intro he
          exact this (he.trans (by omega))
      · intro hr
        obtain ⟨hlt, hpub⟩ := hn.caught_up hr
        simp only [published_advance, Device.advance_seen] at hpub
        refine ⟨by simpa using hlt, ?_⟩
        rw [getD_cons_succ, hpub]
        omega
      · intro hr
        rw [hn.waiting hr, length_cons]

/-- Over rings that the guest leaves alone, the loop ends at the published index. -/
theorem notifyLoop_returns (s : State) (hseen : (s.dev.qs i).availSeen < 2 ^ 16)
    (hring : RingOutside hv s.dev i) {passes : List Memory}
    (hstable : ∀ later ∈ passes, later = m) (hlength : 2 ^ 16 ≤ passes.length) :
    (notifyLoop i (s.dev.qs i).avail passes s).1.isSome = true := by
  obtain ⟨n, hn⟩ := notifyLoop_end passes s hseen hring
  by_contra hnone
  have hall := hn.waiting (by simpa using hnone)
  -- the position that the published index names comes up within one turn of the ring
  have hpub : published s.dev i m < 2 ^ 16 := m.field_lt 2 _
  obtain ⟨j, hj, hjeq⟩ : ∃ j < 2 ^ 16,
      ((s.dev.qs i).availSeen + j) % 2 ^ 16 = published s.dev i m :=
    ⟨(published s.dev i m + 2 ^ 16 - (s.dev.qs i).availSeen) % 2 ^ 16, by omega, by omega⟩
  have hmem : passes.getD j (fun _ => 0) = m := by
    rw [getD_eq_getElem _ _ (by omega)]
    exact hstable _ (getElem_mem _)
  have hne := hn.unseen j (by omega)
  rw [hmem] at hne
  exact hne hjeq.symm

end Q1n1.Virtio
