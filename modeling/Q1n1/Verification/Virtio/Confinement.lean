import Q1n1.Verification.Virtio.Notify

/-! # A guest at the register page -/

namespace Q1n1.Virtio

open Cut List

/-- The hypervisor memory that belongs to a device: its record, its queue records and
its configuration bytes. Addresses from the guest must lie outside the hypervisor, and the
search for a device goes through the records in front of it. -/
def Inside (hv : ℕ → Prop) (d : Device) : Place → Prop
  | .device | .link => True
  | .queue i => i < d.numQus
  | .config i => i < d.configLen
  | .guest a n => ∀ k < n, ¬hv (a + k)

/-- Ring positions announced one after another, from `a` up to but not including `b`. -/
def Chain (l : List Notice) (a b : ℕ) : Prop :=
  l.map Notice.seq = (List.range l.length).map (fun j => (a + j) % 2 ^ 16) ∧
    b = (a + l.length) % 2 ^ 16

theorem chain_nil {a : ℕ} (h : a < 2 ^ 16) : Chain [] a a := ⟨rfl, (Nat.mod_eq_of_lt h).symm⟩

theorem Chain.append {l l' : List Notice} {a b c : ℕ} (h : Chain l a b) (h' : Chain l' b c) :
    Chain (l ++ l') a c := by
  obtain ⟨hseq, hb⟩ := h
  obtain ⟨hseq', hc⟩ := h'
  refine ⟨?_, ?_⟩
  · rw [map_append, hseq, hseq', length_append, range_add, map_append,
      map_map]
    congr 1
    apply map_congr_left
    intro j _
    simp only [Function.comp_apply]
    omega
  · rw [length_append]
    omega

def ofQueue (i : ℕ) (l : List Notice) : List Notice := l.filter fun n => n.qu = i

theorem ofQueue_append (i : ℕ) (l l' : List Notice) :
    ofQueue i (l ++ l') = ofQueue i l ++ ofQueue i l' := filter_append ..

/-! ## One device -/

/-- What holds of a device between accesses. -/
structure Sound (d : Device) : Prop where
  selected : ∀ i, d.currq = some i → i < d.numQus
  idx : ∀ i < d.numQus, (d.qs i).idx = i
  seen_lt : ∀ i < d.numQus, (d.qs i).availSeen < 2 ^ 16
  numQus_le : d.numQus ≤ 2 ^ 16

/-- What an access to device `d` has done by state `s`. -/
structure Outcome (hv : ℕ → Prop) (d : Device) (s : State) : Prop where
  sound : Sound s.dev
  numQus : s.dev.numQus = d.numQus
  configLen : s.dev.configLen = d.configLen
  inside : ∀ p ∈ s.places, Inside hv d p
  queues : ∀ n ∈ s.notices, n.qu < d.numQus
  chain : ∀ i < d.numQus, Chain (ofQueue i s.notices) (d.qs i).availSeen (s.dev.qs i).availSeen

variable {hv : ℕ → Prop} {d : Device} {s t : State} {α : Type}

theorem outcome_start (h : Sound d) : Outcome hv d ⟨d, none, [], []⟩ where
  sound := h
  numQus := rfl
  configLen := rfl
  inside := by simp
  queues := by simp
  chain i hi := chain_nil (h.seen_lt i hi)

theorem Outcome.visit (h : Outcome hv d s) {p : Place} (hp : Inside hv d p) :
    Outcome hv d (s.visit p) := by
  refine { h with inside := ?_ }
  exact forall_mem_append.mpr ⟨h.inside, forall_mem_singleton.mpr hp⟩

theorem Outcome.setDev (h : Outcome hv d s) {e : Device} (hqs : e.qs = s.dev.qs)
    (hnum : e.numQus = s.dev.numQus) (hlen : e.configLen = s.dev.configLen)
    (hsel : ∀ i, e.currq = some i → i < s.dev.numQus) : Outcome hv d { s with dev := e } where
  sound := {
    selected := by rw [hnum]; exact hsel
    idx := by rw [hnum, hqs]; exact h.sound.idx
    seen_lt := by rw [hnum, hqs]; exact h.sound.seen_lt
    numQus_le := by rw [hnum]; exact h.sound.numQus_le }
  numQus := hnum.trans h.numQus
  configLen := hlen.trans h.configLen
  inside := h.inside
  queues := h.queues
  chain := by simp only [hqs]; exact h.chain

theorem Device.setQueue_qs (d : Device) (i j : ℕ) (f : Queue → Queue) :
    (d.setQueue i f).qs j = if j = i then f (d.qs i) else d.qs j := rfl

theorem Outcome.setQueue (h : Outcome hv d s) (i : ℕ) {f : Queue → Queue}
    (hidx : ∀ q, (f q).idx = q.idx) (hseen : ∀ q, (f q).availSeen = q.availSeen) :
    Outcome hv d { s with dev := s.dev.setQueue i f } := by
  have hsame : ∀ j, ((s.dev.setQueue i f).qs j).idx = (s.dev.qs j).idx ∧
      ((s.dev.setQueue i f).qs j).availSeen = (s.dev.qs j).availSeen := by
    intro j
    rw [Device.setQueue_qs]
    by_cases hj : j = i
    · rw [if_pos hj, hj]
      exact ⟨hidx _, hseen _⟩
    · rw [if_neg hj]
      exact ⟨rfl, rfl⟩
  exact {
    sound := {
      selected := h.sound.selected
      idx := fun j hj => (hsame j).1.trans (h.sound.idx j hj)
      seen_lt := fun j hj => (hsame j).2 ▸ h.sound.seen_lt j hj
      numQus_le := h.sound.numQus_le }
    numQus := h.numQus
    configLen := h.configLen
    inside := h.inside
    queues := h.queues
    chain := fun j hj => (hsame j).2 ▸ h.chain j hj }

/-! ## Contracts of the accesses -/

/-- Every step keeps to the device. -/
def Keeps (hv : ℕ → Prop) (d : Device) (s t : State) : Prop := Outcome hv d s → Outcome hv d t

theorem does_device {f : Device → α} :
    Does (Keeps hv d) (Outcome hv d) (device f) fun a s => a = f s.dev ∧ Outcome hv d s := by
  intro s hs
  refine ⟨.single fun h => h.visit trivial, ?_⟩
  intro a ha
  cases ha
  exact ⟨rfl, hs.visit trivial⟩

variable {i : ℕ}

theorem does_queue (hi : i < d.numQus) (f : Queue → α) :
    Does (Keeps hv d) (Outcome hv d) (queue i f) fun _ => Outcome hv d := by
  intro s hs
  exact ⟨.single fun h => h.visit hi, fun _ _ => hs.visit hi⟩

theorem does_config (hi : i < d.configLen) :
    Does (Keeps hv d) (Outcome hv d) (config i) fun _ => Outcome hv d := by
  intro s hs
  exact ⟨.single fun h => h.visit hi, fun _ _ => hs.visit hi⟩

theorem does_setDevice {f : Device → Device}
    (hsel : ∀ e, Sound e → e.numQus = d.numQus → ∀ i, (f e).currq = some i → i < d.numQus)
    (hsame : ∀ e, (f e).qs = e.qs ∧ (f e).numQus = e.numQus ∧ (f e).configLen = e.configLen := by
      exact fun _ => ⟨rfl, rfl, rfl⟩) :
    Does (Keeps hv d) (Outcome hv d) (setDevice f) fun _ => Outcome hv d := by
  have hkeep : ∀ s, Outcome hv d s → Outcome hv d { s.visit .device with dev := f s.dev } := by
    intro s hs
    obtain ⟨hqs, hnum, hlen⟩ := hsame s.dev
    apply (hs.visit (p := .device) trivial).setDev hqs hnum hlen
    intro i hi
    have := hsel s.dev hs.sound hs.numQus i hi
    rwa [← hs.numQus] at this
  intro s hs
  exact ⟨.single (hkeep s), fun _ _ => hkeep s hs⟩

theorem does_setQueue (hi : i < d.numQus) {f : Queue → Queue} (hidx : ∀ q, (f q).idx = q.idx)
    (hseen : ∀ q, (f q).availSeen = q.availSeen) :
    Does (Keeps hv d) (Outcome hv d) (setQueue i f) fun _ => Outcome hv d := by
  intro s hs
  exact ⟨.single fun h => (h.visit (p := .queue i) hi).setQueue i hidx hseen,
    fun _ _ => (hs.visit (p := .queue i) hi).setQueue i hidx hseen⟩

theorem chain_announced (d : Device) (i : ℕ) (passes : List Memory) (n : ℕ)
    (hidx : (d.qs i).idx % 2 ^ 16 = i) :
    Chain (ofQueue i (announced d i passes n)) (d.qs i).availSeen
      (((d.qs i).availSeen + n) % 2 ^ 16) := by
  have hall : ofQueue i (announced d i passes n) = announced d i passes n := by
    apply filter_eq_self.mpr
    intro x hx
    obtain ⟨j, _, rfl⟩ := mem_map.mp hx
    simpa [noticeAt] using hidx
  rw [hall]
  refine ⟨?_, ?_⟩
  · simp only [announced, map_map, length_map, length_range]
    rfl
  · simp [announced]

theorem ofQueue_announced_of_ne (d : Device) {j : ℕ} (passes : List Memory) (n : ℕ)
    (hidx : (d.qs i).idx % 2 ^ 16 = i) (hj : j ≠ i) : ofQueue j (announced d i passes n) = [] := by
  apply filter_eq_nil_iff.mpr
  intro x hx
  obtain ⟨k, _, rfl⟩ := mem_map.mp hx
  simp only [noticeAt, hidx, decide_eq_true_eq]
  exact Ne.symm hj

theorem LoopEnd.outcome {n : ℕ} {passes : List Memory} {returned : Bool}
    (hend : LoopEnd hv i passes s t returned n) (h : Outcome hv d s) (hi : i < d.numQus) :
    Outcome hv d t := by
  have hi' : i < s.dev.numQus := h.numQus ▸ hi
  have hle := h.sound.numQus_le
  have hidx : (s.dev.qs i).idx % 2 ^ 16 = i := by
    rw [h.sound.idx i hi', Nat.mod_eq_of_lt (by omega)]
  have hqs : ∀ j, (t.dev.qs j).idx = (s.dev.qs j).idx ∧ (t.dev.qs j).availSeen =
      if j = i then ((s.dev.qs i).availSeen + n) % 2 ^ 16 else (s.dev.qs j).availSeen := by
    intro j
    rw [hend.dev, Device.advance, Device.setQueue_qs]
    by_cases hj : j = i
    · simp [hj]
    · simp [hj]
  have hnum : t.dev.numQus = s.dev.numQus := by rw [hend.dev]; rfl
  refine ⟨⟨?_, ?_, ?_, ?_⟩, ?_, ?_, ?_, ?_, ?_⟩
  · rw [hnum, hend.dev]
    exact h.sound.selected
  · intro j hj
    rw [(hqs j).1]
    exact h.sound.idx j (hnum ▸ hj)
  · intro j hj
    rw [(hqs j).2]
    split
    · exact Nat.mod_lt _ (by decide)
    · exact h.sound.seen_lt j (hnum ▸ hj)
  · rw [hnum]
    exact h.sound.numQus_le
  · exact hnum.trans h.numQus
  · rw [hend.dev]
    exact h.configLen
  · obtain ⟨new, hnew, hin⟩ := hend.places
    rw [hnew]
    intro p hp
    rcases mem_append.mp hp with hp | hp
    · exact h.inside p hp
    · have := hin p hp
      cases p with
      | device => trivial
      | queue j => exact this ▸ hi
      | config j => exact this.elim
      | link => exact this.elim
      | guest a k => exact this
  · rw [hend.notices]
    intro x hx
    rcases mem_append.mp hx with hx | hx
    · exact h.queues x hx
    · obtain ⟨j, _, rfl⟩ := mem_map.mp hx
      exact hidx.trans_lt hi
  · intro j hj
    rw [hend.notices, ofQueue_append, (hqs j).2]
    by_cases hji : j = i
    · rw [if_pos hji]
      subst hji
      exact (h.chain j hj).append (chain_announced s.dev j passes n hidx)
    · rw [if_neg hji, ofQueue_announced_of_ne s.dev passes n hidx hji, append_nil]
      exact h.chain j hj

variable (passes : List Memory)

theorem notifyBuffers_apply (i : ℕ) (s : State) (hi : i < s.dev.numQus) :
    notifyBuffers passes i s =
      notifyLoop i (s.dev.qs i).avail passes ((s.visit (.queue i)).visit .device) := by
  rw [notifyBuffers, queue_bind, device_bind, if_neg (by simpa [State.visit] using hi)]

theorem does_notifyBuffers (hi : i < d.numQus) (hring : RingOutside hv d i) :
    Does (Keeps hv d) (fun s => s.dev = d ∧ Outcome hv d s) (notifyBuffers passes i)
      fun _ => Outcome hv d := by
  intro s hs
  obtain ⟨rfl, hs⟩ := hs
  rw [notifyBuffers_apply passes i s hi]
  obtain ⟨n, hn⟩ := notifyLoop_end passes ((s.visit (.queue i)).visit .device)
    (hs.sound.seen_lt i hi) hring
  have hstep : Keeps hv s.dev s (notifyLoop i (s.dev.qs i).avail passes
      ((s.visit (.queue i)).visit .device)).2 := by
    intro h
    exact hn.outcome ((h.visit (p := .queue i) hi).visit (p := .device) trivial) hi
  exact ⟨.single hstep, fun _ _ => hstep hs⟩

/-! ## Registers -/

/-- What a store must respect, on the device as it is before: a selection that the check
lets through is one of the queues, and so is a notified queue, with its rings
outside the hypervisor. -/
structure ProperStore (hv : ℕ → Prop) (d : Device) (addr val : ℕ) : Prop where
  select : addr = qsel → val < d.numQus ∨ toInt d.numQus < toInt val
  notify : addr = qnotify → val % 2 ^ 32 < d.numQus ∧ RingOutside hv d (val % 2 ^ 32)

theorem does_writeDevice {addr val : ℕ} (hp : ProperStore hv d addr val) (hd : Sound d) :
    Does (Keeps hv d) (fun s => s.dev = d ∧ Outcome hv d s) (writeDevice passes addr val)
      fun _ => Outcome hv d := by
  have hsel : ∀ e : Device, Sound e → e.numQus = d.numQus →
      ∀ i, e.currq = some i → i < d.numQus := by
    intro e he hnum i hi
    exact hnum ▸ he.selected i hi
  unfold writeDevice
  apply does_cond
  · refine Does.pre (P := Outcome hv d) ?_ fun _ h => h.2
    exact does_setDevice hsel
  apply does_ite
  · intro haddr
    apply (does_device.pre fun _ h => h.2).bind
    intro numQus
    apply does_of_forall
    intro s hs
    obtain ⟨rfl, hs⟩ := hs
    apply does_ite
    · intro hle
      refine Does.pre (P := Outcome hv d) ?_ fun t ht => ht ▸ hs
      refine does_setDevice ?_
      intro e _ _ i hi
      have hval : val < d.numQus := by
        rcases hp.select haddr with h | h
        · exact h
        · rw [← hs.numQus] at h
          omega
      have hle := hd.numQus_le
      obtain rfl : element val = i := Option.some.inj hi
      rw [element]
      omega
    · intro _
      refine Does.pre (P := Outcome hv d) ?_ fun t ht => ht ▸ hs
      refine does_setDevice ?_
      intro e _ _ i hi
      cases hi
  intro _
  apply does_ite
  · intro haddr
    obtain ⟨hi, hring⟩ := hp.notify haddr
    exact does_notifyBuffers passes hi hring
  intro _
  apply does_cond
  · refine Does.pre (P := Outcome hv d) ?_ fun _ h => h.2
    exact does_setDevice hsel
  apply does_cond
  · refine Does.pre (P := Outcome hv d) ?_ fun _ h => h.2
    refine (does_setDevice ?_).bind fun _ => ?_
    · exact hsel
    apply does_device.bind
    intro pending
    apply does_ite
    · intro _ s hs
      exact ⟨.single fun h => { h with }, fun _ _ => { hs.2 with }⟩
    · intro _
      exact does_pure fun _ h => h.2
  · exact does_pure fun _ h => h.2

@[simp] theorem Queue.setArea_idx (q : Queue) (i val : ℕ) : (q.setArea i val).idx = q.idx := by
  unfold Queue.setArea
  rfl

@[simp] theorem Queue.setArea_availSeen (q : Queue) (i val : ℕ) :
    (q.setArea i val).availSeen = q.availSeen := by
  unfold Queue.setArea
  rfl

theorem does_writeQueue (hi : i < d.numQus) (addr val : ℕ) :
    Does (Keeps hv d) (Outcome hv d) (writeQueue i addr val) fun _ => Outcome hv d := by
  unfold writeQueue
  apply does_cond
  · exact does_setQueue hi (fun _ => rfl) fun _ => rfl
  apply does_cond
  · exact does_setQueue hi (fun _ => rfl) fun _ => rfl
  apply does_cond
  · exact does_setQueue hi (fun q => q.setArea_idx _ _) fun q => q.setArea_availSeen _ _
  · exact does_skip

theorem does_write {addr val : ℕ} (hp : ProperStore hv d addr val) (hd : Sound d) :
    Does (Keeps hv d) (fun s => s.dev = d ∧ Outcome hv d s) (write passes addr val)
      fun _ => Outcome hv d := by
  apply (does_writeDevice passes hp hd).bind
  intro _
  apply does_device.bind
  intro q
  apply does_of_forall
  intro s hs
  obtain ⟨rfl, hs⟩ := hs
  cases hq : s.dev.currq with
  | none => exact does_pure fun t ht => ht ▸ hs
  | some i =>
    have hi : i < d.numQus := hs.numQus ▸ hs.sound.selected i hq
    exact (does_writeQueue hi addr val).pre fun t ht => ht ▸ hs

theorem does_read (addr val : ℕ) :
    Does (Keeps hv d) (Outcome hv d) (read addr val) fun _ => Outcome hv d := by
  unfold read
  apply does_cond
  · exact does_skip
  apply does_cond
  · exact does_skip
  apply does_cond
  · exact does_device.post fun _ _ h => h.2
  apply does_cond
  · exact does_device.post fun _ _ h => h.2
  apply does_cond
  · apply does_device.bind
    intro sel
    apply (does_device.pre fun _ h => h.2).bind
    intro feats
    exact does_pure fun _ h => h.2
  apply does_cond
  · exact does_device.post fun _ _ h => h.2
  apply does_cond
  · apply does_device.bind
    intro len
    apply does_of_forall
    intro s hs
    obtain ⟨rfl, hs⟩ := hs
    apply does_ite
    · intro hlt
      apply ((does_config (hs.configLen ▸ hlt)).pre fun t ht => ht ▸ hs).bind
      intro byte
      exact does_skip
    · intro _
      exact does_pure fun t ht => ht ▸ hs
  apply does_device.bind
  intro q
  apply does_of_forall
  intro s hs
  obtain ⟨rfl, hs⟩ := hs
  cases hq : s.dev.currq with
  | none => exact does_pure fun t ht => ht ▸ hs
  | some i =>
    have hi : i < d.numQus := hs.numQus ▸ hs.sound.selected i hq
    apply does_cond
    · exact (does_queue hi _).pre fun t ht => ht ▸ hs
    apply does_cond
    · apply ((does_queue hi _).pre fun t ht => ht ▸ hs).bind
      intro ready
      exact does_skip
    · exact does_pure fun t ht => ht ▸ hs

theorem register_outcome (a : Access) (hd : Sound d)
    (hp : a.write = true → ProperStore hv d (a.addr % 0x1000) a.val) :
    Outcome hv d (register a ⟨d, none, [], []⟩).2 := by
  have hdoes : Does (Keeps hv d) (fun s => s.dev = d ∧ Outcome hv d s) (register a)
      fun _ => Outcome hv d := by
    unfold register
    apply does_ite
    · intro hwrite
      apply (does_write a.passes (hp hwrite) hd).bind
      intro _
      exact does_skip
    · intro _
      exact (does_read _ _).pre fun _ h => h.2
  have hrun := (hdoes ⟨d, none, [], []⟩ ⟨rfl, outcome_start hd⟩).1
  exact steps_keep (fun _ _ hstep h => hstep h) hrun (outcome_start hd)

/-! ## Whole runs -/

def World.noticesOf (w : World) (k i : ℕ) : List Notice :=
  ofQueue i ((w.notices.filter fun x => x.1 = k).map Prod.snd)

/-- What holds of all devices between accesses. -/
structure WorldSound (hv : ℕ → Prop) (w : World) : Prop where
  sound : ∀ (k : ℕ) d, w.devices[k]? = some d → Sound d
  inside : ∀ x ∈ w.places, ∃ d, w.devices[x.1]? = some d ∧ Inside hv d x.2
  queues : ∀ x ∈ w.notices, ∃ d, w.devices[x.1]? = some d ∧ x.2.qu < d.numQus
  chain : ∀ (k : ℕ) d i, w.devices[k]? = some d → i < d.numQus →
    Chain (w.noticesOf k i) 0 (d.qs i).availSeen

theorem mapVirtio_sound {conf : Conf} (beyond : ℕ → Queue) (h : conf.numQus ≤ 2 ^ 16) :
    Sound (mapVirtio conf beyond) where
  selected i hi := by cases hi
  idx i hi := by
    show (initialQueue conf.numQus beyond i).idx = i
    rw [initialQueue, if_pos (show i < conf.numQus from hi)]
  seen_lt i hi := by
    show (initialQueue conf.numQus beyond i).availSeen < 2 ^ 16
    rw [initialQueue, if_pos (show i < conf.numQus from hi)]
    exact Nat.two_pow_pos 16
  numQus_le := h

theorem attached_sound (hv : ℕ → Prop) {confs : List (Conf × (ℕ → Queue))}
    (hnum : ∀ c ∈ confs, c.1.numQus ≤ 2 ^ 16) : WorldSound hv (attached confs) where
  sound k d hd := by
    obtain ⟨c, hc, rfl⟩ := mem_map.mp (mem_of_getElem? hd)
    exact mapVirtio_sound c.2 (hnum c hc)
  inside x hx := by cases hx
  queues x hx := by cases hx
  chain k d i hd hi := by
    obtain ⟨c, _, rfl⟩ := mem_map.mp (mem_of_getElem? hd)
    have hseen : ((mapVirtio c.1 c.2).qs i).availSeen = 0 := by
      show (initialQueue c.1.numQus c.2 i).availSeen = 0
      rw [initialQueue, if_pos (show i < c.1.numQus from hi)]
    rw [hseen]
    exact chain_nil (by decide)

theorem Inside.congr {e : Device} {p : Place} (hp : Inside hv d p) (hnum : e.numQus = d.numQus)
    (hlen : e.configLen = d.configLen) : Inside hv e p := by
  cases p with
  | device => trivial
  | link => trivial
  | queue i => exact lt_of_lt_of_eq hp hnum.symm
  | config i => exact lt_of_lt_of_eq hp hlen.symm
  | guest a n => exact hp

variable {w : World} {k : ℕ}

theorem put_device (hk : w.devices[k]? = some d) (j : ℕ) :
    (w.put k t).devices[j]? = if j = k then some t.dev else w.devices[j]? := by
  have hlt : k < w.devices.length := (List.getElem?_eq_some_iff.mp hk).1
  show (w.devices.set k t.dev)[j]? = _
  rw [getElem?_set]
  by_cases hj : k = j
  · rw [if_pos hj, if_pos hj.symm, if_pos hlt]
  · rw [if_neg hj, if_neg (Ne.symm hj)]

theorem put_noticesOf (w : World) (k j i : ℕ) (t : State) : (w.put k t).noticesOf j i =
      w.noticesOf j i ++ if j = k then ofQueue i t.notices else [] := by
  unfold World.noticesOf World.put
  rw [filter_append, map_append, ofQueue_append]
  congr 1
  by_cases hj : j = k
  · rw [if_pos hj]
    simp [filter_map, Function.comp_def, hj]
  · rw [if_neg hj]
    simp [filter_map, Function.comp_def, Ne.symm hj, ofQueue]

theorem WorldSound.put (hw : WorldSound hv w) (hk : w.devices[k]? = some d)
    (ht : Outcome hv d t) : WorldSound hv (w.put k t) := by
  -- a place or queue of the old world is one of the new
  have hold : ∀ (j : ℕ) e, w.devices[j]? = some e → ∃ e', (w.put k t).devices[j]? = some e' ∧
      e'.numQus = e.numQus ∧ e'.configLen = e.configLen := by
    intro j e he
    rw [put_device hk]
    by_cases hj : j = k
    · rw [if_pos hj]
      rw [hj, hk] at he
      cases he
      exact ⟨t.dev, rfl, ht.numQus, ht.configLen⟩
    · rw [if_neg hj]
      exact ⟨e, he, rfl, rfl⟩
  have hnew : (w.put k t).devices[k]? = some t.dev := by
    rw [put_device hk, if_pos rfl]
  refine ⟨?_, ?_, ?_, ?_⟩
  · intro j e he
    rw [put_device hk] at he
    by_cases hj : j = k
    · rw [if_pos hj] at he
      cases he
      exact ht.sound
    · rw [if_neg hj] at he
      exact hw.sound j e he
  · intro x hx
    rcases mem_append.mp hx with hx | hx
    · obtain ⟨e, he, hin⟩ := hw.inside x hx
      obtain ⟨e', he', hnum, hlen⟩ := hold x.1 e he
      exact ⟨e', he', hin.congr hnum hlen⟩
    · obtain ⟨p, hp, rfl⟩ := mem_map.mp hx
      exact ⟨t.dev, hnew, (ht.inside p hp).congr ht.numQus ht.configLen⟩
  · intro x hx
    rcases mem_append.mp hx with hx | hx
    · obtain ⟨e, he, hin⟩ := hw.queues x hx
      obtain ⟨e', he', hnum, _⟩ := hold x.1 e he
      exact ⟨e', he', lt_of_lt_of_eq hin hnum.symm⟩
    · obtain ⟨n, hn, rfl⟩ := mem_map.mp hx
      exact ⟨t.dev, hnew, lt_of_lt_of_eq (ht.queues n hn) ht.numQus.symm⟩
  · intro j e i he hi
    rw [put_noticesOf]
    rw [put_device hk] at he
    by_cases hj : j = k
    · rw [if_pos hj] at he ⊢
      cases he
      subst hj
      rw [ht.numQus] at hi
      exact (hw.chain j d i hk hi).append (ht.chain i hi)
    · rw [if_neg hj] at he ⊢
      rw [append_nil]
      exact hw.chain j e i he hi

theorem WorldSound.search (hw : WorldSound hv w) (base : ℕ) : WorldSound hv (w.search base) := by
  refine { hw with inside := ?_ }
  refine forall_mem_append.mpr ⟨hw.inside, fun x hx => ?_⟩
  obtain ⟨j, hj, rfl⟩ := mem_map.mp hx
  have hlt : j < w.devices.length := by
    rw [mem_range] at hj
    cases hk : devByBase w.devices base with
    | none => simpa [hk] using hj
    | some k =>
      have := (findIdx?_eq_some_iff_getElem.mp hk).1
      simp only [hk, Option.elim_some] at hj
      omega
  exact ⟨w.devices[j], getElem?_eq_getElem hlt, trivial⟩

def Reaches (w : World) (a : Access) (k : ℕ) (d : Device) : Prop :=
  devByBase w.devices (a.addr - a.addr % 0x1000) = some k ∧ w.devices[k]? = some d

variable {a : Access}

theorem handleVirtio_reached (h : Reaches w a k d) :
    handleVirtio a w = ((register a ⟨d, none, [], []⟩).1.map some,
      (w.search (a.addr - a.addr % 0x1000)).put k (register a ⟨d, none, [], []⟩).2) := by
  simp only [handleVirtio, h.1, h.2]

/-- An access that respects the device it goes to. -/
def Proper (hv : ℕ → Prop) (w : World) (a : Access) : Prop :=
  ∀ k d, Reaches w a k d → a.write = true → ProperStore hv d (a.addr % 0x1000) a.val

theorem handleVirtio_sound (hw : WorldSound hv w) (hp : Proper hv w a) :
    WorldSound hv (handleVirtio a w).2 := by
  have hsearch := hw.search (a.addr - a.addr % 0x1000)
  cases hk : devByBase w.devices (a.addr - a.addr % 0x1000) with
  | none =>
    simp only [handleVirtio, hk]
    exact hsearch
  | some k =>
    cases hd : w.devices[k]? with
    | none =>
      simp only [handleVirtio, hk, hd]
      exact hsearch
    | some d =>
      rw [handleVirtio_reached ⟨hk, hd⟩]
      exact hsearch.put hd (register_outcome a (hw.sound k d hd) (hp k d ⟨hk, hd⟩))

/-- Every access of the run respects the device as it then is. -/
def ProperRun (hv : ℕ → Prop) : List Access → World → Prop
  | [], _ => True
  | a :: rest, w => Proper hv w a ∧
      ((handleVirtio a w).1.isSome = true → ProperRun hv rest (handleVirtio a w).2)

theorem runAccesses_sound (accesses : List Access) (hw : WorldSound hv w)
    (hp : ProperRun hv accesses w) : WorldSound hv (runAccesses accesses w).2 := by
  induction accesses generalizing w with
  | nil => exact hw
  | cons a rest ih =>
    have hstep := handleVirtio_sound hw hp.1
    cases hr : handleVirtio a w with
    | mk r v =>
      rw [hr] at hstep
      cases r with
      | none =>
        rw [runAccesses, bind_of_none hr]
        exact hstep
      | some x =>
        rw [runAccesses, bind_of_some hr]
        have hrest := hp.2
        rw [hr] at hrest
        exact ih hstep (hrest rfl)

/-- A notification of queue `i` announces the unseen ring positions in order and, once it
returns, has come to the published index; it does return over rings left alone. -/
def Announces (w : World) (a : Access) (k : ℕ) (d : Device) (i : ℕ) : Prop :=
  ∃ n, (handleVirtio a w).2.notices =
      w.notices ++ (announced d i a.passes n).map (fun x => (k, x)) ∧
    (∀ j < n, published d i (a.passes.getD j fun _ => 0) ≠ ((d.qs i).availSeen + j) % 2 ^ 16) ∧
    ((handleVirtio a w).1.isSome = true →
      published d i (a.passes.getD n fun _ => 0) = ((d.qs i).availSeen + n) % 2 ^ 16) ∧
    ((∃ m, ∀ later ∈ a.passes, later = m) → 2 ^ 16 ≤ a.passes.length →
      (handleVirtio a w).1.isSome = true)

theorem register_notify (hwrite : a.write = true) (haddr : a.addr % 0x1000 = qnotify) (s : State) :
    (register a s).2.notices = (notifyBuffers a.passes (a.val % 2 ^ 32) s).2.notices ∧
      (register a s).1.isSome = (notifyBuffers a.passes (a.val % 2 ^ 32) s).1.isSome := by
  have hstore : register a = (do
      write a.passes qnotify a.val
      pure a.val) := by
    rw [register, if_pos hwrite, haddr]
  have hdevice : writeDevice a.passes qnotify a.val = notifyBuffers a.passes (a.val % 2 ^ 32) := rfl
  rw [hstore]
  cases hn : notifyBuffers a.passes (a.val % 2 ^ 32) s with
  | mk r t =>
    cases r with
    | none =>
      have hw : write a.passes qnotify a.val s = (none, t) := by
        rw [write, hdevice, bind_of_none hn]
      rw [bind_of_none hw]
      exact ⟨rfl, rfl⟩
    | some u =>
      have hw : write a.passes qnotify a.val s = (some (), t.visit .device) := by
        rw [write, hdevice, bind_of_some hn, device_bind]
        cases t.dev.currq with
        | none => rfl
        | some i => rfl
      rw [bind_of_some hw]
      exact ⟨rfl, rfl⟩

theorem announces_notify (hd : Sound d) (hreach : Reaches w a k d) (hwrite : a.write = true)
    (haddr : a.addr % 0x1000 = qnotify) (hi : a.val % 2 ^ 32 < d.numQus)
    (hring : RingOutside hv d (a.val % 2 ^ 32)) : Announces w a k d (a.val % 2 ^ 32) := by
  obtain ⟨hnotices, hsome⟩ := register_notify hwrite haddr ⟨d, none, [], []⟩
  rw [notifyBuffers_apply a.passes _ _ hi] at hnotices hsome
  have hseen := hd.seen_lt _ hi
  obtain ⟨n, hn⟩ := notifyLoop_end a.passes
    ((State.visit ⟨d, none, [], []⟩ (.queue (a.val % 2 ^ 32))).visit .device) hseen hring
  have hreturn : (handleVirtio a w).1.isSome = (notifyLoop (a.val % 2 ^ 32)
      (d.qs (a.val % 2 ^ 32)).avail a.passes
      ((State.visit ⟨d, none, [], []⟩ (.queue (a.val % 2 ^ 32))).visit .device)).1.isSome := by
    rw [handleVirtio_reached hreach, ← hsome, Option.isSome_map]
  refine ⟨n, ?_, hn.unseen, ?_, ?_⟩
  · rw [handleVirtio_reached hreach]
    show w.notices ++ (register a ⟨d, none, [], []⟩).2.notices.map (fun x => (k, x)) = _
    rw [hnotices.trans hn.notices]
    rfl
  · intro hr
    rw [hreturn] at hr
    exact (hn.caught_up hr).2
  · intro hstable hlength
    obtain ⟨m, hm⟩ := hstable
    rw [hreturn]
    exact notifyLoop_returns m
      ((State.visit ⟨d, none, [], []⟩ (.queue (a.val % 2 ^ 32))).visit .device) hseen
        hring hm hlength

/-- Over every sequence of accesses that respect the devices, the hypervisor memory
touched is the device's own, but for the search, every queue selected or notified is
one of its queues, and ring positions are announced once each and in order, up to the
published index. -/
theorem guest_confined (hv : ℕ → Prop) (confs : List (Conf × (ℕ → Queue)))
    (accesses : List Access) (hnum : ∀ c ∈ confs, c.1.numQus ≤ 2 ^ 16)
    (h : ProperRun hv accesses (attached confs)) :
    let w := (runAccesses accesses (attached confs)).2
    (∀ x ∈ w.places, ∃ d, w.devices[x.1]? = some d ∧ Inside hv d x.2) ∧
      (∀ x ∈ w.notices, ∃ d, w.devices[x.1]? = some d ∧ x.2.qu < d.numQus) ∧
      (∀ (k : ℕ) d i, w.devices[k]? = some d → d.currq = some i → i < d.numQus) ∧
      (∀ (k : ℕ) d i, w.devices[k]? = some d → i < d.numQus →
        Chain (w.noticesOf k i) 0 (d.qs i).availSeen) ∧
      (∀ a k d, Reaches w a k d → ∃ new, (handleVirtio a w).2.places = w.places ++ new ∧
        ∀ x ∈ new, x.1 = k ∨ x.2 = .link) ∧
      ∀ a k d, Reaches w a k d → a.write = true → a.addr % 0x1000 = qnotify →
        a.val % 2 ^ 32 < d.numQus → RingOutside hv d (a.val % 2 ^ 32) →
        Announces w a k d (a.val % 2 ^ 32) := by
  have hw := runAccesses_sound accesses (attached_sound hv hnum) h
  refine ⟨hw.inside, hw.queues, ?_, hw.chain, fun a k d hreach => ?_, ?_⟩
  · intro k d i hd hi
    exact (hw.sound k d hd).selected i hi
  · rw [handleVirtio_reached hreach]
    refine ⟨_, append_assoc .., forall_mem_append.mpr ⟨fun x hx => .inr ?_, fun x hx => .inl ?_⟩⟩
    · obtain ⟨j, -, rfl⟩ := mem_map.mp hx
      rfl
    · obtain ⟨p, -, rfl⟩ := mem_map.mp hx
      rfl
  · intro a k d hreach hwrite haddr hi hring
    exact announces_notify (hw.sound k d hreach.2) hreach hwrite haddr hi hring

/-! ## A device with one queue -/

def oneQueue : Conf := ⟨0x1000, 0, 9, 0, 1, fun _ => 0, 0, false⟩

def blankQueue : Queue := ⟨0, 0, 0, false, 0, 0, 0, 0, fun _ => 0⟩

def store (register val : ℕ) (passes : List Memory) :
    Access := ⟨0x1000 + register, val, true, passes⟩

/-- Selecting queue 1 of one, which the check lets through, and setting its size writes
behind the last queue record. -/
theorem store_past_last_queue :
    let w := (runAccesses [store qsel 1 [], store qsize 8 []]
      (attached [(oneQueue, fun _ => blankQueue)])).2
    (0, Place.queue 1) ∈ w.places ∧
      ∀ d, w.devices[0]? = some d → ¬Inside (fun _ => False) d (.queue 1) := by
  refine ⟨by decide, ?_⟩
  intro d hd hin
  have hnum : some 1 = some d.numQus := congrArg (Option.map Device.numQus) hd
  have hlt : 1 < d.numQus := hin
  rw [← Option.some.inj hnum] at hlt
  exact absurd hlt (by decide)

/-- A ring at `0x10000` with entry 5 published. -/
def ringMemory : Memory := (Memory.zero.setField 2 0x10002 1).setField 2 0x10004 5

theorem proper_of_ne (hsel : a.addr % 0x1000 ≠ qsel) (hnotify : a.addr % 0x1000 ≠ qnotify) :
    Proper hv w a :=
  fun _ _ _ _ => ⟨fun h => absurd h hsel, fun h => absurd h hnotify⟩

theorem Reaches.field {β : Type} (h : Reaches w a k d) (f : Device → β) :
    (w.devices[k]?).map f = some (f d) := by
  rw [h.2]
  rfl

theorem guest_confined_oneQueue :
    let w := (runAccesses [store qsel 0 [], store qsize 8 [], store 0x90 0x10000 [],
      store qnotify 0 [ringMemory, ringMemory]] (attached [(oneQueue, fun _ => blankQueue)])).2
    (0, (⟨0x1000, 0, 5, 0, 0⟩ : Notice)) ∈ w.notices ∧
      ∀ x ∈ w.places, ∃ d, w.devices[x.1]? = some d ∧ Inside (fun a => 2 ^ 40 ≤ a) d x.2 := by
  refine ⟨by decide +kernel, ?_⟩
  refine (guest_confined (fun a => 2 ^ 40 ≤ a) [(oneQueue, fun _ => blankQueue)] _
    (by simp [oneQueue]) ?_).1
  refine ⟨?_, fun _ => ⟨proper_of_ne (by decide) (by decide),
    fun _ => ⟨proper_of_ne (by decide) (by decide), fun _ => ⟨?_, fun _ => trivial⟩⟩⟩⟩
  · intro k d hreach _
    obtain rfl : 0 = k := Option.some.inj hreach.1
    have hnum : 1 = d.numQus := Option.some.inj (hreach.field Device.numQus)
    exact ⟨fun _ => .inl (hnum ▸ Nat.zero_lt_one), fun h => absurd h (by decide)⟩
  · intro k d hreach _
    obtain rfl : 0 = k := Option.some.inj hreach.1
    have hnum : 1 = d.numQus := Option.some.inj (hreach.field Device.numQus)
    have havail : 0x10000 = (d.qs 0).avail := Option.some.inj (hreach.field fun d => (d.qs 0).avail)
    have hsize : 8 = (d.qs 0).size := Option.some.inj (hreach.field fun d => (d.qs 0).size)
    have hverbose : false = d.verbose := Option.some.inj (hreach.field Device.verbose)
    refine ⟨fun h => absurd h (by decide), fun _ => ⟨hnum ▸ Nat.zero_lt_one, ?_, ?_, ?_⟩⟩
    · intro k hk
      show ¬2 ^ 40 ≤ ((d.qs 0).avail + 2) % 2 ^ 64 + k
      omega
    · intro j _ hj k hk
      have hj' : j < (d.qs 0).size := hj (by show (d.qs 0).size ≠ 0; omega)
      show ¬2 ^ 40 ≤ ((d.qs 0).avail + 4 + 2 * j) % 2 ^ 64 + k
      omega
    · intro h
      rw [← hverbose] at h
      cases h

end Q1n1.Virtio
