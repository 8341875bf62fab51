import Q1n1.Library.PhaseRing
import Q1n1.Model.Xhci.Ring

/-! # What the controller consumes from a ring -/

namespace Q1n1.Xhci

open PhaseRing List Function Q1n1.Xhci.Ring Machine Trb

/-- What a TRB asks for: everything but the cycle bit. -/
def Trb.content (t : Trb) : ℕ × ℕ × ℕ := (t.parameter, t.status, t.control / 2)

namespace Submission

def content (s : Submission) : ℕ × ℕ × ℕ :=
  (s.parameter % 2 ^ 64, s.status % 2 ^ 32, s.control / 2 % 2 ^ 31)

theorem trb_cycle (s : Submission) (c : Bool) : (s.trb c).cycle = c := by
  cases c <;> simp [trb, of, Trb.cycle]

theorem trb_type (s : Submission) (c : Bool) : (s.trb c).type ≠ trbLink := by
  have hs := s.notLink
  have htype : (s.trb c).type = s.control / 2 ^ 10 % 64 := by
    cases c <;> simp only [trb, of, type, Bool.toNat_false, Bool.toNat_true] <;>
      omega
  rwa [htype]

theorem trb_content (s : Submission) (c : Bool) : (s.trb c).content = s.content := by
  have hparameter : (s.trb c).parameter = s.parameter % 2 ^ 64 := by
    simp only [trb, of, Trb.parameter]
    omega
  have hcontrol : (s.trb c).control / 2 = s.control / 2 % 2 ^ 31 := by
    cases c <;> simp only [trb, of, Bool.toNat_false, Bool.toNat_true] <;> omega
  rw [Trb.content, hparameter, hcontrol]
  rfl

end Submission

theorem link_cycle (ring : Ring) (c : Bool) : (ring.link c).cycle = c := by
  cases c <;> simp [Ring.link, of, Trb.cycle, trbLink]

theorem link_type (ring : Ring) (c : Bool) : (ring.link c).type = trbLink := by
  cases c <;> simp [Ring.link, of, type, trbLink]

theorem link_toggles (ring : Ring) (c : Bool) : (ring.link c).toggles = true := by
  cases c <;> simp [Ring.link, of, Trb.toggles, trbLink]

theorem link_parameter {ring : Ring} (c : Bool) (h : ring.base < 2 ^ 64) :
    (ring.link c).parameter = ring.base := by
  simp only [Ring.link, of, Trb.parameter]
  omega

/-! ## The invariant -/

/-- The cycle bit of the Link TRB once `n` pushes are over: that of the last lap closed, and
set before there is one. -/
def linkPhase (K n : ℕ) : Bool := (n / K - 1) % 2 = 0

variable {n : ℕ}

theorem linkPhase_succ_of_mod_eq {K : ℕ} (h : (n + 1) % K = 0) :
    linkPhase K (n + 1) = phase K n := by
  have hdvd : K ∣ n + 1 := Nat.dvd_of_mod_eq_zero h
  simp [linkPhase, phase, Nat.succ_div, hdvd]

theorem linkPhase_succ {K : ℕ} (h : (n + 1) % K ≠ 0) : linkPhase K (n + 1) = linkPhase K n := by
  have hdvd : ¬K ∣ n + 1 := fun hd => h (Nat.mod_eq_zero_of_dvd hd)
  simp [linkPhase, Nat.succ_div, hdvd]

/-- The first `j` words of a slot are those of a TRB. -/
def Trb.Begun (new : Trb) (j : ℕ) (old : Trb) : Prop :=
  (0 < j → old.parameterLow = new.parameterLow) ∧
    (1 < j → old.parameterHigh = new.parameterHigh) ∧ (2 < j → old.status = new.status)

/-- The stores that close a lap, if push number `n` is its last. -/
def Ring.closing (ring : Ring) (K n : ℕ) : List Store :=
  if (n + 1) % K = 0 then writeTrb K (ring.link (phase K n)) else []

/-- How far the push under way has come. `landed` holds the TRBs whose control word is in
memory, and `b` is the cycle bit of the Link TRB. -/
inductive Machine.Progress (K : ℕ) (t : Machine) (landed : List Trb) (b : Bool) : Prop where
  | rest (stores : t.stores = []) (all : landed.length = t.pushed.length)
      (link : b = linkPhase K t.pushed.length)
  | trb (earlier : List Submission) (s : Submission) (j : ℕ) (words : j < 4)
      (pushed : t.pushed = earlier ++ [s]) (all : landed.length = earlier.length)
      (begun : (s.trb (phase K landed.length)).Begun j (t.cells (landed.length % K)))
      (stores : t.stores = (writeTrb (landed.length % K) (s.trb (phase K landed.length))).drop j ++
          t.ring.closing K landed.length)
      (room : landed.length < t.consumed.length + K) (link : b = linkPhase K landed.length)
  | link (j : ℕ) (words : j < 4) (all : landed.length = t.pushed.length)
      (stores : t.stores = (writeTrb K (t.ring.link (linkPhase K t.pushed.length))).drop j)

/-- Where the controller stands after `n` TRBs: at the next one, or at the Link TRB before
it. -/
def Dequeue.After (K : ℕ) (d : Dequeue) (n : ℕ) : Prop :=
  (d.slot = n % K ∧ d.cycle = phase K n) ∨ (d.slot = K ∧ 0 < n ∧ n % K = 0 ∧ d.cycle = !phase K n)

structure Machine.Inv (K : ℕ) (t : Machine) (landed : List Trb) (b : Bool) : Prop where
  pos : 0 < K
  count : t.ring.count = K + 1
  base : t.ring.base < 2 ^ 64
  index : t.ring.index = t.pushed.length % K
  cycle : t.ring.cycle = phase K t.pushed.length
  tagged : Tagged K Trb.cycle t.cells landed t.consumed.length
  contents : landed.map Trb.content = (t.pushed.take landed.length).map Submission.content
  types : ∀ trb ∈ landed, trb.type ≠ trbLink
  consumed : t.consumed = landed.take t.consumed.length
  dequeue : t.dequeue.After K t.consumed.length
  link : t.cells K = t.ring.link b
  progress : t.Progress K landed b

theorem Machine.Inv.consumed_content {K : ℕ} {t : Machine} {landed : List Trb} {b : Bool}
    (h : t.Inv K landed b) :
    t.consumed.map Trb.content = (t.pushed.take t.consumed.length).map Submission.content := by
  have hle := h.tagged.le
  calc t.consumed.map Trb.content
      = (landed.map Trb.content).take t.consumed.length := by
        rw [← map_take, ← h.consumed]
    _ = (t.pushed.take t.consumed.length).map Submission.content := by
        rw [h.contents, ← map_take, take_take, min_eq_left hle]

theorem Machine.inv_init {base count : ℕ} (hbase : base < 2 ^ 64) (hcount : 2 ≤ count) :
    (init base count).Inv (count - 1) [] true := by
  have hcells : (init base count).cells =
      update (fun _ => {}) (count - 1) ((init base count).ring.link true) := by
    funext i
    by_cases hi : i = count - 1
    · simp [init, Ring.init, writeTrb, Store.apply, Trb.set, hi]
    · simp [init, Ring.init, writeTrb, Store.apply, update_of_ne hi]
  have hlink : linkPhase (count - 1) 0 = true := by simp [linkPhase]
  have hfirst : phase (count - 1) 0 = true := by simp [phase]
  refine ⟨by omega, ?_, hbase, by simp [init, Ring.init],
    hfirst.symm, .init ?_, rfl, by simp, rfl, .inl ⟨?_, hfirst.symm⟩, ?_,
    .rest rfl rfl hlink.symm⟩
  · simp only [init, Ring.init]
    omega
  · intro n hn
    rw [hcells, update_of_ne (by omega)]
    rfl
  · simp [init]
  · rw [hcells, update_self]

variable {K : ℕ} {t : Machine} {landed : List Trb} {b : Bool}

theorem Machine.Progress.of_look {t' : Machine} (h : t.Progress K landed b)
    (hring : t'.ring = t.ring) (hcells : t'.cells = t.cells) (hstores : t'.stores = t.stores)
    (hpushed : t'.pushed = t.pushed) (hconsumed : t.consumed.length ≤ t'.consumed.length) :
    t'.Progress K landed b := by
  cases h with
  | rest stores all link =>
    exact .rest (hstores.trans stores) (all.trans (by rw [hpushed])) (by rw [link, hpushed])
  | trb earlier s j words pushed all begun stores room link =>
    exact .trb earlier s j words (hpushed.trans pushed) all (hcells ▸ begun)
      (by rw [hstores, stores, hring]) (by omega) link
  | link j words all stores =>
    exact .link j words (all.trans (by rw [hpushed])) (by rw [hstores, stores, hring, hpushed])

theorem Dequeue.After.next {d : Dequeue} (hK : 0 < K) (hslot : d.slot = n % K)
    (hcycle : d.cycle = phase K n) : ({ d with slot := d.slot + 1 } : Dequeue).After K (n + 1) := by
  have hsucc := succ_mod hK n
  by_cases hlap : n % K + 1 = K
  · rw [if_pos hlap] at hsucc
    refine .inr ⟨hslot ▸ hlap, n.succ_pos, hsucc, ?_⟩
    simp [hcycle, phase_succ_of_mod_eq hsucc]
  · rw [if_neg hlap] at hsucc
    refine .inl ⟨by rw [hsucc, hslot], ?_⟩
    rw [phase_succ (by omega)]
    exact hcycle

/-- A look leaves the machine as it is, passes a Link TRB with the controller's cycle bit, or
consumes the next TRB that has landed. -/
theorem Machine.Inv.look_cases (h : t.Inv K landed b) :
    (t.look = t ∧ (t.dequeue.slot ≠ K → landed.length = t.consumed.length) ∧
        (t.dequeue.slot = K → b ≠ t.dequeue.cycle)) ∨
      (t.dequeue.slot = K ∧ t.consumed.length % K = 0 ∧
        t.look = { t with dequeue := ⟨0, phase K t.consumed.length⟩ }) ∨
      ∃ hlt : t.consumed.length < landed.length, t.dequeue.slot = t.consumed.length % K ∧
        t.dequeue.cycle = phase K t.consumed.length ∧
        t.look = { t with
          dequeue.slot := t.dequeue.slot + 1
          consumed := t.consumed ++ [landed[t.consumed.length]] } := by
  have hle := h.tagged.le
  rcases h.dequeue with ⟨hslot, hcycle⟩ | ⟨hslot, -, hmod, hcycle⟩
  · have hne : t.dequeue.slot ≠ K := by
      have := Nat.mod_lt t.consumed.length h.pos
      omega
    by_cases hlt : t.consumed.length < landed.length
    · right; right
      have hcell := h.tagged.content _ (le_refl _) hlt
      have hready := (h.tagged.ready_iff h.pos).mpr hlt
      have htype := h.types _ (getElem_mem hlt)
      refine ⟨hlt, hslot, hcycle, ?_⟩
      rw [hcell] at hready
      simp [Machine.look, hslot, hcycle, hcell, hready, htype]
    · left
      have hready : (t.cells t.dequeue.slot).cycle ≠ t.dequeue.cycle := by
        rw [hslot, hcycle]
        exact fun hr => hlt ((h.tagged.ready_iff h.pos).mp hr)
      refine ⟨by simp [Machine.look, hready], fun _ => by omega, fun heq => absurd heq hne⟩
  · by_cases hb : b = t.dequeue.cycle
    · right; left
      refine ⟨hslot, hmod, ?_⟩
      have hbase : ∀ c, (t.ring.link c).parameter = t.ring.base := fun c => link_parameter c h.base
      simp only [Machine.look, hslot, h.link, link_cycle, link_type, link_toggles,
        hbase, hb, ne_eq, not_true_eq_false, if_false, if_true, Nat.sub_self, Nat.zero_div,
        hcycle, Bool.not_not]
    · left
      refine ⟨?_, fun hne => absurd hslot hne, fun _ => hb⟩
      simp [Machine.look, hslot, h.link, link_cycle, hb]

theorem Machine.Inv.look (h : t.Inv K landed b) : t.look.Inv K landed b := by
  rcases h.look_cases with ⟨heq, -, -⟩ | ⟨-, hmod, heq⟩ | ⟨hlt, hslot, hcycle, heq⟩
  · exact heq.symm ▸ h
  · rw [heq]
    exact { h with
      dequeue := .inl ⟨hmod.symm, rfl⟩
      progress := h.progress.of_look rfl rfl rfl rfl (le_refl _) }
  · rw [heq]
    have hlen : (t.consumed ++ [landed[t.consumed.length]]).length = t.consumed.length + 1 := by
      simp
    refine { h with
      tagged := hlen ▸ h.tagged.take hlt
      consumed := ?_
      dequeue := hlen ▸ Dequeue.After.next h.pos hslot hcycle
      progress := h.progress.of_look rfl rfl rfl rfl (by simp) }
    rw [hlen, take_add_one, ← h.consumed, getElem?_eq_getElem hlt]
    rfl

/-! ## The driver's stores -/

variable {stores : List Store}

theorem Machine.Inv.scribble {v : Trb} (h : t.Inv K landed b)
    (hroom : landed.length < t.consumed.length + K)
    (hv : v.cycle = (t.cells (landed.length % K)).cycle) (hprogress : ({ t with
      cells := update t.cells (landed.length % K) v, stores } : Machine).Progress
        K landed b) :
    ({ t with cells := update t.cells (landed.length % K) v, stores } : Machine).Inv
      K landed b := by
  have hne : K ≠ landed.length % K := (Nat.mod_lt _ h.pos).ne'
  exact { h with
    tagged := h.tagged.scribble hroom hv
    link := (update_of_ne hne _ _).trans h.link
    progress := hprogress }

variable {s : Submission}

section

variable (h : t.Inv K landed b)
include h

namespace Machine

theorem Inv.land
    (hroom : landed.length < t.consumed.length + K) (hs : t.pushed[landed.length]? = some s)
    (hprogress : ({ t with
      cells := update t.cells (landed.length % K) (s.trb (phase K landed.length))
      stores } : Machine).Progress K (landed ++ [s.trb (phase K landed.length)]) b) : ({ t with
      cells := update t.cells (landed.length % K) (s.trb (phase K landed.length))
      stores } : Machine).Inv K (landed ++ [s.trb (phase K landed.length)]) b := by
  have hne : K ≠ landed.length % K := (Nat.mod_lt _ h.pos).ne'
  refine ⟨h.pos, h.count, h.base, h.index, h.cycle,
    h.tagged.put hroom (s.trb_cycle _), ?_, ?_, ?_, h.dequeue,
    (update_of_ne hne _ _).trans h.link, hprogress⟩
  · simp [h.contents, take_add_one, hs, s.trb_content]
  · exact forall_mem_append.mpr ⟨h.types, forall_mem_singleton.mpr (s.trb_type _)⟩
  · rw [take_append_of_le_length h.tagged.le]
    exact h.consumed

theorem Inv.relink {c : Bool} (hprogress : ({ t with
      cells := update t.cells K (t.ring.link c), stores } : Machine).Progress
        K landed c) :
    ({ t with cells := update t.cells K (t.ring.link c), stores } : Machine).Inv
      K landed c := by
  refine { h with tagged := h.tagged.congr h.pos ?_, link := by simp, progress := hprogress }
  intro i hi
  exact update_of_ne hi.ne _ _

omit h in
theorem store_cons {w : Store} (h : t.stores = w :: stores) :
    t.store = { t with cells := w.apply t.cells, stores } := by
  simp [Machine.store, h]

theorem Inv.store_trb {earlier : List Submission} {j : ℕ} (words : j < 4)
    (pushed : t.pushed = earlier ++ [s])
    (all : landed.length = earlier.length)
    (begun : (s.trb (phase K landed.length)).Begun j (t.cells (landed.length % K)))
    (stores : t.stores = (writeTrb (landed.length % K) (s.trb (phase K landed.length))).drop j ++
      t.ring.closing K landed.length)
    (room : landed.length < t.consumed.length + K) (link : b = linkPhase K landed.length) :
    ∃ landed' b', t.store.Inv K landed' b' := by
  have hs : t.pushed[landed.length]? = some s := by simp [pushed, all]
  obtain rfl | rfl | rfl | rfl : j = 0 ∨ j = 1 ∨ j = 2 ∨ j = 3 := by omega
  · refine ⟨landed, b, ?_⟩
    rw [store_cons stores]
    refine h.scribble room rfl (.trb earlier s 1 (by omega) pushed all ?_ rfl room link)
    simp [Begun, Trb.set]
  · refine ⟨landed, b, ?_⟩
    rw [store_cons stores]
    refine h.scribble room rfl (.trb earlier s 2 (by omega) pushed all ?_ rfl room link)
    simpa [Begun, Trb.set] using begun.1
  · refine ⟨landed, b, ?_⟩
    rw [store_cons stores]
    refine h.scribble room rfl (.trb earlier s 3 (by omega) pushed all ?_ rfl room link)
    simpa [Begun, Trb.set] using
      ⟨begun.1 (by omega), begun.2.1 (by omega)⟩
  · -- With the control word in place the slot holds the whole TRB.
    have hwhole : (t.cells (landed.length % K)).set (s.trb (phase K landed.length)).control
        .control = s.trb (phase K landed.length) := by
      obtain ⟨hlow, hhigh, hstatus⟩ := begun
      simp only [Trb.set, hlow (by omega), hhigh (by omega), hstatus (by omega)]
    refine ⟨landed ++ [s.trb (phase K landed.length)], b, ?_⟩
    rw [store_cons stores, Store.apply, hwhole]
    refine h.land room hs ?_
    have hall : (landed ++ [s.trb (phase K landed.length)]).length = t.pushed.length := by
      simp [pushed, all]
    have hlen : t.pushed.length = landed.length + 1 := by simp [pushed, all]
    by_cases hlap : (landed.length + 1) % K = 0
    · refine .link 0 (by omega) hall ?_
      simp [Ring.closing, hlap, hlen, linkPhase_succ_of_mod_eq hlap]
    · refine .rest ?_ hall ?_
      · simp [Ring.closing, hlap]
      · rw [hlen, linkPhase_succ hlap, link]

theorem Inv.store_link {j : ℕ} (words : j < 4) (all : landed.length = t.pushed.length)
    (stores : t.stores = (writeTrb K (t.ring.link (linkPhase K t.pushed.length))).drop j) :
    ∃ landed' b', t.store.Inv K landed' b' := by
  obtain rfl | rfl | rfl | rfl : j = 0 ∨ j = 1 ∨ j = 2 ∨ j = 3 := by omega
  · refine ⟨landed, b, ?_⟩
    rw [store_cons stores, Store.apply, h.link]
    exact h.relink (.link 1 (by omega) all rfl)
  · refine ⟨landed, b, ?_⟩
    rw [store_cons stores, Store.apply, h.link]
    exact h.relink (.link 2 (by omega) all rfl)
  · refine ⟨landed, b, ?_⟩
    rw [store_cons stores, Store.apply, h.link]
    exact h.relink (.link 3 (by omega) all rfl)
  · refine ⟨landed, linkPhase K t.pushed.length, ?_⟩
    rw [store_cons stores, Store.apply, h.link]
    exact h.relink (.rest rfl all rfl)

theorem Inv.store : ∃ landed' b', t.store.Inv K landed' b' := by
  cases h.progress with
  | rest stores _ _ => exact ⟨landed, b, by simpa [Machine.store, stores] using h⟩
  | trb earlier s j words pushed all begun stores room link =>
    exact h.store_trb words pushed all begun stores room link
  | link j words all stores => exact h.store_link words all stores

omit h in
theorem flush_of_nil (h : t.stores = []) : t.flush = t := by
  obtain ⟨ring, cells, stores, dequeue, pushed, consumed⟩ := t
  obtain rfl : stores = [] := h
  rfl

omit h in
theorem flush_store (t : Machine) : t.store.flush = t.flush := by
  cases hs : t.stores with
  | nil => simp [Machine.store, hs]
  | cons w stores => simp [Machine.store, Machine.flush, hs]

theorem Inv.flush : ∃ landed' b', t.flush.Inv K landed' b' := by
  induction hs : t.stores generalizing t landed b with
  | nil => exact ⟨landed, b, (flush_of_nil hs).symm ▸ h⟩
  | cons w stores ih =>
    obtain ⟨landed', b', hstore⟩ := h.store
    have hrest : t.store.stores = stores := by simp [Machine.store, hs]
    exact t.flush_store ▸ ih hstore hrest

theorem Inv.push (s : Submission) (hroom : t.unconsumed < K) :
    ∃ landed' b', (t.push s).Inv K landed' b' := by
  obtain ⟨landed', b', hflush⟩ := h.flush
  cases hflush.progress with
  | trb earlier s j words pushed all begun stores room link =>
    have hlen := congrArg List.length stores
    simp [Machine.flush, writeTrb] at hlen
    omega
  | link j words all stores =>
    have hlen := congrArg List.length stores
    simp [Machine.flush, writeTrb] at hlen
    omega
  | rest stores all link =>
    refine ⟨landed', b', ?_⟩
    have hall : landed'.length = t.pushed.length := all
    have hle : t.consumed.length ≤ landed'.length := hflush.tagged.le
    have hindex : t.ring.index = t.pushed.length % K := h.index
    have hcycle : t.ring.cycle = phase K t.pushed.length := h.cycle
    have hcount : t.ring.count - 1 = K := by rw [h.count]; rfl
    have hsucc := succ_mod h.pos t.pushed.length
    simp only [unconsumed] at hroom
    have hprogress : ∀ ring : Ring, ring.base = t.ring.base → ({ t.flush with
          ring
          stores := writeTrb (landed'.length % K) (s.trb (phase K landed'.length)) ++
            t.ring.closing K landed'.length
          pushed := t.pushed ++ [s] } : Machine).Progress K landed' b' := by
      intro ring hbase
      refine .trb t.pushed s 0 (by omega) rfl hall ?_ ?_ ?_ (hall ▸ link)
      · simp [Begun]
      · simp [Ring.closing, Ring.link, hbase]
      · show landed'.length < t.consumed.length + K
        omega
    by_cases hlap : t.pushed.length % K + 1 = K
    · have hpush : t.push s = { t.flush with
          ring := { t.ring with index := 0, cycle := !t.ring.cycle }
          stores := writeTrb (landed'.length % K) (s.trb (phase K landed'.length)) ++
            t.ring.closing K landed'.length
          pushed := t.pushed ++ [s] } := by
        rw [if_pos hlap] at hsucc
        simp [Machine.push, Ring.push, hindex, hcycle, hcount, hlap, Ring.closing, hall, hsucc]
      rw [if_pos hlap] at hsucc
      rw [hpush]
      refine { hflush with index := ?_, cycle := ?_, contents := ?_, progress := hprogress _ rfl }
      · simp [hsucc]
      · simp [hcycle, phase_succ_of_mod_eq hsucc]
      · rw [take_append_of_le_length hall.le]
        exact hflush.contents
    · have hpush : t.push s = { t.flush with
          ring := { t.ring with index := t.ring.index + 1 }
          stores := writeTrb (landed'.length % K) (s.trb (phase K landed'.length)) ++
            t.ring.closing K landed'.length
          pushed := t.pushed ++ [s] } := by
        rw [if_neg hlap] at hsucc
        simp [Machine.push, Ring.push, hindex, hcycle, hcount, hlap, Ring.closing, hall, hsucc]
      rw [if_neg hlap] at hsucc
      rw [hpush]
      refine { hflush with index := ?_, cycle := ?_, contents := ?_, progress := hprogress _ rfl }
      · simp [hsucc, hindex]
      · simp [hcycle, phase_succ (by omega : (t.pushed.length + 1) % K ≠ 0)]
      · rw [take_append_of_le_length hall.le]
        exact hflush.contents

end Machine

end

/-! ## Runs -/

/-- Whenever a push begins, the machine is as `P` says. -/
def Machine.EachPush (P : Machine → Prop) (t : Machine) (actions : List Action) : Prop :=
  ∀ before s after, actions = before ++ .push s :: after → P (t.run before)

variable {actions : List Action} {P : Machine → Prop} {a : Action}

theorem Machine.eachPush_cons :
    t.EachPush P (a :: actions) ↔ (∀ s, a = .push s → P t) ∧ (t.step a).EachPush P actions := by
  constructor
  · intro h
    refine ⟨fun s hs => h [] s actions (by simp [hs]), ?_⟩
    rintro before s after rfl
    exact h (a :: before) s after rfl
  · rintro ⟨hhead, htail⟩ before s after heq
    cases before with
    | nil => exact hhead s (List.cons.inj heq).1
    | cons c before =>
      obtain ⟨rfl, hrest⟩ := List.cons.inj heq
      exact htail before s after hrest

theorem Machine.EachPush.head (h : t.EachPush P (.push s :: actions)) : P t :=
  (Machine.eachPush_cons.mp h).1 s rfl

theorem Machine.EachPush.tail (h : t.EachPush P (a :: actions)) : (t.step a).EachPush P actions :=
  (Machine.eachPush_cons.mp h).2

def Machine.decidableEachPush (P : Machine → Prop) [DecidablePred P] :
    (t : Machine) → (actions : List Action) → Decidable (t.EachPush P actions)
  | _, [] => .isTrue (by intro before s after h; simp at h)
  | t, .push s :: actions =>
    have := decidableEachPush P (t.push s) actions
    decidable_of_iff (P t ∧ (t.push s).EachPush P actions)
      (by rw [Machine.eachPush_cons]; simp [Machine.step])
  | t, .store :: actions =>
    have := decidableEachPush P t.store actions
    decidable_of_iff (t.store.EachPush P actions)
      (by rw [Machine.eachPush_cons]; simp [Machine.step])
  | t, .look :: actions =>
    have := decidableEachPush P t.look actions
    decidable_of_iff (t.look.EachPush P actions)
      (by rw [Machine.eachPush_cons]; simp [Machine.step])

instance (P : Machine → Prop) [DecidablePred P] (t : Machine) (actions : List Action) :
    Decidable (t.EachPush P actions) :=
  Machine.decidableEachPush P t actions

theorem Machine.Inv.step (h : t.Inv K landed b)
    (hroom : t.EachPush (fun u => u.unconsumed < K) (a :: actions)) :
    ∃ landed' b', (t.step a).Inv K landed' b' := by
  cases a with
  | push s => exact h.push s hroom.head
  | store => exact h.store
  | look => exact ⟨landed, b, h.look⟩

theorem Machine.Inv.run (h : t.Inv K landed b) (actions : List Action)
    (hroom : t.EachPush (fun u => u.unconsumed < K) actions) :
    ∃ landed' b', (t.run actions).Inv K landed' b' := by
  induction actions generalizing t landed b with
  | nil => exact ⟨landed, b, h⟩
  | cons a actions ih =>
    obtain ⟨landed', b', hstep⟩ := h.step hroom
    exact ih hstep hroom.tail

/-! ## The controller catches up

It can only be held up at a Link TRB, and only if the driver has closed another lap since:
the Link TRB then carries the wrong cycle bit for it. -/

/-- Less than a lap is ahead of a controller at the Link TRB. -/
def Machine.Ahead (K : ℕ) (t : Machine) : Prop :=
  t.dequeue.slot = K → t.pushed.length < t.consumed.length + K

theorem Machine.Inv.pushed_le (h : t.Inv K landed b) : t.pushed.length ≤ t.consumed.length + K := by
  have hfits := h.tagged.fits
  cases h.progress with
  | rest _ all _ => omega
  | trb earlier s _ _ pushed all _ _ room _ =>
    have hlen : t.pushed.length = earlier.length + 1 := by simp [pushed]
    omega
  | link _ _ all _ => omega

theorem Machine.Ahead.step (h : t.Ahead K) (hinv : t.Inv K landed b)
    (hroom : ∀ s, a = .push s → t.unpassed < K) : (t.step a).Ahead K := by
  cases a with
  | push s =>
    intro hslot
    have hfree := hroom s rfl
    have hslot : t.dequeue.slot = t.ring.count - 1 := by rw [hinv.count]; exact hslot
    simp only [Machine.unpassed, unconsumed, hslot, if_true] at hfree
    show (t.pushed ++ [s]).length < t.consumed.length + K
    simp only [length_append, length_singleton]
    omega
  | store =>
    cases hs : t.stores with
    | nil => simpa [Machine.step, Machine.store, hs] using h
    | cons w stores =>
      rw [show t.step .store = _ from Machine.store_cons hs]
      exact h
  | look =>
    rcases hinv.look_cases with ⟨heq, -⟩ | ⟨-, -, heq⟩ | ⟨hlt, -, -, heq⟩
    · rw [show t.step .look = t from heq]
      exact h
    · intro hslot
      have hzero : (0 : ℕ) = K := by rw [← hslot]; exact (congrArg (·.dequeue.slot) heq).symm
      exact absurd hzero hinv.pos.ne
    · intro _
      have hle := hinv.pushed_le
      simp only [Machine.step, heq, length_append, length_singleton]
      omega

theorem Machine.Ahead.run (h : t.Ahead K) (hinv : t.Inv K landed b) (actions : List Action)
    (hroom : t.EachPush (fun u => u.unconsumed < K) actions)
    (hpass : t.EachPush (fun u => u.unpassed < K) actions) : (t.run actions).Ahead K := by
  induction actions generalizing t landed b with
  | nil => exact h
  | cons a actions ih =>
    obtain ⟨landed', b', hstep⟩ := hinv.step hroom
    have hahead : (t.step a).Ahead K := h.step hinv fun s hs => (hs ▸ hpass).head
    exact ih hahead hstep hroom.tail hpass.tail

theorem linkPhase_eq {m : ℕ} (hmod : n % K = 0) (hpos : 0 < n) (hle : n ≤ m) (hlt : m < n + K) :
    linkPhase K m = !phase K n := by
  obtain ⟨q, rfl⟩ := Nat.dvd_of_mod_eq_zero hmod
  have hK : 0 < K := Nat.pos_of_mul_pos_right hpos
  have hq : 0 < q := Nat.pos_of_mul_pos_left hpos
  have hm : m / K = q := by
    apply Nat.div_eq_of_lt_le
    · rwa [mul_comm]
    · rw [Nat.succ_mul, mul_comm]
      exact hlt
  simp only [linkPhase, phase, hm, Nat.mul_div_cancel_left q hK]
  by_cases heven : q % 2 = 0
  · have : (q - 1) % 2 ≠ 0 := by omega
    simp [heven, this]
  · have : (q - 1) % 2 = 0 := by omega
    simp [heven, this]

/-- What is left to do for the controller. -/
def Machine.behind (K : ℕ) (t : Machine) : ℕ :=
  2 * t.unconsumed + if t.dequeue.slot = K then 1 else 0

theorem Machine.Inv.look_behind (h : t.Inv K landed b) (hrest : t.stores = [])
    (hahead : t.Ahead K) (hbehind : t.consumed.length < t.pushed.length) :
    t.look.behind K < t.behind K := by
  obtain ⟨hall, hlink⟩ : landed.length = t.pushed.length ∧ b = linkPhase K t.pushed.length := by
    cases h.progress with
    | rest _ all link => exact ⟨all, link⟩
    | trb _ _ j words _ _ _ stores _ _ =>
      have hlen := congrArg List.length (hrest.symm.trans stores)
      simp [writeTrb] at hlen
      omega
    | link j words _ stores =>
      have hlen := congrArg List.length (hrest.symm.trans stores)
      simp [writeTrb] at hlen
      omega
  have hpos := h.pos
  rcases h.look_cases with ⟨-, hdata, hwait⟩ | ⟨hslot, -, heq⟩ | ⟨hlt, hslot, -, heq⟩
  · by_cases hslot : t.dequeue.slot = K
    · rcases h.dequeue with ⟨hmod, -⟩ | ⟨-, hsome, hmod, hcycle⟩
      · have := Nat.mod_lt t.consumed.length h.pos
        omega
      · refine absurd ?_ (hwait hslot)
        rw [hlink, hcycle]
        exact linkPhase_eq hmod hsome hbehind.le (hahead hslot)
    · exact absurd (hdata hslot) (by omega)
  · simp only [heq, Machine.behind, unconsumed, hslot, hpos.ne, if_false, if_true]
    omega
  · have hne : t.dequeue.slot ≠ K := by
      have := Nat.mod_lt t.consumed.length h.pos
      omega
    simp only [heq, Machine.behind, unconsumed, length_append, length_singleton, hne, if_false]
    split <;> omega

theorem Machine.look_of_ne (h : (t.cells t.dequeue.slot).cycle ≠ t.dequeue.cycle) : t.look = t :=
  if_pos h

theorem Machine.look_pushed (t : Machine) : t.look.pushed = t.pushed := by
  simp only [Machine.look]
  split
  · rfl
  · split <;> rfl

theorem Machine.look_stores (t : Machine) : t.look.stores = t.stores := by
  simp only [Machine.look]
  split
  · rfl
  · split <;> rfl

theorem Machine.look_consumed (t : Machine) : t.consumed.length ≤ t.look.consumed.length := by
  simp only [Machine.look]
  split
  · exact le_refl _
  · split
    · exact le_refl _
    · simp

theorem Machine.Inv.look_iterate (h : t.Inv K landed b) (hrest : t.stores = [])
    (hahead : t.Ahead K) (hn : t.behind K ≤ n ∨ t.pushed.length ≤ t.consumed.length) :
    (Machine.look^[n] t).consumed.map Trb.content = t.pushed.map Submission.content := by
  induction n generalizing t with
  | zero =>
    have hcaught : t.pushed.length ≤ t.consumed.length := by
      simp only [Machine.behind, unconsumed] at hn
      omega
    rw [Function.iterate_zero_apply, h.consumed_content, take_of_length_le hcaught]
  | succ n ih =>
    have hahead' : (t.step .look).Ahead K := hahead.step h (by intro s hs; cases hs)
    rw [Function.iterate_succ_apply, ← t.look_pushed]
    apply ih h.look (t.look_stores.trans hrest) hahead'
    by_cases hbehind : t.consumed.length < t.pushed.length
    · have := h.look_behind hrest hahead hbehind
      left
      omega
    · have := t.look_consumed
      right
      rw [t.look_pushed]
      omega

/-- On a ring of any size, pushed to with fewer than `count - 1` TRBs unconsumed, the
controller has at all times consumed the first of the TRBs pushed, in order and whole. It
consumes all of them if a Link TRB that it stands at counts as unconsumed too. -/
theorem Machine.run_consumed (base count : ℕ) (actions : List Action) (hbase : base < 2 ^ 64)
    (hcount : 3 ≤ count)
    (hroom : (Machine.init base count).EachPush (fun u => u.unconsumed < count - 1) actions) :
    let t := (Machine.init base count).run actions
    t.consumed.map Trb.content = (t.pushed.take t.consumed.length).map Submission.content ∧
      ((Machine.init base count).EachPush (fun u => u.unpassed < count - 1) actions →
        ∀ n, 2 * t.unpassed ≤ n → (Machine.look^[n] t.flush).consumed.map Trb.content =
            t.pushed.map Submission.content) := by
  intro t
  have hstart := Machine.inv_init hbase (by omega : 2 ≤ count)
  obtain ⟨landed, b, hinv⟩ := hstart.run actions hroom
  refine ⟨hinv.consumed_content, ?_⟩
  intro hpass n hn
  have hfirst : (Machine.init base count).Ahead (count - 1) := by
    intro hslot
    simp only [Machine.init] at hslot
    omega
  have hahead : t.Ahead (count - 1) := hfirst.run hstart actions hroom hpass
  obtain ⟨landed', b', hflush⟩ := hinv.flush
  refine hflush.look_iterate rfl hahead (.inl (le_trans ?_ hn))
  have hlast : t.ring.count - 1 = count - 1 := by rw [hinv.count]; rfl
  show 2 * t.unconsumed + (if t.dequeue.slot = count - 1 then 1 else 0) ≤ 2 * t.unpassed
  rw [Machine.unpassed, hlast]
  split <;> omega

def normalTrb (buffer : ℕ) : Submission where
  parameter := buffer
  status := 4
  control := trbNormal * 2 ^ 10
  notLink := by decide

/-- Two laps on a ring of three, the controller keeping up and passing the Link TRB. -/
def twoLaps : List Action :=
  [.push (normalTrb 0x100), .store, .look, .push (normalTrb 0x200), .look, .push (normalTrb 0x300),
    .look, .look, .look, .push (normalTrb 0x400)]

theorem Machine.run_consumed_twoLaps :
    (Machine.init 0x1000 3).EachPush (fun u => u.unpassed < 2) twoLaps ∧
      (Machine.look^[6] ((Machine.init 0x1000 3).run twoLaps).flush).consumed.map Trb.content =
        ((Machine.init 0x1000 3).run twoLaps).pushed.map Submission.content := by
  have hpass : (Machine.init 0x1000 3).EachPush (fun u => u.unpassed < 2) twoLaps := by
    decide +kernel
  exact ⟨hpass, (Machine.run_consumed 0x1000 3 twoLaps (by decide) (by decide)
    (by decide +kernel)).2 hpass 6 (by decide +kernel)⟩

/-- Two TRBs consumed, then two more pushed before the controller passes the Link TRB. -/
def lapBehindLink : List Action :=
  [.push (normalTrb 0x100), .push (normalTrb 0x200), .store, .store, .store, .store, .look, .look,
    .push (normalTrb 0x300), .push (normalTrb 0x400)]

/-- The Link TRB has been rewritten for the next lap, and the controller waits at it for good. -/
theorem lapBehindLink_stalls :
    (Machine.init 0x1000 3).EachPush (fun u => u.unconsumed < 2) lapBehindLink ∧
      ∀ n, (Machine.look^[n] ((Machine.init 0x1000 3).run lapBehindLink).flush).consumed.map
        Trb.content ≠ ((Machine.init 0x1000 3).run lapBehindLink).pushed.map
          Submission.content := by
  refine ⟨by decide +kernel, fun n => ?_⟩
  rw [Function.iterate_fixed (Machine.look_of_ne (by decide +kernel))]
  decide +kernel

end Q1n1.Xhci
