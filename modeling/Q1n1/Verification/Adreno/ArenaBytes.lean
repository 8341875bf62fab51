import Mathlib.Algebra.BigOperators.Group.Finset.Piecewise
import Mathlib.Algebra.Order.BigOperators.Group.Finset
import Mathlib.Order.Interval.Finset.Nat
import Q1n1.Model.Adreno.Arena

/-! # The arena is memory the firmware gave up -/

namespace Q1n1.Adreno.Arena

open List

def Span.Holds (s : Span) (a : ℕ) : Prop := s.base ≤ a ∧ a < s.base + s.size

instance (s : Span) (a : ℕ) : Decidable (s.Holds a) := inferInstanceAs (Decidable (_ ∧ _))

def EfiType.Given (t : EfiType) : Prop := t = .conventional ∨ t = .loaderData

structure GivenUp (info : Bootinfo) (regions : List Descriptor) (state : GpuState) : Prop where
  described : ∀ a, state.arena.Holds a → ∃ r ∈ regions, r.Holds a
  only : ∀ a, state.arena.Holds a → ∀ r ∈ regions, r.Holds a → r.type.Given
  claimed : state.arenaSource = 2 → ∀ a, state.arena.Holds a → ∀ r ∈ regions, r.Holds a →
    r.type = .conventional
  clear : ∀ a, state.arena.Holds a → ∀ s ∈ info.gptSurvey :: info.owned, s.base ≠ 0 → ¬s.Holds a

def DescribedOnce (arena : Span) (regions : List Descriptor) : Prop :=
  ∀ a, arena.Holds a → regions.countP (·.Holds a) ≤ 1

variable {arena s : Span} {regions : List Descriptor} {a : ℕ}

theorem Span.meets_of_holds (hs : s.Holds a) (ha : arena.Holds a) : s.meets arena = true := by
  unfold Span.Holds at hs ha
  simp only [Span.meets, decide_eq_true_eq]
  omega

theorem card_holds : (∑ a ∈ Finset.Ico arena.base (arena.base + arena.size),
    if s.Holds a then 1 else 0) =
      min (arena.base + arena.size) (s.base + s.size) - max arena.base s.base := by
  rw [← Finset.card_filter, ← Nat.card_Ico, ← Finset.Ico_inter_Ico]
  congr 1
  ext a
  rw [Finset.mem_filter, Finset.mem_inter, Finset.mem_Ico (a := s.base), Span.Holds]

/-- The sum of the intersections counts a byte as often as it is described. -/
theorem covered_eq_sum : covered arena (regions.filter (·.meets arena)) =
    ∑ a ∈ Finset.Ico arena.base (arena.base + arena.size), regions.countP (·.Holds a) := by
  induction regions with
  | nil => simp [covered]
  | cons r rest ih =>
    simp only [countP_cons, decide_eq_true_eq, Finset.sum_add_distrib, card_holds, ← ih,
      filter_cons]
    split
    · simp only [covered, map_cons, sum_cons]
      omega
    · rename_i hmiss
      simp only [Span.meets, decide_eq_true_eq] at hmiss
      omega

/-- A sum that reaches the size leaves no hole, unless a repetition makes up for one. -/
theorem DescribedOnce.described (honce : DescribedOnce arena regions)
    (hcovered : arena.size ≤ covered arena (regions.filter (·.meets arena))) (ha : arena.Holds a) :
    ∃ r ∈ regions, r.Holds a := by
  have hle : ∀ b ∈ Finset.Ico arena.base (arena.base + arena.size),
      regions.countP (·.Holds b) ≤ 1 := fun b hb => honce b (Finset.mem_Ico.mp hb)
  have hsum : ∑ b ∈ Finset.Ico arena.base (arena.base + arena.size), regions.countP (·.Holds b) =
      ∑ _b ∈ Finset.Ico arena.base (arena.base + arena.size), 1 := by
    refine le_antisymm (Finset.sum_le_sum hle) ?_
    rw [← covered_eq_sum]
    simpa using hcovered
  have hcount := (Finset.sum_eq_sum_iff_of_le hle).mp hsum a (Finset.mem_Ico.mpr ha)
  obtain ⟨r, hr, hra⟩ := countP_pos_iff.mp (hcount.symm ▸ Nat.one_pos)
  exact ⟨r, hr, of_decide_eq_true hra⟩

variable {info : Bootinfo} {claim : Bool} {published state : GpuState} {claimed : ℕ × GpuState}

theorem arenaProve_ok (h : arenaProve info regions claim published claimed = .ok state) :
    arenaSize ≤ state.arena.size ∧
    state.arena.size ≤ covered state.arena (regions.filter (·.meets state.arena)) ∧
    (∀ r ∈ regions, r.meets state.arena → r.type.Given) ∧
    (state.arenaSource = 2 → ∀ r ∈ regions, r.meets state.arena → r.type = .conventional) ∧
    ∀ s ∈ info.owned, s.base ≠ 0 → s.size ≠ 0 → ¬s.meets state.arena := by
  simp only [arenaProve, decide_eq_true_eq] at h
  generalize (if published.arena.base = 0 ∧ claim then claimed.2 else published) = now at h
  split_ifs at h with _ _ hfit hkinds hsource howned
  obtain rfl : now = state := Except.ok.inj h
  rw [not_or, not_lt] at hfit hkinds
  refine ⟨hfit.1, hkinds.2, fun r hr hm => ?_, fun hs r hr hm => ?_, fun s hs hb hn hm => ?_⟩
  · by_contra hother
    exact hkinds.1 ⟨r, mem_filter.mpr ⟨hr, hm⟩, hother⟩
  · by_contra hother
    exact hsource ⟨hs, fun hall => hother (hall.2 r (mem_filter.mpr ⟨hr, hm⟩))⟩
  · exact howned ⟨s, hs, hb, hn, hm⟩

/-- The survey of the partition table is the region that `owned` leaves out. -/
theorem arenaProve_givenUp_iff (h : arenaProve info regions claim published claimed = .ok state)
    (honce : DescribedOnce state.arena regions) :
    GivenUp info regions state ↔ info.gptSurvey.base = 0 ∨ info.gptSurvey.size = 0 ∨
      info.gptSurvey.meets state.arena = false := by
  obtain ⟨hsize, hcovered, hkinds, hsource, howned⟩ := arenaProve_ok h
  constructor
  · intro hgiven
    by_contra! hmeets
    obtain ⟨hbase, hsurvey, hmeets⟩ := hmeets
    simp only [Span.meets, ne_eq, Bool.not_eq_false, decide_eq_true_eq] at hmeets
    have hpos : 0 < state.arena.size := lt_of_lt_of_le (by decide) hsize
    -- the first byte of the two in common
    refine hgiven.clear (max state.arena.base info.gptSurvey.base) ?_ _ mem_cons_self hbase ?_ <;>
    · unfold Span.Holds
      omega
  · intro hsurvey
    refine ⟨fun a ha => honce.described hcovered ha,
      fun a ha r hr hra => hkinds r hr (Span.meets_of_holds hra ha),
      fun hs a ha r hr hra => hsource hs r hr (Span.meets_of_holds hra ha),
      fun a ha s hs hbase hsa => ?_⟩
    have hmeets := Span.meets_of_holds hsa ha
    have hsize : s.size ≠ 0 := by
      unfold Span.Holds at hsa
      omega
    obtain rfl | hs := mem_cons.mp hs
    · simp_all
    · exact howned s hs hbase hsize hmeets

/-- Half the arena described twice. -/
theorem arenaProve_described_twice :
    let none : Span := ⟨0, 0⟩
    let state : GpuState := ⟨⟨4096, arenaSize⟩, 1⟩
    let half : Descriptor := ⟨⟨4096, arenaSize / 2⟩, .conventional⟩
    let info : Bootinfo := ⟨none, none, none, none, none, none, none, none⟩
    arenaProve info [half, half] false state (0, state) = .ok state ∧
      ¬GivenUp info [half, half] state := by
  refine ⟨rfl, fun h => ?_⟩
  obtain ⟨r, hr, ha⟩ := h.described (4096 + arenaSize / 2) (by decide)
  simp_all [Span.Holds]

theorem arenaProve_givenUp_described :
    let none : Span := ⟨0, 0⟩
    let state : GpuState := ⟨⟨4096, arenaSize⟩, 1⟩
    let low : Descriptor := ⟨⟨0, 8192⟩, .conventional⟩
    let high : Descriptor := ⟨⟨8192, arenaSize⟩, .loaderData⟩
    let info : Bootinfo := ⟨none, none, none, none, none, none, none, ⟨8192 + arenaSize, 512⟩⟩
    GivenUp info [low, high] state := by
  intro none state low high info
  have haccepted : arenaProve info [low, high] false state (0, state) = .ok state := by
    simp only [info, low, high, state, none]
    rfl
  refine (arenaProve_givenUp_iff haccepted fun a _ => ?_).mpr (.inr (.inr (by decide)))
  have hapart : ¬(low.Holds a ∧ high.Holds a) := by
    simp only [Span.Holds, low, high]
    omega
  simp only [countP_cons, countP_nil, decide_eq_true_eq]
  split_ifs <;> simp_all

end Q1n1.Adreno.Arena
