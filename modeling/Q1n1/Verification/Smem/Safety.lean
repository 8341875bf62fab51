import Q1n1.Library.Attempt
import Q1n1.Model.Smem.Parser
import Mathlib.Tactic.IntervalCases

/-! # Lookups on memory that changes

Nothing a load returns is trusted twice: whatever the remote writes between two
loads, a lookup ends, stays inside its partition and returns a range of the heap
it walked. -/

namespace Q1n1.Smem

variable {s : Region} {p : Partition} {E : Status → Bus → Prop}

theorem meets_refuseIf {P : Bus → Prop} {c : Prop} [Decidable c] {status : Status}
    (h : ∀ b, P b → E status b) : Meets P (refuseIf c status) (fun _ b => ¬c ∧ P b) E := by
  unfold refuseIf
  apply meets_ite
  · intro _
    exact meets_throw h
  · intro hc
    exact meets_pure fun b hb => ⟨hc, hb⟩

theorem wrap32_of_lt {n : ℕ} (h : n < 2 ^ 32) : wrap32 n = n := Nat.mod_eq_of_lt h

theorem u32_natCast {n : ℕ} (h : n < 2 ^ 32) : u32 n = n := by
  unfold u32
  omega

/-! ## What the parser accepts -/

/-- What `partitionAt` has checked of the fields it returns. -/
structure Accepted (s : Region) (p : Partition) : Prop where
  page_aligned : p.offset % 0x1000 = 0
  header_le : partitionHeader ≤ p.size
  below_table : p.offset + p.size ≤ s.ptableOffset.toNat
  header_le_uncached : partitionHeader ≤ p.freeUncached
  uncached_le_cached : p.freeUncached ≤ p.freeCached
  cached_le : p.freeCached ≤ p.size

theorem Accepted.end_lt (h : Accepted s p) : p.offset + p.size < 2 ^ 32 :=
  lt_of_le_of_lt h.below_table s.ptableOffset.toNat_lt

theorem meets_fact {α : Type} {F : Prop} (m : Parse α) :
    Meets (fun _ => F) m (fun _ _ => F) fun _ _ => True := by
  intro b hF
  cases m b with
  | ok a t => exact hF
  | error e t => trivial

theorem meets_refuse_fact {F : Prop} {c : Prop} [Decidable c] (status : Status) :
    Meets (fun _ => F) (refuseIf c status) (fun _ _ => ¬c ∧ F) fun _ _ => True :=
  meets_refuseIf fun _ _ => trivial

theorem entryStatus_none (h : entryStatus s p = none) :
    p.offset % 0x1000 = 0 ∧ partitionHeader ≤ p.size ∧
      p.offset + p.size ≤ s.ptableOffset.toNat := by
  unfold entryStatus at h
  split at h
  · cases h
  · split at h
    · cases h
    · omega

theorem tableEntry_checked (s : Region) (index : ℕ) :
    Meets (fun _ => True) (tableEntry s index)
      (fun p _ => p.offset % 0x1000 = 0 ∧ partitionHeader ≤ p.size ∧
        p.offset + p.size ≤ s.ptableOffset.toNat) fun _ _ => True := by
  unfold tableEntry
  apply (meets_fact _).bind
  intro _
  apply (meets_fact _).bind
  intro p
  cases h : entryStatus s p with
  | none => exact meets_pure fun _ _ => entryStatus_none h
  | some status => exact meets_throw fun _ _ => trivial

theorem partitionAt_accepted (s : Region) (index : ℕ) :
    Meets (fun _ => True) (partitionAt s index) (fun p _ => Accepted s p) fun _ _ => True := by
  unfold partitionAt
  apply (tableEntry_checked s index).bind
  intro p
  -- The reads and the checks in front of the two limits say nothing about them.
  iterate 9
    apply (meets_fact _).bind
    intro _
  apply (meets_fact _).bind
  intro freeUncached
  apply (meets_fact _).bind
  intro freeCached
  apply (meets_refuse_fact _).bind
  intro _
  apply meets_pure
  intro _ h
  obtain ⟨hfree, hpage, hsize, htable⟩ := h
  exact ⟨hpage, hsize, htable, by simp only; omega, by simp only; omega, by simp only; omega⟩

/-! ## Bounds of a lookup -/

/-- An aligned word of the partition. -/
def InPartition (s : Region) (p : Partition) (l : Load) : Prop :=
  l.width = 4 ∧ l.address % 4 = 0 ∧ s.base + p.offset ≤ l.address ∧
    l.address + l.width ≤ s.base + p.offset + p.size

def passes (p : Partition) : ℕ := p.size / privateEntry + 1

/-- The lookup that began in `b₀` has read words of the partition only, and can
still make `left` passes and, in the present one, `pending` loads. -/
structure Within (s : Region) (p : Partition) (b₀ : Bus) (left pending : ℕ) (b : Bus) : Prop where
  loads : ∃ new, b.loads = b₀.loads ++ new ∧ (∀ l ∈ new, InPartition s p l) ∧
    new.length + 3 * left + pending ≤ 3 * passes p
  turns : b.turns + left ≤ b₀.turns + passes p

variable {b₀ : Bus} {left pending : ℕ}

theorem Within.drop {b : Bus} {left' pending' : ℕ} (h : Within s p b₀ left pending b)
    (hl : left' ≤ left) (hp : 3 * left' + pending' ≤ 3 * left + pending) :
    Within s p b₀ left' pending' b := by
  obtain ⟨⟨new, hnew, hin, hlen⟩, hturns⟩ := h
  exact ⟨⟨new, hnew, hin, by omega⟩, by omega⟩

theorem within_start (s : Region) (p : Partition) (b : Bus) : Within s p b (passes p) 0 b :=
  ⟨⟨[], by simp, by simp, by simp⟩, le_rfl⟩

theorem meets_turn :
    Meets (Within s p b₀ (left + 1) pending) turn
      (fun _ => Within s p b₀ left (pending + 3)) E := by
  intro b h
  obtain ⟨⟨new, hnew, hin, hlen⟩, hturns⟩ := h
  exact ⟨⟨new, hnew, hin, by omega⟩, by simp only; omega⟩

theorem meets_rd32 {offset : ℕ} (h : InPartition s p ⟨s.base + offset, 4⟩) :
    Meets (Within s p b₀ left (pending + 1)) (s.rd32 offset)
      (fun v b => v < 2 ^ 32 ∧ Within s p b₀ left pending b) E := by
  intro b hb
  obtain ⟨⟨new, hnew, hin, hlen⟩, hturns⟩ := hb
  refine ⟨UInt32.toNat_lt _, ⟨new ++ [⟨s.base + offset, 4⟩], ?_, ?_, ?_⟩, hturns⟩
  · simp [hnew]
  · exact List.forall_mem_append.mpr ⟨hin, List.forall_mem_singleton.mpr h⟩
  · simp only [List.length_append, List.length_singleton]
    omega

section Steps

variable {α : Type} {Q : α → Bus → Prop}

theorem meets_word {offset : ℕ} {k : ℕ → Parse α} (h : InPartition s p ⟨s.base + offset, 4⟩)
    (hk : ∀ v < 2 ^ 32, Meets (Within s p b₀ left pending) (k v) Q E) :
    Meets (Within s p b₀ left (pending + 1)) (s.rd32 offset >>= k) Q E := by
  apply (meets_rd32 h).bind
  intro v
  apply meets_assume (fun _ hb => hb.1)
  intro hv
  exact (hk v hv).pre fun _ hb => hb.2

theorem meets_check {c : Prop} [Decidable c] {status : Status} {k : Unit → Parse α}
    (hk : ¬c → Meets (Within s p b₀ left pending) (k ()) Q fun _ => Within s p b₀ 0 0) :
    Meets (Within s p b₀ left pending) (refuseIf c status >>= k) Q fun _ => Within s p b₀ 0 0 := by
  apply (meets_refuseIf fun b hb => hb.drop (Nat.zero_le _) (Nat.zero_le _)).bind
  intro _
  apply meets_assume (fun _ hb => hb.1)
  intro hc
  exact (hk hc).pre fun _ hb => hb.2

end Steps

theorem Accepted.inPartition (h : Accepted s p) {e i : ℕ} (he : e % 4 = 0) (hi : i % 4 = 0)
    (hle : e + i + 4 ≤ p.size) : InPartition s p ⟨s.base + wrap32 (p.offset + e + i), 4⟩ := by
  have := h.end_lt
  have := h.page_aligned
  have := s.page_aligned
  rw [wrap32_of_lt (by omega)]
  exact ⟨rfl, by simp only; omega, by simp only; omega, by simp only; omega⟩

/-- The range lies in the partition: below the uncached free offset, or from the
cached one up to the partition's end. -/
def Inside (p : Partition) (x : Item) : Prop :=
  p.offset ≤ x.offset ∧ x.offset + x.size ≤ p.offset + p.size ∧
    (x.cached = false ∧ x.offset + x.size ≤ p.offset + p.freeUncached ∨
      x.cached = true ∧ p.offset + p.freeCached ≤ x.offset)

/-- What the upward walk leaves to the rest of the lookup. -/
def AfterUpward (s : Region) (p : Partition) (b₀ : Bus) : Upward → Bus → Prop
  | .found x, b => Inside p x ∧ Within s p b₀ 0 0 b
  | .ended _ budget, b => Within s p b₀ budget 0 b

theorem uncached_within (h : Accepted s p) (item budget e : ℕ) :
    Meets (Within s p b₀ budget 0) (uncached s p item budget e) (AfterUpward s p b₀)
      fun _ => Within s p b₀ 0 0 := by
  have hend := h.end_lt
  have hheader := h.header_le
  have hfree := h.uncached_le_cached.trans h.cached_le
  simp only [partitionHeader] at hheader
  induction budget generalizing e with
  | zero =>
    unfold uncached
    apply meets_ite
    · intro _
      exact meets_throw fun _ hb => hb
    · intro _
      exact meets_pure fun _ hb => hb
  | succ budget ih =>
    unfold uncached
    apply meets_ite
    · intro he
      apply meets_turn.bind
      intro _
      refine meets_check fun hfits => ?_
      rw [wrap32, privateEntry] at hfits
      have hlast : e + 16 ≤ p.size ∧ e % 4 = 0 := by omega
      refine meets_word (h.inPartition hlast.2 (i := 0) rfl (by omega)) fun word0 _ => ?_
      refine meets_check fun _ => ?_
      refine meets_word (h.inPartition hlast.2 (i := 4) rfl (by omega)) fun length hlength => ?_
      refine meets_word (h.inPartition hlast.2 (i := 8) rfl (by omega)) fun pads _ => ?_
      refine meets_check fun hroom => ?_
      apply meets_ite
      · intro _
        refine meets_check fun _ => meets_pure fun b hb => ?_
        refine ⟨?_, hb.drop (by omega) (by omega)⟩
        rw [Inside, wrap32_of_lt (by omega)]
        exact ⟨by simp only; omega, by simp only; omega, .inl ⟨rfl, by simp only; omega⟩⟩
      · intro _
        exact ih _
    · intro _
      exact meets_pure fun _ hb => hb

/-- For the lines the parser takes, the slot is the line itself or one bare header. -/
theorem slotOf_two_pow {k : ℕ} (hk : k ≤ 12) : slotOf (2 ^ k) = max privateEntry (2 ^ k) := by
  interval_cases k <;> decide

theorem exists_two_pow {line : ℕ} (h : line ≠ 0) (hpow : line &&& (line - 1) = 0)
    (hle : line ≤ 4096) : ∃ k ≤ 12, line = 2 ^ k := by
  obtain ⟨k, rfl⟩ := (Nat.and_sub_one_eq_zero_iff_isPowerOfTwo h).mp hpow
  have hle' : 2 ^ k ≤ 2 ^ 12 := hle
  exact ⟨k, (Nat.pow_le_pow_iff_right (by decide)).mp hle', rfl⟩

theorem cached_within (h : Accepted s p) (item budget : ℕ) {slot : ℕ} (hslot : privateEntry ≤ slot)
    (c : ℤ) (hc : c + slot ≤ p.size) :
    Meets (Within s p b₀ budget 0) (cached s p item slot budget c)
      (fun x b => Inside p x ∧ Within s p b₀ 0 0 b) fun _ => Within s p b₀ 0 0 := by
  have hend := h.end_lt
  induction budget generalizing c with
  | zero =>
    unfold cached
    apply meets_ite
    · intro _
      exact meets_throw fun _ hb => hb
    · intro _
      apply meets_ite
      · intro _
        exact meets_throw fun _ hb => hb
      · intro _
        exact meets_throw fun _ hb => hb
  | succ budget ih =>
    unfold cached
    apply meets_ite
    · intro hbelow
      obtain ⟨n, rfl⟩ := Int.eq_ofNat_of_zero_le (show 0 ≤ c by omega)
      rw [privateEntry] at hslot
      rw [u32_natCast (by omega)]
      apply meets_turn.bind
      intro _
      refine meets_check fun hfits => ?_
      have hn : n % 4 = 0 := by omega
      refine meets_word (h.inPartition hn (i := 0) rfl (by omega)) fun word0 _ => ?_
      refine meets_check fun _ => ?_
      refine meets_word (h.inPartition hn (i := 4) rfl (by omega)) fun length _ => ?_
      refine meets_word (h.inPartition hn (i := 8) rfl (by omega)) fun pads _ => ?_
      refine meets_check fun hroom => ?_
      apply meets_ite
      · intro _
        have hdata : (n : ℤ) - length = (n - length : ℕ) := by omega
        rw [hdata, u32_natCast (by omega)]
        refine meets_check fun _ => meets_pure fun b hb => ?_
        refine ⟨?_, hb.drop (by omega) (by omega)⟩
        rw [Inside, wrap32_of_lt (by omega)]
        exact ⟨by simp only; omega, by simp only; omega, .inr ⟨rfl, by simp only; omega⟩⟩
      · intro _
        exact ih _ (by omega)
    · intro _
      apply meets_ite
      · intro _
        exact meets_throw fun _ hb => hb.drop (by omega) (by omega)
      · intro _
        exact meets_throw fun _ hb => hb.drop (by omega) (by omega)

theorem get_within (h : Accepted s p) (item : ℕ) (b₀ : Bus) :
    Meets (fun b => b = b₀) (get s p item) (fun x b => Inside p x ∧ Within s p b₀ 0 0 b)
      fun _ => Within s p b₀ 0 0 := by
  have hstart : ∀ b, b = b₀ → Within s p b₀ (passes p) 0 b := by
    intro b hb
    exact hb ▸ within_start s p b
  unfold get
  refine Meets.pre (meets_check fun _ => (uncached_within h item _ _).bind fun r => ?_) hstart
  cases r with
  | found x => exact meets_pure fun _ hb => hb
  | ended e budget =>
    refine meets_check fun _ => meets_check fun hline => meets_check fun _ => ?_
    simp only [not_or, not_not, not_lt] at hline
    obtain ⟨k, hk, hpow⟩ := exists_two_pow hline.1 hline.2.1 hline.2.2
    have hslot : privateEntry ≤ slotOf p.cacheline := by
      rw [hpow, slotOf_two_pow hk]
      exact le_max_left _ _
    exact cached_within h item budget hslot _ (by omega)

/-- Whatever each load returns, a lookup in an accepted partition ends within its
passes, loads aligned words of the partition only, and a range it returns lies in
the partition, on one side of the free space. -/
theorem get_safe (s : Region) (index : ℕ) (accepting accepted : Bus) (p : Partition)
    (h : partitionAt s index accepting = .ok p accepted) (item : ℕ) (b : Bus) :
    let after := match get s p item b with
      | .ok _ t => t
      | .error _ t => t
    after.turns ≤ b.turns + passes p ∧
      (∃ new, after.loads = b.loads ++ new ∧ new.length ≤ 3 * passes p ∧
        ∀ l ∈ new, InPartition s p l) ∧
      ∀ x t, get s p item b = .ok x t → Inside p x := by
  have hp : Accepted s p := (partitionAt_accepted s index).ok trivial h
  have hget := get_within hp item b b rfl
  cases hrun : get s p item b with
  | ok x t =>
    rw [hrun] at hget
    obtain ⟨hinside, ⟨new, hnew, hin, hlen⟩, hturns⟩ := hget
    refine ⟨hturns, ⟨new, hnew, hlen, hin⟩, ?_⟩
    intro y u hy
    cases hy
    exact hinside
  | error e t =>
    rw [hrun] at hget
    obtain ⟨⟨new, hnew, hin, hlen⟩, hturns⟩ := hget
    refine ⟨hturns, ⟨new, hnew, hlen, hin⟩, ?_⟩
    intro y u hy
    cases hy

def sampleRegion : Region := ⟨0, 0x3000, 512, 0x2000, 1, rfl, rfl, by decide⟩

def samplePartition : Partition := ⟨0, 0x1000, 64, 32, 0, 19, 56, 64⟩

def sampleBus : Bus where
  remote _ l := match l.address with
    | 0x1000 => 0x54525024
    | 0x1006 => 19
    | 0x1008 => 64
    | 0x100c => 56
    | 0x1010 => 64
    | 0x1020 => 0x1dea5a5
    | 0x1024 => 8
    | 0x2020 => 0x1000
    | 0x2024 => 64
    | 0x202e => 19
    | 0x2030 => 32
    | _ => 0
  loads := []
  turns := 0

theorem get_safe_sample : Inside samplePartition ⟨0x1030, 8, false⟩ :=
  (get_safe sampleRegion 0 sampleBus _ samplePartition rfl 478 sampleBus).2.2 _ _ rfl

end Q1n1.Smem
