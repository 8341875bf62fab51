import Q1n1.Library.Memory

/-! # Rings

A ring is the part of a memory below a length, read and written from an index that
wraps to zero. Its cells hold bytes or larger words. -/

namespace Q1n1

open List

namespace Ring

variable {α : Type*}

def next (n i : ℕ) : ℕ := if i + 1 = n then 0 else i + 1

/-- Copy words into the ring from index `i` on; the second component is the index
after the last one written. -/
def copyIn (n : ℕ) : (ℕ → α) → ℕ → List α → (ℕ → α) × ℕ
  | m, i, [] => (m, i)
  | m, i, b :: bs => copyIn n (Function.update m i b) (next n i) bs

/-- `count` words of the ring from index `i` on. -/
def copyOut (n : ℕ) (m : ℕ → α) : ℕ → ℕ → List α
  | _, 0 => []
  | i, count + 1 => m i :: copyOut n m (next n i) count

/-- How far `i` lies above `base`, going upwards with wrap. -/
def dist (n base i : ℕ) : ℕ := (i + n - base) % n

/-- Words held between a read index and a write index. -/
def used (n tail head : ℕ) : ℕ := dist n tail head

variable {n i : ℕ}

theorem next_lt (h : i < n) : next n i < n := by
  unfold next
  split <;> omega

theorem next_eq_mod (h : i < n) : next n i = (i + 1) % n := by
  unfold next
  split
  · rename_i h1
    rw [h1, Nat.mod_self]
  · rw [Nat.mod_eq_of_lt (by omega)]

theorem mod_of_lt_two_mul {a : ℕ} (h : a < 2 * n) : a % n = if a < n then a else a - n := by
  split
  · rw [Nat.mod_eq_of_lt ‹_›]
  · rw [Nat.mod_eq_sub_mod (by omega), Nat.mod_eq_of_lt (by omega)]

variable {base : ℕ}

theorem dist_eq (hb : base < n) (hi : i < n) :
    dist n base i = if base ≤ i then i - base else i + n - base := by
  unfold dist
  rw [mod_of_lt_two_mul (by omega)]
  split <;> split <;> omega

theorem dist_lt (hb : base < n) : dist n base i < n :=
  Nat.mod_lt _ (by omega)

theorem used_lt {tail head : ℕ} (ht : tail < n) : used n tail head < n :=
  dist_lt ht

@[simp] theorem used_self (n i : ℕ) : used n i i = 0 := by
  unfold used dist
  rcases Nat.eq_zero_or_pos n with rfl | hn
  · simp
  · rw [add_comm i n, Nat.add_sub_cancel, Nat.mod_self]

/-- Moving an index up by `k` moves its distance up by `k` while it stays short of a
full turn. -/
theorem dist_add {k : ℕ} (hb : base < n) (hi : i < n) (hd : dist n base i + k < n) :
    dist n base ((i + k) % n) = dist n base i + k := by
  have hk : (i + k) % n < n := Nat.mod_lt _ (by omega)
  have hd' := hd
  rw [dist_eq hb hi] at hd'
  rw [dist_eq hb hk, dist_eq hb hi, mod_of_lt_two_mul (by split at hd' <;> omega)]
  split at hd' <;> split <;> split <;> omega

theorem dist_base_add {k : ℕ} (hb : base < n) (hi : i < n) (hk : k ≤ dist n base i) :
    dist n ((base + k) % n) i = dist n base i - k := by
  have hlt := dist_lt (i := i) hb
  have hbk : (base + k) % n < n := Nat.mod_lt _ (by omega)
  rw [dist_eq hbk hi]
  rw [dist_eq hb hi] at hk hlt ⊢
  rw [mod_of_lt_two_mul (a := base + k) (by split at hk <;> omega)]
  split at hk <;> split <;> split <;> omega

theorem dist_inj {j : ℕ} (hb : base < n) (hi : i < n) (hj : j < n)
    (h : dist n base i = dist n base j) : i = j := by
  rw [dist_eq hb hi, dist_eq hb hj] at h
  split at h <;> split at h <;> omega

@[simp] theorem dist_self (n i : ℕ) : dist n i i = 0 := used_self n i

/-- An index short of another one lies a full turn less their distance behind it. -/
theorem dist_base_sub {a : ℕ} (hb : base < n) (hi : i < n) (ha : a < n)
    (h : dist n base a < dist n base i) : dist n i a = n - (dist n base i - dist n base a) := by
  rw [dist_eq hb ha, dist_eq hb hi] at h ⊢
  rw [dist_eq hi ha]
  split at h <;> split at h <;> split <;> simp_all <;> omega

theorem add_dist_mod (hb : base < n) (hi : i < n) : (base + dist n base i) % n = i := by
  rw [dist_eq hb hi]
  split
  · rw [Nat.add_sub_cancel' ‹_›, Nat.mod_eq_of_lt hi]
  · rw [show base + (i + n - base) = i + n by omega, Nat.add_mod_right, Nat.mod_eq_of_lt hi]

theorem dist_dvd {k : ℕ} (hn : k ∣ n) (hb : k ∣ base) (hi : k ∣ i) : k ∣ dist n base i :=
  (Nat.dvd_mod_iff hn).mpr (Nat.dvd_sub (Nat.dvd_add hi hn) hb)

/-! ## Copying out -/

@[simp] theorem copyOut_length (n : ℕ) (m : ℕ → α) (i count : ℕ) :
    (copyOut n m i count).length = count := by
  induction count generalizing i with
  | zero => rfl
  | succ count ih => simp [copyOut, ih]

@[simp] theorem copyOut_zero (n : ℕ) (m : ℕ → α) (i : ℕ) : copyOut n m i 0 = [] := rfl

variable (m : ℕ → α)

theorem copyOut_add (hi : i < n) (a b : ℕ) :
    copyOut n m i (a + b) = copyOut n m i a ++ copyOut n m ((i + a) % n) b := by
  induction a generalizing i with
  | zero => simp [Nat.mod_eq_of_lt hi]
  | succ a ih =>
    rw [Nat.succ_add, copyOut, ih (next_lt hi), copyOut, cons_append, next_eq_mod hi]
    have hmod : ((i + 1) % n + a) % n = (i + (a + 1)) % n := by
      rw [Nat.mod_add_mod, add_assoc, add_comm 1 a]
    rw [hmod]

theorem copyOut_take (hi : i < n) {a b : ℕ} (h : a ≤ b) :
    (copyOut n m i b).take a = copyOut n m i a := by
  obtain ⟨c, rfl⟩ := Nat.exists_eq_add_of_le h
  rw [copyOut_add m hi]
  simp

theorem copyOut_drop (hi : i < n) {a b : ℕ} (h : a ≤ b) :
    (copyOut n m i b).drop a = copyOut n m ((i + a) % n) (b - a) := by
  obtain ⟨c, rfl⟩ := Nat.exists_eq_add_of_le h
  rw [copyOut_add m hi, Nat.add_sub_cancel_left]
  simp

theorem copyOut_congr (m' : ℕ → α) (hi : i < n) (count : ℕ) (hc : count ≤ n)
    (h : ∀ a, a < n → dist n i a < count → m a = m' a) :
    copyOut n m i count = copyOut n m' i count := by
  induction count generalizing i with
  | zero => rfl
  | succ count ih =>
    have hself : dist n i i = 0 := used_self n i
    rw [copyOut, copyOut, h i hi (by omega)]
    congr 1
    apply ih (next_lt hi) (by omega)
    intro a ha hd
    by_cases hai : a = i
    · subst hai
      rw [h a ha (by omega)]
    · apply h a ha
      have hpos : 1 ≤ dist n i a := by
        rcases Nat.eq_zero_or_pos (dist n i a) with h0 | h0
        · exact absurd (dist_inj hi ha hi (h0.trans hself.symm)) hai
        · exact h0
      have hb := dist_base_add hi ha hpos
      rw [← next_eq_mod hi] at hb
      omega

theorem copyIn_snd (hi : i < n) (bs : List α) : (copyIn n m i bs).2 = (i + bs.length) % n := by
  induction bs generalizing m i with
  | nil => simp [copyIn, Nat.mod_eq_of_lt hi]
  | cons b bs ih =>
    rw [copyIn, ih _ (next_lt hi), next_eq_mod hi, Nat.mod_add_mod, length_cons,
      add_assoc, add_comm 1]

theorem copyIn_append (n : ℕ) (m : ℕ → α) (i : ℕ) (as bs : List α) :
    copyIn n m i (as ++ bs) = copyIn n (copyIn n m i as).1 (copyIn n m i as).2 bs := by
  induction as generalizing m i with
  | nil => rfl
  | cons a as ih => simp only [cons_append, copyIn, ih]

theorem copyIn_frame (hi : i < n) (bs : List α) (hl : bs.length ≤ n) (a : ℕ)
    (ha : n ≤ a ∨ bs.length ≤ dist n i a) : (copyIn n m i bs).1 a = m a := by
  induction bs generalizing m i with
  | nil => rfl
  | cons b bs ih =>
    have hself : dist n i i = 0 := used_self n i
    simp only [length_cons] at hl ha
    have hne : a ≠ i := by
      rintro rfl
      omega
    rw [copyIn, ih _ (next_lt hi) (by omega), Function.update_of_ne hne]
    rcases lt_or_ge a n with han | han
    · right
      have hb := dist_base_add hi han (show 1 ≤ dist n i a by omega)
      rw [← next_eq_mod hi] at hb
      omega
    · exact .inl han

theorem copyOut_copyIn (hi : i < n) (bs : List α) (hl : bs.length ≤ n) :
    copyOut n (copyIn n m i bs).1 i bs.length = bs := by
  induction bs generalizing m i with
  | nil => rfl
  | cons b bs ih =>
    simp only [length_cons] at hl
    rw [copyIn, length_cons, copyOut, ih _ (next_lt hi) (by omega)]
    congr 1
    rw [copyIn_frame _ (next_lt hi) bs (by omega)]
    · simp
    · right
      rcases lt_or_ge 1 n with h1 | h1
      · have hdn : dist n (next n i) i = n - 1 := by
          rw [dist_eq (next_lt hi) hi]
          unfold next
          split <;> split <;> omega
        omega
      · omega

theorem copyOut_copyIn_of_disjoint {tail : ℕ} (ht : tail < n) (hi : i < n) (bs : List α) (count : ℕ)
    (hd : count ≤ dist n tail i) (hl : dist n tail i + bs.length ≤ n) :
    copyOut n (copyIn n m i bs).1 tail count = copyOut n m tail count := by
  have hlt := dist_lt (i := i) ht
  apply copyOut_congr _ _ ht _ (by omega)
  intro a ha hda
  apply copyIn_frame m hi bs (by omega)
  right
  rw [dist_eq ht ha] at hda
  rw [dist_eq ht hi] at hd hl hlt
  rw [dist_eq hi ha]
  split at hda <;> split at hd <;> split <;> simp_all <;> omega

end Ring

end Q1n1
