import Mathlib.Data.List.Basic
import Mathlib.Tactic.Ring

/-! # Rings with a phase bit

A producer fills `K` cells in turn, lap after lap, and marks each entry with the parity of
its lap. The consumer compares the mark of its next cell with the parity of its own lap, and
so knows without a shared counter whether that cell was filled again. -/

namespace Q1n1.PhaseRing

open List Function

/-- The mark of entry number `n`: set on the first lap, and flipped on each. -/
def phase (K n : ℕ) : Bool := n / K % 2 = 0

theorem phase_of_lt {K n : ℕ} (h : n < K) : phase K n = true := by
  simp [phase, Nat.div_eq_of_lt h]

theorem phase_add {K : ℕ} (hK : 0 < K) (n : ℕ) : phase K (n + K) = !phase K n := by
  have hdiv : (n + K) / K = n / K + 1 := Nat.add_div_right n hK
  by_cases h : n / K % 2 = 0
  · have : (n / K + 1) % 2 ≠ 0 := by omega
    simp [phase, hdiv, h, this]
  · have : (n / K + 1) % 2 = 0 := by omega
    simp [phase, hdiv, h, this]

theorem succ_mod {K : ℕ} (hK : 0 < K) (n : ℕ) :
    (n + 1) % K = if n % K + 1 = K then 0 else n % K + 1 := by
  have hlt := Nat.mod_lt n hK
  rw [← Nat.mod_add_mod]
  split
  · rename_i heq
    rw [heq, Nat.mod_self]
  · exact Nat.mod_eq_of_lt (by omega)

/-- The last entry of a lap and the first of the next carry different marks. -/
theorem phase_succ_of_mod_eq {K n : ℕ} (h : (n + 1) % K = 0) : phase K (n + 1) = !phase K n := by
  have hdvd : K ∣ n + 1 := Nat.dvd_of_mod_eq_zero h
  have hdiv : (n + 1) / K = n / K + 1 := by rw [Nat.succ_div, if_pos hdvd]
  by_cases h : n / K % 2 = 0
  · have : (n / K + 1) % 2 ≠ 0 := by omega
    simp [phase, hdiv, h, this]
  · have : (n / K + 1) % 2 = 0 := by omega
    simp [phase, hdiv, h, this]

theorem phase_succ {K n : ℕ} (h : (n + 1) % K ≠ 0) : phase K (n + 1) = phase K n := by
  have hdvd : ¬K ∣ n + 1 := fun hd => h (Nat.mod_eq_zero_of_dvd hd)
  simp [phase, Nat.succ_div, hdvd]

theorem mod_ne_of_lt {K m n : ℕ} (hlt : m < n) (hlap : n < m + K) : m % K ≠ n % K := by
  intro h
  have hz : (n - m) % K = 0 := Nat.sub_mod_eq_zero_of_mod_eq h.symm
  rw [Nat.mod_eq_of_lt (by omega)] at hz
  omega

variable {α : Type*} {K : ℕ} {tag : α → Bool} {cells : ℕ → α} {entries : List α} {start : ℕ}

/-- The cells after `entries` were written: every cell is marked by its last writer, and the
entries from number `start` on are in place. -/
structure Tagged (K : ℕ) (tag : α → Bool) (cells : ℕ → α) (entries : List α) (start : ℕ) :
    Prop where
  mark : ∀ n, n < entries.length → entries.length ≤ n + K → tag (cells (n % K)) = phase K n
  blank : ∀ n, n < K → entries.length ≤ n → tag (cells n) = false
  content : ∀ n, start ≤ n → ∀ h : n < entries.length, cells (n % K) = entries[n]
  le : start ≤ entries.length
  fits : entries.length ≤ start + K

theorem Tagged.init (h : ∀ n, n < K → tag (cells n) = false) : Tagged K tag cells [] 0 where
  mark n hn := by simp at hn
  blank n hn _ := h n hn
  content n _ hn := by simp at hn
  le := le_refl 0
  fits := Nat.zero_le _

section

variable (h : Tagged K tag cells entries start)

include h

theorem Tagged.congr {cells' : ℕ → α} (hK : 0 < K)
    (heq : ∀ i, i < K → cells' i = cells i) : Tagged K tag cells' entries start where
  mark n hn hlap := by rw [heq _ (Nat.mod_lt n hK), h.mark n hn hlap]
  blank n hn hlap := by rw [heq n hn, h.blank n hn hlap]
  content n hstart hn := by rw [heq _ (Nat.mod_lt n hK), h.content n hstart hn]
  le := h.le
  fits := h.fits

/-- The next cell to be written still carries the mark of the lap before. -/
theorem Tagged.mark_next (hK : 0 < K) :
    tag (cells (entries.length % K)) = !phase K entries.length := by
  by_cases hlap : entries.length < K
  · rw [Nat.mod_eq_of_lt hlap, phase_of_lt hlap]
    exact h.blank _ hlap (le_refl _)
  · obtain ⟨n, hn⟩ := Nat.exists_eq_add_of_le' (Nat.le_of_not_lt hlap)
    have hmark := h.mark n (by omega) (by omega)
    rw [hn, phase_add hK, Bool.not_not, Nat.add_mod_right]
    exact hmark

/-- The consumer's test: its next cell has its phase exactly when there is an entry for it. -/
theorem Tagged.ready_iff (hK : 0 < K) :
    tag (cells (start % K)) = phase K start ↔ start < entries.length := by
  constructor
  · intro hready
    by_contra hno
    have heq : start = entries.length := le_antisymm h.le (Nat.le_of_not_lt hno)
    rw [heq, h.mark_next hK] at hready
    simp at hready
  · intro hlt
    exact h.mark start hlt h.fits

theorem Tagged.take (hlt : start < entries.length) :
    Tagged K tag cells entries (start + 1) where
  mark := h.mark
  blank := h.blank
  content n hn := h.content n (by omega)
  le := hlt
  fits := h.fits.trans (by omega)

/-- Changing the next cell without its mark disturbs no entry that is still needed. -/
theorem Tagged.scribble {v : α} (hroom : entries.length < start + K)
    (hv : tag v = tag (cells (entries.length % K))) :
    Tagged K tag (update cells (entries.length % K) v) entries start := by
  have htag : ∀ i, tag (update cells (entries.length % K) v i) = tag (cells i) := by
    intro i
    by_cases hi : i = entries.length % K
    · rw [hi, update_self, hv]
    · rw [update_of_ne hi]
  refine ⟨?_, ?_, ?_, h.le, h.fits⟩
  · intro n hn hlap
    rw [htag, h.mark n hn hlap]
  · intro n hn hlap
    rw [htag, h.blank n hn hlap]
  · intro n hstart hn
    rw [update_of_ne (mod_ne_of_lt hn (by omega)), h.content n hstart hn]

/-- A marked entry that lands in the next cell is the next entry. -/
theorem Tagged.put {v : α} (hroom : entries.length < start + K)
    (hv : tag v = phase K entries.length) :
    Tagged K tag (update cells (entries.length % K) v) (entries ++ [v]) start := by
  refine ⟨?_, ?_, ?_, ?_, ?_⟩
  · intro n hn hlap
    rw [length_append, length_singleton] at hn hlap
    by_cases heq : n = entries.length
    · rw [heq, update_self, hv]
    · rw [update_of_ne (mod_ne_of_lt (by omega) (by omega)), h.mark n (by omega) (by omega)]
  · intro n hn hlap
    rw [length_append, length_singleton] at hlap
    have hne : n ≠ entries.length % K := by
      rw [Nat.mod_eq_of_lt (by omega)]
      omega
    rw [update_of_ne hne, h.blank n hn (by omega)]
  · intro n hstart hn
    rw [length_append, length_singleton] at hn
    by_cases heq : n = entries.length
    · subst heq
      simp
    · rw [update_of_ne (mod_ne_of_lt (by omega) (by omega)), h.content n hstart (by omega),
        getElem_append_left (by omega)]
  · simpa using h.le.trans (Nat.le_succ _)
  · simpa using Nat.succ_le_of_lt hroom

end

end Q1n1.PhaseRing
