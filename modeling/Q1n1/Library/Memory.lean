import Mathlib.Data.List.GetD
import Mathlib.Data.List.Range
import Mathlib.Tactic.Linarith

/-! # Byte memories

A memory is a total map from addresses to bytes, stored to and loaded from in runs. -/

namespace Q1n1

open List

abbrev Memory := ℕ → UInt8

namespace Memory

def store (m : Memory) (off : ℕ) (bs : List UInt8) : Memory := fun a =>
  if off ≤ a ∧ a < off + bs.length then bs.getD (a - off) 0 else m a

def load (m : Memory) (off n : ℕ) : List UInt8 := (List.range n).map fun i => m (off + i)

variable (m : Memory)

@[simp] theorem load_length (off n : ℕ) : (m.load off n).length = n := by
  simp [load]

@[simp] theorem load_zero (off : ℕ) : m.load off 0 = [] := rfl

@[simp] theorem store_nil (off : ℕ) : m.store off [] = m := by
  funext a
  simp only [store, length_nil, add_zero]
  rw [if_neg (by omega)]

theorem load_add (off a b : ℕ) : m.load off (a + b) = m.load off a ++ m.load (off + a) b := by
  simp only [load, range_add, map_append, map_map, Function.comp_def, add_assoc]

variable {off n : ℕ}

theorem load_congr {m m' : Memory} (h : ∀ a, off ≤ a → a < off + n → m a = m' a) :
    m.load off n = m'.load off n := by
  apply map_congr_left
  intro i hi
  exact h _ (Nat.le_add_right _ _) (by have := mem_range.mp hi; omega)

theorem load_eq_load {m m' : Memory} {off' : ℕ} :
    m.load off n = m'.load off' n ↔ ∀ i < n, m (off + i) = m' (off' + i) := by
  simp [load]

theorem load_eq_load_of_le {m m' : Memory} {off' i k : ℕ} (h : m.load off n = m'.load off' n)
    (hk : i + k ≤ n) : m.load (off + i) k = m'.load (off' + i) k := by
  rw [load_eq_load] at h ⊢
  intro j hj
  simpa [add_assoc] using h (i + j) (by omega)

@[simp] theorem load_store_self (off : ℕ) (bs : List UInt8) :
    (m.store off bs).load off bs.length = bs := by
  apply ext_getElem (by simp)
  intro i h₁ h₂
  simp [load, store, h₂]

@[simp] theorem store_load_self (off n : ℕ) : m.store off (m.load off n) = m := by
  funext a
  simp only [store, load_length]
  split
  · rename_i h
    rw [getD_eq_getElem _ _ (by rw [load_length]; omega)]
    simp only [load, getElem_map, getElem_range]
    congr 1
    omega
  · rfl

theorem load_store_of_disjoint {off' : ℕ} {bs : List UInt8}
    (h : off + n ≤ off' ∨ off' + bs.length ≤ off) :
    (m.store off' bs).load off n = m.load off n := by
  apply load_congr
  intro a ha hb
  rw [store, if_neg (by omega)]

/-- Storing right behind a prefix extends what the prefix reads as. -/
theorem load_store_append (off k : ℕ) (bs : List UInt8) :
    (m.store (off + k) bs).load off (k + bs.length) = m.load off k ++ bs := by
  rw [load_add, load_store_of_disjoint m (.inl (le_refl _)), load_store_self]

theorem load_store_load (m' : Memory) {a k : ℕ} (ha : off ≤ a) (hk : a + k ≤ off + n) :
    (m'.store off (m.load off n)).load a k = m.load a k := by
  apply load_congr
  intro x hx hx'
  have hlt : x - off < n := by omega
  simp [store, load, show off ≤ x ∧ x < off + n by omega, hlt, Nat.add_sub_cancel' (ha.trans hx)]

theorem load_piece {m : Memory} {k i : ℕ} {f : ℕ → List UInt8} (hf : ∀ i, (f i).length = k)
    (h : m.load off (k * n) = (List.range n).flatMap f) (hi : i < n) :
    m.load (off + k * i) k = f i := by
  induction n with
  | zero => omega
  | succ n ih =>
    rw [Nat.mul_succ, load_add, range_succ, flatMap_append] at h
    obtain ⟨hinit, hlast⟩ := append_inj' h (by simp [hf])
    rcases Nat.lt_succ_iff_lt_or_eq.mp hi with hlt | rfl
    · exact ih hinit hlt
    · simpa using hlast

end Memory

end Q1n1
