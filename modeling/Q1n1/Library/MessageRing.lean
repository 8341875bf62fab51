import Mathlib.Algebra.BigOperators.Group.List.Basic
import Q1n1.Library.Ring

/-! # Rings of messages

Messages of words that lie one behind the other in a ring, each from a multiple of `g` on. A
reader finds the length of a message in its words; the words between a message and the next
multiple of `g` do not matter. -/

namespace Q1n1.MessageRing

open Q1n1.Ring

variable {α : Type*} {n g : ℕ}

/-- The first multiple of `g` at or past `k`. -/
def align (g k : ℕ) : ℕ := (k + (g - 1)) / g * g

theorem le_align (hg : 0 < g) (k : ℕ) : k ≤ align g k := by
  have hdiv := Nat.div_add_mod (k + (g - 1)) g
  have hmod := Nat.mod_lt (k + (g - 1)) hg
  rw [align, mul_comm]
  omega

theorem dvd_align (g k : ℕ) : g ∣ align g k := dvd_mul_left _ _

/-- The words that messages take. -/
def span (g : ℕ) (ms : List (List α)) : ℕ := (ms.map fun m => align g m.length).sum

@[simp] theorem span_nil : span g ([] : List (List α)) = 0 := rfl

@[simp] theorem span_cons (m : List α) (ms : List (List α)) :
    span g (m :: ms) = align g m.length + span g ms := by
  simp [span]

@[simp] theorem span_append (ms ms' : List (List α)) :
    span g (ms ++ ms') = span g ms + span g ms' := by
  simp [span]

/-- The messages lie in the ring from index `i` on. -/
def Laid (n g : ℕ) (data : ℕ → α) : ℕ → List (List α) → Prop
  | _, [] => True
  | i, m :: ms => Ring.copyOut n data i m.length = m ∧ Laid n g data ((i + align g m.length) % n) ms

theorem laid_append {data : ℕ → α} {i : ℕ} (hi : i < n) (ms : List (List α)) (m : List α) :
    Laid n g data i (ms ++ [m]) ↔
      Laid n g data i ms ∧ Ring.copyOut n data ((i + span g ms) % n) m.length = m := by
  induction ms generalizing i with
  | nil => simp [Laid, Nat.mod_eq_of_lt hi]
  | cons m' ms ih =>
    have hmod : ((i + align g m'.length) % n + span g ms) % n = (i + span g (m' :: ms)) % n := by
      rw [Nat.mod_add_mod, span_cons, add_assoc]
    rw [List.cons_append, Laid, Laid, ih (Nat.mod_lt _ (by omega)), hmod, and_assoc]

/-- Only the words that the messages take matter. -/
theorem Laid.congr {data data' : ℕ → α} (hg : 0 < g) {i : ℕ} {ms : List (List α)} (hi : i < n)
    (hspan : span g ms < n) (h : Laid n g data i ms)
    (heq : ∀ a < n, Ring.dist n i a < span g ms → data' a = data a) : Laid n g data' i ms := by
  induction ms generalizing i with
  | nil => trivial
  | cons m ms ih =>
    rw [span_cons] at hspan heq
    have hle := le_align hg m.length
    refine ⟨?_, ih (Nat.mod_lt _ (by omega)) (by omega) h.2 ?_⟩
    · rw [copyOut_congr data' data hi m.length (by omega)]
      · exact h.1
      · intro a ha hd
        exact heq a ha (by omega)
    · intro a ha hd
      apply heq a ha
      have hself := add_dist_mod (Nat.mod_lt (i + align g m.length) (by omega)) ha
      have hadd : (i + (align g m.length + Ring.dist n ((i + align g m.length) % n)
          a)) % n = a := by
        rw [← add_assoc, ← Nat.mod_add_mod, hself]
      have hdist := dist_add (i := i) (k := align g m.length +
        Ring.dist n ((i + align g m.length) % n) a) hi hi (by rw [dist_self]; omega)
      rw [hadd, dist_self] at hdist
      omega

/-- What a ring between two indices holds. -/
structure Holds (n g : ℕ) (data : ℕ → α) (read write : ℕ) (ms : List (List α)) : Prop where
  grid : 0 < g ∧ g ∣ n
  read_lt : read < n
  write_lt : write < n
  read_dvd : g ∣ read
  write_dvd : g ∣ write
  held : Ring.dist n read write = span g ms
  laid : Laid n g data read ms

variable {data : ℕ → α} {read write : ℕ} {ms : List (List α)} {m : List α}

theorem Holds.nil (hgrid : 0 < g ∧ g ∣ n) (hlt : read < n) (hdvd : g ∣ read) :
    Holds n g data read read [] :=
  ⟨hgrid, hlt, hlt, hdvd, hdvd, used_self n read, trivial⟩

theorem Holds.write_eq (h : Holds n g data read write ms) : (read + span g ms) % n = write := by
  rw [← h.held]
  exact add_dist_mod h.read_lt h.write_lt

theorem dvd_mod_add (hgrid : 0 < g ∧ g ∣ n) (hdvd : g ∣ read) (k : ℕ) :
    g ∣ (read + align g k) % n :=
  (Nat.dvd_mod_iff hgrid.2).mpr (Nat.dvd_add hdvd (dvd_align g k))

/-- A message is put behind the others, with or without words up to the next multiple. -/
theorem Holds.push (h : Holds n g data read write ms) (pad : List α)
    (hpad : (m ++ pad).length ≤ align g m.length) (hroom : span g ms + align g m.length < n) :
    Holds n g (Ring.copyIn n data write (m ++ pad)).1 read ((write + align g m.length) % n)
      (ms ++ [m]) := by
  have hlt : Ring.dist n read write + align g m.length < n := by
    rw [h.held]
    exact hroom
  refine ⟨h.grid, h.read_lt, Nat.mod_lt _ (by have := h.read_lt; omega), h.read_dvd,
    dvd_mod_add h.grid h.write_dvd _, ?_, ?_⟩
  · rw [dist_add h.read_lt h.write_lt hlt, h.held]
    simp
  · rw [laid_append h.read_lt, h.write_eq]
    constructor
    · refine h.laid.congr h.grid.1 h.read_lt (by omega) ?_
      intro a ha hd
      apply copyIn_frame data h.write_lt _ (by omega)
      right
      have hwrite := dist_base_sub h.read_lt h.write_lt ha (by rw [h.held]; exact hd)
      rw [hwrite, h.held]
      omega
    · have hout := copyOut_copyIn data h.write_lt (m ++ pad) (by omega)
      rw [List.length_append, copyOut_add _ h.write_lt] at hout
      exact (List.append_inj hout (by simp)).1

theorem Holds.pop (h : Holds n g data read write (m :: ms)) :
    Ring.copyOut n data read m.length = m ∧
      Holds n g data ((read + align g m.length) % n) write ms := by
  have hheld := h.held
  rw [span_cons] at hheld
  refine ⟨h.laid.1, h.grid, Nat.mod_lt _ (by have := h.read_lt; omega), h.write_lt,
    dvd_mod_add h.grid h.read_dvd _, h.write_dvd, ?_, h.laid.2⟩
  rw [dist_base_add h.read_lt h.write_lt (by omega), hheld]
  omega

theorem Holds.eq_iff (h : Holds n g data read write ms) (hne : ∀ m ∈ ms, m ≠ []) :
    read = write ↔ ms = [] := by
  constructor
  · rintro rfl
    cases ms with
    | nil => rfl
    | cons m ms =>
      have hheld := h.held
      rw [dist_self, span_cons] at hheld
      have hle := le_align h.grid.1 m.length
      have hlength := List.length_pos_iff.mpr (hne m List.mem_cons_self)
      omega
  · rintro rfl
    have hheld := h.held
    rw [span_nil, ← dist_self n read] at hheld
    exact (dist_inj h.read_lt h.write_lt h.read_lt hheld).symm

end Q1n1.MessageRing
