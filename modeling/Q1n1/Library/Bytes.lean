import Mathlib.Data.List.Basic
import Mathlib.Tactic.Ring
import Mathlib.Tactic.Linarith

/-! # Little-endian words in byte lists, and slices of them -/

namespace Q1n1.Bytes

open List

/-- The `n` low bytes of `v`, least significant first. -/
def putLe : ℕ → ℕ → List UInt8
  | 0, _ => []
  | n + 1, v => UInt8.ofNat (v % 256) :: putLe n (v / 256)

/-- The number whose little-endian digits are the first `n` bytes; bytes past the
end of the list read as zero. -/
def getLe : ℕ → List UInt8 → ℕ
  | 0, _ => 0
  | n + 1, bs => (bs.headD 0).toNat + 256 * getLe n bs.tail

@[simp] theorem putLe_length (n v : ℕ) : (putLe n v).length = n := by
  induction n generalizing v with
  | zero => rfl
  | succ n ih => simp [putLe, ih]

theorem getLe_lt (n : ℕ) (bs : List UInt8) : getLe n bs < 256 ^ n := by
  induction n generalizing bs with
  | zero => simp [getLe]
  | succ n ih =>
    have hd := (bs.headD 0).toNat_lt
    have ht := ih bs.tail
    rw [getLe, pow_succ]
    omega

theorem getLe_putLe (n v : ℕ) (rest : List UInt8) : getLe n (putLe n v ++ rest) = v % 256 ^ n := by
  induction n generalizing v with
  | zero => simp [getLe, Nat.mod_one]
  | succ n ih =>
    have hb : (UInt8.ofNat (v % 256)).toNat = v % 256 := by
      simp
    simp only [putLe, cons_append, getLe, headD_cons, tail_cons, ih, hb]
    rw [pow_succ, Nat.mul_comm (256 ^ n) 256, Nat.mod_mul]

theorem getLe_take {n m : ℕ} (h : n ≤ m) (bs : List UInt8) : getLe n (bs.take m) = getLe n bs := by
  induction n generalizing m bs with
  | zero => rfl
  | succ n ih =>
    cases m with
    | zero => omega
    | succ m =>
      cases bs with
      | nil => simp
      | cons b bs => simp [getLe, ih (by omega : n ≤ m)]

theorem getLe_putLe_of_lt {n v : ℕ} (h : v < 256 ^ n) (rest : List UInt8) :
    getLe n (putLe n v ++ rest) = v := by
  rw [getLe_putLe, Nat.mod_eq_of_lt h]

theorem putLe_getLe {n : ℕ} {bs : List UInt8} (h : n ≤ bs.length) :
    putLe n (getLe n bs) = bs.take n := by
  induction n generalizing bs with
  | zero => rfl
  | succ n ih =>
    cases bs with
    | nil => simp at h
    | cons b bs =>
      have hb := b.toNat_lt
      have hlow : (b.toNat + 256 * getLe n bs) % 256 = b.toNat := by omega
      have hhigh : (b.toNat + 256 * getLe n bs) / 256 = getLe n bs := by omega
      simp only [getLe, headD_cons, tail_cons, putLe, hlow, hhigh,
        ih (by simpa using h), take_succ_cons, UInt8.ofNat_toNat]

/-- The slices of `per` bytes; the last one has what is left. -/
def slices (per : ℕ) (data : List UInt8) : List (List UInt8) :=
  (List.range ((data.length + per - 1) / per)).map fun k => (data.drop (k * per)).take per

theorem flatten_slices (data : List UInt8) (per n : ℕ) :
    ((List.range n).map fun k => (data.drop (k * per)).take per).flatten = data.take (n * per) := by
  induction n with
  | zero => simp
  | succ n ih =>
    rw [range_succ, map_append, flatten_append, ih, Nat.succ_mul, take_add]
    simp

theorem slices_flatten (per : ℕ) (hper : 0 < per) (data : List UInt8) :
    (slices per data).flatten = data := by
  rw [slices, flatten_slices]
  apply take_of_length_le
  have := Nat.lt_div_mul_add (a := data.length + per - 1) hper
  omega

theorem length_of_mem_slices {per : ℕ} {data slice : List UInt8} (h : slice ∈ slices per data) :
    slice.length ≤ per := by
  obtain ⟨k, -, rfl⟩ := mem_map.mp h
  exact length_take_le _ _

end Q1n1.Bytes
