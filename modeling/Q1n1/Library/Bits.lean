import Mathlib.Data.Nat.Bitwise

/-! # Fields of a word

A word is a natural number; a field is `n` of its bits from bit `k` on. -/

namespace Q1n1.Bits

theorem and_field (x n k : ℕ) : x &&& (2 ^ n - 1) <<< k = x / 2 ^ k % 2 ^ n * 2 ^ k := by
  apply Nat.eq_of_testBit_eq
  intro i
  simp [Nat.testBit_mul_two_pow, Nat.testBit_div_two_pow]
  by_cases h : k ≤ i
  · simp [h, Bool.and_comm]
  · simp [h]

theorem and_field_eq_self {x n k : ℕ} (hlow : x % 2 ^ k = 0) (hhigh : x < 2 ^ (k + n)) :
    x &&& (2 ^ n - 1) <<< k = x := by
  have hdiv : x / 2 ^ k < 2 ^ n := Nat.div_lt_of_lt_mul (by rwa [← Nat.pow_add])
  rw [and_field, Nat.mod_eq_of_lt hdiv]
  exact Nat.div_mul_cancel (Nat.dvd_of_mod_eq_zero hlow)

theorem shiftLeft_and_field (x n k : ℕ) : x <<< (k + n) &&& (2 ^ n - 1) <<< k = 0 := by
  apply Nat.eq_of_testBit_eq
  intro i
  simp only [Nat.testBit_and, Nat.testBit_shiftLeft, Nat.testBit_two_pow_sub_one,
    Nat.zero_testBit, Bool.and_eq_false_iff]
  by_cases h : k + n ≤ i
  · exact .inr (.inr (by simp; omega))
  · exact .inl (.inl (by simp; omega))

theorem or_and_of_and_eq_zero {x y m : ℕ} (h : y &&& m = 0) : (x ||| y) &&& m = x &&& m := by
  rw [Nat.and_or_distrib_right, h, Nat.or_zero]

end Q1n1.Bits
