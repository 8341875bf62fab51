import Mathlib.Algebra.BigOperators.Group.List.Basic
import Mathlib.Tactic.Ring

/-! # Horner's rule

A recurrence `v ↦ v * a + d` over a list of digits, in closed form. -/

namespace Q1n1.Horner

variable {R : Type*} [CommSemiring R]

/-- The digits weighted with the powers of `a`, the last one with `a ^ 0`. -/
def weighted (a : R) : List R → R
  | [] => 0
  | d :: ds => d * a ^ ds.length + weighted a ds

theorem foldl_eq (a v : R) (ds : List R) :
    ds.foldl (fun v d => v * a + d) v = v * a ^ ds.length + weighted a ds := by
  induction ds generalizing v with
  | nil => simp [weighted]
  | cons d ds ih =>
    rw [List.foldl_cons, ih, weighted, List.length_cons]
    ring

theorem weighted_eq_sum (a : R) (ds : List R) :
    weighted a ds = (List.zipWith (· * ·) ds ((List.range ds.length).map (a ^ ·)).reverse).sum := by
  induction ds with
  | nil => rfl
  | cons d ds ih =>
    rw [weighted, ih, List.length_cons, List.range_succ]
    simp

end Q1n1.Horner
