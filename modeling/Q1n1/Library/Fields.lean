import Q1n1.Library.Bytes
import Q1n1.Library.Memory

/-! # Little-endian fields of a memory -/

namespace Q1n1.Memory

open Bytes

def zero : Memory := fun _ => 0

def field (m : Memory) (w a : ℕ) : ℕ := getLe w (m.load a w)

def setField (m : Memory) (w a v : ℕ) : Memory := m.store a (putLe w v)

variable (m : Memory)

theorem field_lt (w a : ℕ) : m.field w a < 256 ^ w := getLe_lt w _

theorem field_setField_self {w a v : ℕ} (h : v < 256 ^ w) : (m.setField w a v).field w a = v := by
  have hload := load_store_self m a (putLe w v)
  rw [putLe_length] at hload
  rw [field, setField, hload]
  simpa using getLe_putLe_of_lt h []

theorem field_congr {m m' : Memory} {w a : ℕ} (h : ∀ i, a ≤ i → i < a + w → m i = m' i) :
    m.field w a = m'.field w a := by
  rw [field, field, load_congr h]

theorem field_eq_within {m m' : Memory} {w a v lo hi : ℕ} (hm : ∀ i, lo ≤ i → i < hi → m' i = m i)
    (h : m.field w a = v) (hlo : lo ≤ a := by omega) (hhi : a + w ≤ hi := by omega) :
    m'.field w a = v :=
  (field_congr fun i hle hlt => hm i (hlo.trans hle) (hlt.trans_le hhi)).trans h

theorem field_store_of_disjoint {w a off : ℕ} {bs : List UInt8}
    (h : a + w ≤ off ∨ off + bs.length ≤ a) : (m.store off bs).field w a = m.field w a := by
  rw [field, field, load_store_of_disjoint m h]

/-- A field that another one does not meet is left alone by a write to the other. -/
theorem field_setField_of_disjoint {w a w' a' v : ℕ} (h : a + w ≤ a' ∨ a' + w' ≤ a) :
    (m.setField w' a' v).field w a = m.field w a :=
  field_store_of_disjoint m (by simpa using h)

theorem setField_apply_of_disjoint {w a v i : ℕ} (h : i < a ∨ a + w ≤ i) :
    m.setField w a v i = m i := by
  rw [setField, store, if_neg (by rw [putLe_length]; omega)]

theorem getLe_append (w k : ℕ) (as bs : List UInt8) (h : as.length = w) :
    getLe (w + k) (as ++ bs) = getLe w as + 256 ^ w * getLe k bs := by
  induction w generalizing as with
  | zero =>
    have hnil : as = [] := List.eq_nil_of_length_eq_zero h
    simp [hnil, getLe]
  | succ w ih =>
    cases as with
    | nil => simp at h
    | cons a as =>
      rw [Nat.add_right_comm, List.cons_append, getLe, getLe]
      simp only [List.headD_cons, List.tail_cons, ih as (by simpa using h)]
      ring

/-- A field is its low part and the field behind it. -/
theorem field_add (w k a : ℕ) : m.field (w + k) a = m.field w a + 256 ^ w * m.field k (a + w) := by
  rw [field, load_add, getLe_append w k _ _ (by simp), field, field]

end Q1n1.Memory
