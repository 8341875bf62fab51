import Mathlib.Data.Nat.ModEq
import Q1n1.Library.Memory

/-! # Rings with free-running counters

The two counters of such a ring run on modulo `wrap`, a multiple of its size, and are reduced
to the size only to find a cell. A full ring and an empty one are told apart that way. -/

namespace Q1n1

open List

/-- `size` cells, the write counter `head` and the read counter `tail`. -/
structure CounterRing (size wrap : ℕ) where
  data : Memory
  head : ℕ
  tail : ℕ

namespace CounterRing

variable {size wrap : ℕ}

def used (r : CounterRing size wrap) : ℕ := (r.head + wrap - r.tail) % wrap

def push (r : CounterRing size wrap) (b : UInt8) : CounterRing size wrap :=
  { r with data := Function.update r.data (r.head % size) b, head := (r.head + 1) % wrap }

/-- Write bytes as long as there is room; how many were written. -/
def write : CounterRing size wrap → List UInt8 → ℕ × CounterRing size wrap
  | r, [] => (0, r)
  | r, b :: bs =>
    if r.used < size then
      let (n, r) := (r.push b).write bs
      (n + 1, r)
    else (0, r)

/-- At most `n` bytes, which stay in the ring. -/
def peek (r : CounterRing size wrap) (n : ℕ) : List UInt8 :=
  (List.range (min n r.used)).map fun i => r.data ((r.tail + i) % size)

def skip (r : CounterRing size wrap) (n : ℕ) : CounterRing size wrap :=
  { r with tail := (r.tail + n) % wrap }

def read (r : CounterRing size wrap) (n : ℕ) : List UInt8 × CounterRing size wrap :=
  (r.peek n, r.skip (r.peek n).length)

/-- What the ring holds, oldest first. -/
def content (r : CounterRing size wrap) : List UInt8 :=
  (List.range r.used).map fun i => r.data ((r.tail + i) % size)

structure Valid (r : CounterRing size wrap) : Prop where
  head : r.head < wrap
  tail : r.tail < wrap
  used : r.used ≤ size

@[simp] theorem content_length (r : CounterRing size wrap) : r.content.length = r.used := by
  simp [content]

theorem peek_eq (r : CounterRing size wrap) (n : ℕ) : r.peek n = r.content.take n := by
  rw [peek, content, ← map_take, take_range]

@[simp] theorem used_of_eq {m : Memory} {c : ℕ} : (⟨m, c, c⟩ : CounterRing size wrap).used = 0 := by
  rw [used, Nat.add_sub_cancel_left, Nat.mod_self]

theorem Valid.of_eq {m : Memory} {c : ℕ} (h : c < wrap) :
    (⟨m, c, c⟩ : CounterRing size wrap).Valid :=
  ⟨h, h, by simp⟩

theorem content_of_eq {m : Memory} {c : ℕ} : (⟨m, c, c⟩ : CounterRing size wrap).content = [] := by
  simp [content]

variable {r : CounterRing size wrap}

/-- The counters are less than one turn apart. -/
theorem Valid.used_eq (h : r.Valid) :
    r.used = if r.tail ≤ r.head then r.head - r.tail else r.head + wrap - r.tail := by
  have hhead := h.head
  rw [CounterRing.used]
  split
  · rw [show r.head + wrap - r.tail = r.head - r.tail + wrap by omega, Nat.add_mod_right,
      Nat.mod_eq_of_lt (by omega)]
  · rw [Nat.mod_eq_of_lt (by omega)]

theorem Valid.tail_add_used (h : r.Valid) : (r.tail + r.used) % wrap = r.head := by
  have hhead := h.head
  rw [h.used_eq]
  split
  · rw [Nat.add_sub_cancel' ‹_›, Nat.mod_eq_of_lt hhead]
  · rw [show r.tail + (r.head + wrap - r.tail) = r.head + wrap by have := h.tail; omega,
      Nat.add_mod_right, Nat.mod_eq_of_lt hhead]

theorem used_of_tail_add {u : ℕ} (htail : r.tail < wrap) (hu : u < wrap)
    (h : (r.tail + u) % wrap = r.head) : r.used = u := by
  rw [CounterRing.used, ← h]
  by_cases hlt : r.tail + u < wrap
  · rw [Nat.mod_eq_of_lt hlt, show r.tail + u + wrap - r.tail = u + wrap by omega,
      Nat.add_mod_right, Nat.mod_eq_of_lt hu]
  · have hmod : (r.tail + u) % wrap = r.tail + u - wrap := by
      rw [Nat.mod_eq_sub_mod (by omega), Nat.mod_eq_of_lt (by omega)]
    rw [hmod, show r.tail + u - wrap + wrap - r.tail = u by omega, Nat.mod_eq_of_lt hu]

section

variable (hdvd : size ∣ wrap) (hlt : size < wrap)
include hlt

theorem Valid.used_push (h : r.Valid) (hroom : r.used < size) (b : UInt8) :
    (r.push b).used = r.used + 1 := by
  refine used_of_tail_add h.tail (by omega) ?_
  show (r.tail + (r.used + 1)) % wrap = (r.head + 1) % wrap
  rw [← add_assoc, ← Nat.mod_add_mod, h.tail_add_used]

theorem Valid.push (h : r.Valid) (hroom : r.used < size) (b : UInt8) : (r.push b).Valid := by
  refine ⟨Nat.mod_lt _ (by omega), h.tail, ?_⟩
  rw [h.used_push hlt hroom]
  exact hroom

theorem Valid.used_skip (h : r.Valid) {n : ℕ} (hn : n ≤ r.used) : (r.skip n).used = r.used - n := by
  have hused := h.used
  refine used_of_tail_add (Nat.mod_lt _ (by omega)) (by omega) ?_
  show ((r.tail + n) % wrap + (r.used - n)) % wrap = r.head
  rw [Nat.mod_add_mod, show r.tail + n + (r.used - n) = r.tail + r.used by omega, h.tail_add_used]

theorem Valid.skip (h : r.Valid) {n : ℕ} (hn : n ≤ r.used) : (r.skip n).Valid := by
  refine ⟨h.head, Nat.mod_lt _ (by omega), ?_⟩
  rw [h.used_skip hlt hn]
  have := h.used
  omega

include hdvd

theorem Valid.content_push (h : r.Valid) (hroom : r.used < size) (b : UInt8) :
    (r.push b).content = r.content ++ [b] := by
  have hcell : r.head % size = (r.tail + r.used) % size := by
    rw [← h.tail_add_used, Nat.mod_mod_of_dvd _ hdvd]
  rw [content, h.used_push hlt hroom, range_succ, map_append]
  congr 1
  · apply map_congr_left
    intro i hi
    have hi : i < r.used := mem_range.mp hi
    have hne : (r.tail + i) % size ≠ r.head % size := by
      rw [hcell]
      intro heq
      have hmod : i % size = r.used % size := Nat.ModEq.add_left_cancel' r.tail heq
      rw [Nat.mod_eq_of_lt (by omega), Nat.mod_eq_of_lt hroom] at hmod
      omega
    exact Function.update_of_ne hne _ _
  · show [Function.update r.data (r.head % size) b ((r.tail + r.used) % size)] = [b]
    rw [← hcell, Function.update_self]

theorem Valid.content_skip (h : r.Valid) {n : ℕ} (hn : n ≤ r.used) :
    (r.skip n).content = r.content.drop n := by
  rw [content, h.used_skip hlt hn]
  apply ext_getElem (by simp)
  intro i h₁ h₂
  simp only [length_map, length_range] at h₁
  simp only [content, getElem_map, getElem_range, getElem_drop]
  show r.data (((r.tail + n) % wrap + i) % size) = _
  congr 1
  rw [← Nat.mod_mod_of_dvd _ hdvd, Nat.mod_add_mod, Nat.mod_mod_of_dvd _ hdvd, add_assoc]

theorem Valid.write_spec (h : r.Valid) (bs : List UInt8) :
    (r.write bs).1 = min bs.length (size - r.used) ∧ (r.write bs).2.Valid ∧
      (r.write bs).2.content = r.content ++ bs.take (size - r.used) := by
  induction bs generalizing r with
  | nil => simp [write, h]
  | cons b bs ih =>
    rw [write]
    split
    · rename_i hroom
      obtain ⟨hcount, hvalid, hcontent⟩ := ih (h.push hlt hroom b)
      rw [h.used_push hlt hroom] at hcount hcontent
      refine ⟨?_, hvalid, ?_⟩
      · show ((r.push b).write bs).1 + 1 = _
        rw [hcount, length_cons]
        omega
      · show ((r.push b).write bs).2.content = _
        rw [hcontent, h.content_push hdvd hlt hroom,
          show size - r.used = (size - (r.used + 1)) + 1 by omega, take_succ_cons]
        simp
    · rename_i hfull
      simp [show size - r.used = 0 by omega, h]

theorem Valid.read_spec (h : r.Valid) (n : ℕ) :
    (r.read n).1 ++ (r.read n).2.content = r.content ∧ (r.read n).2.Valid := by
  have hle : (r.peek n).length ≤ r.used := by simp [peek]
  refine ⟨?_, h.skip hlt hle⟩
  show r.peek n ++ (r.skip (r.peek n).length).content = r.content
  rw [h.content_skip hdvd hlt hle, peek_eq, length_take]
  rcases le_total n r.content.length with hn | hn
  · rw [min_eq_left hn, take_append_drop]
  · rw [min_eq_right hn, take_of_length_le hn, drop_length, append_nil]

end

end CounterRing

end Q1n1
