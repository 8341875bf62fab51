import Q1n1.Verification.Smem.Allocator
import Mathlib.Tactic.IntervalCases

/-! # The layout an allocator keeps

Between requests a partition is its header, a chain of uncached entries up to the
uncached free offset and a chain of cached entries down to the cached one. Only
the headers carry the chains: the ranges between them may hold anything. -/

namespace Q1n1.Smem

open Memory List Heap

/-! ## Headers in memory -/

/-- The fields of an entry header that both lists have. -/
structure EntryAt (m : Memory) (a item length padData : ℕ) : Prop where
  canary : m.field 2 a = privateCanary
  item : m.field 2 (a + 2) = item
  length : m.field 4 (a + 4) = length
  padData : m.field 2 (a + 8) = padData

variable {padData : ℕ} {m : Memory} {item length : ℕ}

theorem EntryAt.congr {m' : Memory} {a : ℕ} (h : EntryAt m a item length padData)
    (hm : ∀ i, a ≤ i → i < a + 10 → m' i = m i) :
    EntryAt m' a item length padData where
  canary := field_eq_within hm h.canary
  item := field_eq_within hm h.item
  length := field_eq_within hm h.length
  padData := field_eq_within hm h.padData

theorem putEntry_at (m : Memory) (a : ℕ) (hitem : item < 2 ^ 16) (hlength : length < 2 ^ 32)
    (hpad : padData < 2 ^ 16) :
    EntryAt (putEntry m a item length padData) a item length padData := by
  unfold putEntry
  constructor
  · simp (disch := omega) only [field_setField_of_disjoint]
    exact field_setField_self _ (by decide)
  · simp (disch := omega) only [field_setField_of_disjoint, field_setField_self]
  · simp (disch := omega) only [field_setField_of_disjoint, field_setField_self]
  · exact field_setField_self _ (by omega)

theorem putEntry_apply {a i : ℕ} (h : i < a ∨ a + 10 ≤ i) :
    putEntry m a item length padData i = m i := by
  unfold putEntry
  simp (disch := omega) only [setField_apply_of_disjoint]

/-- The partition header without its free offsets. -/
structure HeaderAt (m : Memory) (shape : Shape) : Prop where
  magic : m.field 4 shape.offset = fourcc '$' 'P' 'R' 'T'
  host0 : m.field 2 (shape.offset + 4) = shape.host0
  host1 : m.field 2 (shape.offset + 6) = shape.host1
  size : m.field 4 (shape.offset + 8) = shape.size

variable {shape : Shape}

theorem HeaderAt.congr {m' : Memory} (h : HeaderAt m shape)
    (hm : ∀ i, shape.offset ≤ i → i < shape.offset + 12 → m' i = m i) : HeaderAt m' shape where
  magic := field_eq_within hm h.magic
  host0 := field_eq_within hm h.host0
  host1 := field_eq_within hm h.host1
  size := field_eq_within hm h.size

theorem putHeader_at (m : Memory) (shape : Shape) : HeaderAt (putHeader m shape) shape := by
  have hsize := shape.end_lt
  unfold putHeader
  constructor
  · simp (disch := omega) only [field_setField_of_disjoint]
    exact field_setField_self _ (by decide)
  · rw [field_setField_of_disjoint _ (by omega), field_setField_of_disjoint _ (by omega),
      field_setField_self _ shape.host0_lt]
  · rw [field_setField_of_disjoint _ (by omega), field_setField_self _ shape.host1_lt]
  · rw [field_setField_self _ (by omega)]

theorem putHeader_apply {i : ℕ} (h : i < shape.offset ∨ shape.offset + 12 ≤ i) :
    putHeader m shape i = m i := by
  unfold putHeader
  simp (disch := omega) only [setField_apply_of_disjoint]

/-- The free offsets of the partition header. -/
structure FreeAt (m : Memory) (shape : Shape) (freeUncached freeCached : ℕ) : Prop where
  uncached : m.field 4 (shape.offset + 12) = freeUncached
  cached : m.field 4 (shape.offset + 16) = freeCached

theorem FreeAt.congr {m' : Memory} {u c : ℕ} (h : FreeAt m shape u c)
    (hm : ∀ i, shape.offset + 12 ≤ i → i < shape.offset + 20 → m' i = m i) :
    FreeAt m' shape u c where
  uncached := field_eq_within hm h.uncached
  cached := field_eq_within hm h.cached

theorem putFree_at (m : Memory) (shape : Shape) {u c : ℕ} (hu : u < 2 ^ 32) (hc : c < 2 ^ 32) :
    FreeAt (putFree m shape u c) shape u c := by
  unfold putFree
  constructor
  · rw [field_setField_of_disjoint _ (by omega), field_setField_self _ (by omega)]
  · rw [field_setField_self _ (by omega)]

theorem putFree_apply {u c i : ℕ} (h : i < shape.offset + 12 ∨ shape.offset + 20 ≤ i) :
    putFree m shape u c i = m i := by
  unfold putFree
  rw [setField_apply_of_disjoint _ (by omega), setField_apply_of_disjoint _ (by omega)]

/-! ## The two chains -/

/-- The uncached entries from offset `e` up to `f`. -/
inductive Up (m : Memory) (offset : ℕ) : ℕ → ℕ → List Allocation → Prop
  | nil (e : ℕ) : Up m offset e e []
  | cons {e f padData padHdr : ℕ} {x : Allocation} {rest : List Allocation}
      (header : EntryAt m (offset + e) x.item x.length padData)
      (pad : m.field 2 (offset + e + 10) = padHdr) (aligned : e % 4 = 0)
      (data_aligned : (e + privateEntry + padHdr) % 4 = 0) (pad_le : padData ≤ x.length)
      (range : x.range = ⟨offset + (e + privateEntry + padHdr), x.length - padData, false⟩)
      (rest_up : Up m offset (e + privateEntry + padHdr + x.length) f rest) :
      Up m offset e f (x :: rest)

/-- The cached entries from offset `top` down to `limit`. -/
inductive Down (m : Memory) (offset slot : ℕ) : ℕ → ℕ → List Allocation → Prop
  | nil (top : ℕ) : Down m offset slot top top []
  | cons {data limit padData : ℕ} {x : Allocation} {rest : List Allocation}
      (header : EntryAt m (offset + (data + x.length)) x.item x.length padData)
      (aligned : (data + x.length) % 4 = 0) (data_aligned : data % 4 = 0)
      (pad_le : padData ≤ x.length)
      (range : x.range = ⟨offset + data, x.length - padData, true⟩)
      (rest_down : Down m offset slot data limit rest) :
      Down m offset slot (data + x.length + slot) limit (x :: rest)

variable {m m' : Memory} {offset slot e f top limit : ℕ} {l : List Allocation}

theorem Up.entries_le (h : Up m offset e f l) : e + privateEntry * l.length ≤ f := by
  induction h with
  | nil e => simp
  | cons _ _ _ _ _ _ _ ih =>
    simp only [privateEntry, length_cons] at ih ⊢
    omega

variable {x : Allocation}

theorem Up.range_mem (h : Up m offset e f l) (hx : x ∈ l) :
    offset + e + privateEntry ≤ x.range.offset ∧ x.range.offset + x.range.size ≤ offset + f := by
  induction h with
  | nil e => cases hx
  | cons _ _ _ _ _ range rest_up ih =>
    have hle := rest_up.entries_le
    rcases mem_cons.mp hx with rfl | hx
    · rw [range]
      simp only
      omega
    · have := ih hx
      omega

theorem Up.congr (h : Up m offset e f l) (hm : ∀ i, offset + e ≤ i → i < offset + f →
      (∀ x ∈ l, i < x.range.offset ∨ x.range.offset + x.range.size ≤ i) → m' i = m i) :
    Up m' offset e f l := by
  induction h with
  | nil e => exact .nil e
  | cons header pad aligned data_aligned pad_le range rest_up ih =>
    rename_i e f padData padHdr x rest
    have hend := rest_up.entries_le
    simp only [privateEntry] at hend range
    have hheader : ∀ i, offset + e ≤ i → i < offset + e + 12 → m' i = m i := by
      intro i hlo hhi
      apply hm i hlo (by omega)
      intro y hy
      rcases mem_cons.mp hy with rfl | hy
      · rw [range]
        simp only
        omega
      · have := (rest_up.range_mem hy).1
        simp only [privateEntry] at this
        omega
    refine .cons (header.congr fun i hlo hhi => hheader i hlo (by omega)) ?_ aligned data_aligned
      pad_le range (ih ?_)
    · exact field_eq_within hheader pad
    · intro i hlo hhi hout
      apply hm i (by omega) hhi
      intro y hy
      rcases mem_cons.mp hy with rfl | hy
      · rw [range]
        simp only [privateEntry] at hlo ⊢
        omega
      · exact hout y hy

theorem Up.snoc {padHdr : ℕ} (h : Up m offset e f l)
    (header : EntryAt m (offset + f) x.item x.length padData)
    (pad : m.field 2 (offset + f + 10) = padHdr) (aligned : f % 4 = 0)
    (data_aligned : (f + privateEntry + padHdr) % 4 = 0) (pad_le : padData ≤ x.length)
    (range : x.range = ⟨offset + (f + privateEntry + padHdr), x.length - padData, false⟩) :
    Up m offset e (f + privateEntry + padHdr + x.length) (l ++ [x]) := by
  induction h with
  | nil e => exact .cons header pad aligned data_aligned pad_le range (.nil _)
  | cons header' pad' aligned' data_aligned' pad_le' range' _ ih =>
    exact .cons header' pad' aligned' data_aligned' pad_le' range'
      (ih header pad aligned data_aligned range)

section

variable (h : Down m offset slot top limit l)
include h

theorem Down.entries_le : limit + slot * l.length ≤ top := by
  induction h with
  | nil top => simp
  | cons _ _ _ _ _ _ ih =>
    rw [length_cons, Nat.mul_succ]
    omega

theorem Down.slot_le (hl : l ≠ []) : limit + slot ≤ top := by
  have hle := h.entries_le
  have hpos := length_pos_iff.mpr hl
  calc limit + slot = limit + slot * 1 := by rw [mul_one]
    _ ≤ limit + slot * l.length := Nat.add_le_add_left (Nat.mul_le_mul_left slot hpos) limit
    _ ≤ top := hle

theorem Down.range_mem (hx : x ∈ l) :
    offset + limit ≤ x.range.offset ∧ x.range.offset + x.range.size + slot ≤ offset + top := by
  induction h with
  | nil top => cases hx
  | cons _ _ _ _ range rest_down ih =>
    have hle := rest_down.entries_le
    rcases mem_cons.mp hx with rfl | hx
    · rw [range]
      simp only
      omega
    · have := ih hx
      omega

theorem Down.limit_aligned (htop : top % 4 = 0) : limit % 4 = 0 := by
  induction h with
  | nil top => exact htop
  | cons _ _ data_aligned _ _ _ ih => exact ih data_aligned

end

theorem Down.congr (hslot : privateEntry ≤ slot) (h : Down m offset slot top limit l)
    (hm : ∀ i, offset + limit ≤ i → i < offset + top →
      (∀ x ∈ l, i < x.range.offset ∨ x.range.offset + x.range.size ≤ i) → m' i = m i) :
    Down m' offset slot top limit l := by
  simp only [privateEntry] at hslot
  induction h with
  | nil top => exact .nil top
  | cons header aligned data_aligned pad_le range rest_down ih =>
    rename_i data limit padData x rest
    have hend := rest_down.entries_le
    refine .cons (header.congr fun i hlo hhi => ?_) aligned data_aligned pad_le range (ih ?_)
    · apply hm i (by omega) (by omega)
      intro y hy
      rcases mem_cons.mp hy with rfl | hy
      · rw [range]
        simp only
        omega
      · have := (rest_down.range_mem hy).2
        omega
    · intro i hlo hhi hout
      apply hm i hlo (by omega)
      intro y hy
      rcases mem_cons.mp hy with rfl | hy
      · rw [range]
        simp only
        omega
      · exact hout y hy

theorem Down.snoc {data : ℕ} (h : Down m offset slot top (data + x.length + slot) l)
    (header : EntryAt m (offset + (data + x.length)) x.item x.length padData)
    (aligned : (data + x.length) % 4 = 0) (data_aligned : data % 4 = 0)
    (pad_le : padData ≤ x.length) (range : x.range = ⟨offset + data, x.length - padData, true⟩) :
    Down m offset slot top data (l ++ [x]) := by
  generalize hlimit : data + x.length + slot = limit at h
  induction h with
  | nil top =>
    subst hlimit
    exact .cons header aligned data_aligned pad_le range (.nil _)
  | cons header' aligned' data_aligned' pad_le' range' _ ih =>
    exact .cons header' aligned' data_aligned' pad_le' range' (ih hlimit)

/-! ## Every sequence of requests keeps the layout -/

theorem Shape.slot_eq (shape : Shape) : shape.slot = max privateEntry shape.line := by
  obtain ⟨k, hk, hline⟩ := shape.line_two_pow
  rw [Shape.slot, hline]
  interval_cases k <;> decide

theorem Shape.slot_aligned (shape : Shape) : shape.slot % 4 = 0 := by
  obtain ⟨k, hk, hline⟩ := shape.line_two_pow
  rw [shape.slot_eq, hline]
  interval_cases k <;> decide

theorem Shape.privateEntry_le_slot (shape : Shape) : privateEntry ≤ shape.slot :=
  shape.slot_eq ▸ le_max_left _ _

/-- What holds of a partition between requests. Outside it the memory is `m₀`. -/
structure Laid {shape : Shape} (m₀ : Memory) (h : Heap shape) : Prop where
  up : Up h.memory shape.offset partitionHeader h.freeUncached h.uncached
  down : Down h.memory shape.offset shape.slot shape.size h.freeCached h.cached
  apart : h.freeUncached ≤ h.freeCached
  header : HeaderAt h.memory shape
  free : FreeAt h.memory shape h.freeUncached h.freeCached
  distinct : (h.allocations.map Allocation.item).Nodup
  counted : ∀ x ∈ h.allocations, x.item < shape.count
  outside : ∀ i, i < shape.offset ∨ shape.offset + shape.size ≤ i → h.memory i = m₀ i

variable {shape : Shape} {m₀ : Memory} {h : Heap shape}

theorem Laid.header_le (hl : Laid m₀ h) : partitionHeader ≤ h.freeUncached := by
  have := hl.up.entries_le
  omega

theorem Laid.free_le (hl : Laid m₀ h) : h.freeCached ≤ shape.size := by
  have := hl.down.entries_le
  omega

theorem laid_format (shape : Shape) (m₀ : Memory) : Laid m₀ (Heap.format shape m₀) := by
  have hsize := shape.end_lt
  have hheader := shape.header_le
  simp only [partitionHeader] at hheader
  constructor
  · exact .nil _
  · exact .nil _
  · exact shape.header_le
  · exact (putHeader_at m₀ shape).congr fun i _ _ => putFree_apply (by omega)
  · exact putFree_at _ _ (by decide) (by omega)
  · exact nodup_nil
  · intro x hx
    cases hx
  · intro i hi
    simp only [Heap.format]
    rw [putFree_apply (by omega), putHeader_apply (by omega)]

theorem Heap.fresh_iff :
    h.fresh item = true ↔ item < shape.count ∧ item ∉ h.allocations.map Allocation.item := by
  simp only [fresh, Bool.and_eq_true, decide_eq_true_eq, all_eq_true, mem_map, not_exists, not_and]

theorem nodup_insert {as bs : List Allocation} (hx : x.item = item)
    (hnew : item ∉ (as ++ bs).map Allocation.item) (hd : ((as ++ bs).map Allocation.item).Nodup) :
    ((as ++ [x] ++ bs).map Allocation.item).Nodup := by
  have hperm : ((as ++ [x] ++ bs).map Allocation.item).Perm
      (item :: (as ++ bs).map Allocation.item) := by
    rw [← hx, ← map_cons]
    apply List.Perm.map
    rw [append_assoc]
    exact perm_middle
  exact hperm.nodup_iff.mpr (nodup_cons.mpr ⟨hnew, hd⟩)

theorem addUncached_apply {a padData padHdr u c i : ℕ}
    (hfree : i < shape.offset + 12 ∨ shape.offset + 20 ≤ i := by omega)
    (hentry : i < a ∨ a + 12 ≤ i := by omega) :
    putFree ((putEntry m a item length padData).setField 2 (a + 10) padHdr) shape u c i = m i := by
  rw [putFree_apply hfree, setField_apply_of_disjoint _ (by omega),
    putEntry_apply (by omega)]

theorem laid_addUncached (hl : Laid m₀ h) (item size padHdr padData : ℕ) :
    Laid m₀ (h.addUncached item size padHdr padData) := by
  simp only [addUncached]
  split
  · rename_i hok
    obtain ⟨hfresh, hpadHdr, hpadData, he, hdata, hroom⟩ := hok
    obtain ⟨hcount, hnew⟩ := fresh_iff.mp hfresh
    have hcount_lt := shape.count_lt
    have hheader := hl.header_le
    have hfree := hl.free_le
    have hend := shape.end_lt
    simp only [privateEntry, partitionHeader] at hheader hroom
    have hentry := putEntry_at h.memory (shape.offset + h.freeUncached) (hcount.trans hcount_lt)
      (show size + padData < 2 ^ 32 by omega) hpadData
    constructor
    · refine Up.snoc (x := ⟨item, ⟨_, size, false⟩, size + padData⟩)
        (hl.up.congr fun i hlo hhi _ => ?_) (hentry.congr fun i hlo hhi => ?_) ?_ he hdata
        (Nat.le_add_left _ _) (by simp)
      · simp only [partitionHeader] at hlo
        exact addUncached_apply
      · exact (putFree_apply (by omega)).trans
          (setField_apply_of_disjoint _ (by omega))
      · rw [field_congr fun i _ _ => putFree_apply (by omega),
          field_setField_self _ hpadHdr]
    · exact hl.down.congr shape.privateEntry_le_slot
        fun i (hlo : shape.offset + h.freeCached ≤ i) _ _ =>
          addUncached_apply
    · exact hroom
    · exact hl.header.congr fun i hlo hhi =>
        addUncached_apply
    · exact putFree_at _ _ (by simp only [privateEntry]; omega) (by omega)
    · exact nodup_insert rfl hnew hl.distinct
    · intro x hx
      simp only [allocations, mem_append, mem_singleton] at hx
      rcases hx with (hx | rfl) | hx
      · exact hl.counted x (mem_append_left _ hx)
      · exact hcount
      · exact hl.counted x (mem_append_right _ hx)
    · intro i hi
      rw [← hl.outside i hi]
      exact addUncached_apply
  · exact hl

theorem laid_addCached (hl : Laid m₀ h) (item size padData : ℕ) :
    Laid m₀ (h.addCached item size padData) := by
  simp only [addCached]
  split
  · rename_i hok
    obtain ⟨hfresh, hpadData, hdata, hroom⟩ := hok
    obtain ⟨hcount, hnew⟩ := fresh_iff.mp hfresh
    have hcount_lt := shape.count_lt
    have hheader := hl.header_le
    have hfree := hl.free_le
    have hend := shape.end_lt
    have hslot := shape.privateEntry_le_slot
    have hslot4 := shape.slot_aligned
    have hlimit := hl.down.limit_aligned (by have := shape.size_aligned; omega)
    simp only [privateEntry, partitionHeader] at hheader hslot
    obtain ⟨data, hd⟩ : ∃ data, h.freeCached = data + (size + padData) + shape.slot :=
      ⟨h.freeCached - shape.slot - (size + padData), by omega⟩
    have hdown := hl.down
    rw [hd] at hdata hdown hlimit ⊢
    simp only [Nat.add_sub_cancel] at hdata ⊢
    have hentry := putEntry_at h.memory (shape.offset + (data + (size + padData)))
      (hcount.trans hcount_lt) (show size + padData < 2 ^ 32 by omega) hpadData
    have hother : ∀ u c i, (i < shape.offset + 12 ∨ shape.offset + 20 ≤ i) →
        (i < shape.offset + (data + (size + padData)) ∨
          shape.offset + (data + (size + padData)) + 10 ≤ i) →
        putFree (putEntry h.memory (shape.offset + (data + (size + padData))) item
          (size + padData) padData) shape u c i = h.memory i := by
      intro u c i hi₁ hi₂
      rw [putFree_apply hi₁, putEntry_apply hi₂]
    constructor
    · refine hl.up.congr fun i hlo (hhi : i < shape.offset + h.freeUncached) _ => ?_
      simp only [partitionHeader] at hlo
      exact hother _ _ i (by omega) (by omega)
    · refine Down.snoc (x := ⟨item, ⟨shape.offset + data, size, true⟩, size + padData⟩)
        (hdown.congr shape.privateEntry_le_slot
          fun i (hlo : shape.offset + (data + (size + padData) + shape.slot) ≤ i) _ _ => ?_)
        (hentry.congr fun i hlo hhi => putFree_apply (by omega)) ?_ hdata
        (Nat.le_add_left _ _) (by simp)
      · exact hother _ _ i (by omega) (by omega)
      · simp only
        omega
    · simp only
      omega
    · exact hl.header.congr fun i hlo hhi => hother _ _ i (by omega) (by omega)
    · exact putFree_at _ _ (by omega) (by omega)
    · have hlast := nodup_insert (x := ⟨item, ⟨shape.offset + data, size, true⟩, size + padData⟩)
        rfl (show item ∉ (h.allocations ++ []).map Allocation.item by simpa using hnew)
        (by simpa using hl.distinct)
      simpa [allocations] using hlast
    · intro x hx
      simp only [allocations, mem_append, mem_singleton] at hx
      rcases hx with hx | hx | rfl
      · exact hl.counted x (mem_append_left _ hx)
      · exact hl.counted x (mem_append_right _ hx)
      · exact hcount
    · intro i hi
      rw [← hl.outside i hi]
      exact hother _ _ i (by omega) (by omega)
  · exact hl

theorem laid_fill (hl : Laid m₀ h) (a : ℕ) (bytes : List UInt8) : Laid m₀ (h.fill a bytes) := by
  unfold fill
  split
  · rename_i hin
    obtain ⟨x, hx, hrange⟩ := any_eq_true.mp hin
    simp only [decide_eq_true_eq] at hrange
    have hheader := hl.header_le
    have hfree := hl.free_le
    have happart := hl.apart
    simp only [partitionHeader] at hheader
    -- the range is one of the uncached entries or one of the cached ones
    have hplace : (x ∈ h.uncached ∧ x.range.offset + x.range.size ≤ shape.offset + h.freeUncached ∧
          shape.offset + 48 ≤ x.range.offset) ∨
        (x ∈ h.cached ∧ shape.offset + h.freeCached ≤ x.range.offset ∧
          x.range.offset + x.range.size ≤ shape.offset + shape.size) := by
      rcases mem_append.mp hx with hx | hx
      · have := hl.up.range_mem hx
        simp only [partitionHeader, privateEntry] at this
        exact .inl ⟨hx, by omega, by omega⟩
      · have := hl.down.range_mem hx
        exact .inr ⟨hx, by omega, by omega⟩
    have hother : ∀ i, (i < x.range.offset ∨ x.range.offset + x.range.size ≤ i) →
        h.memory.store a bytes i = h.memory i := by
      intro i hi
      rw [store, if_neg (by omega)]
    constructor
    · refine hl.up.congr fun i hlo (hhi : i < shape.offset + h.freeUncached) hout => hother i ?_
      rcases hplace with ⟨hx, _⟩ | ⟨_, hge, _⟩
      · exact hout x hx
      · omega
    · refine hl.down.congr shape.privateEntry_le_slot
        fun i (hlo : shape.offset + h.freeCached ≤ i) hhi hout => hother i ?_
      rcases hplace with ⟨_, hle, _⟩ | ⟨hx, _⟩
      · omega
      · exact hout x hx
    · exact hl.apart
    · exact hl.header.congr fun i hlo hhi => hother i (by omega)
    · exact hl.free.congr fun i hlo hhi => hother i (by omega)
    · exact hl.distinct
    · exact hl.counted
    · intro i hi
      rw [← hl.outside i hi]
      exact hother i (by omega)
  · exact hl

theorem laid_serve (hl : Laid m₀ h) (r : Request) : Laid m₀ (h.serve r) := by
  cases r with
  | uncached item size padHdr padData => exact laid_addUncached hl item size padHdr padData
  | cached item size padData => exact laid_addCached hl item size padData
  | fill a bytes => exact laid_fill hl a bytes

theorem laid_foldl (requests : List Request) (hl : Laid m₀ h) :
    Laid m₀ (requests.foldl serve h) := by
  induction requests generalizing h with
  | nil => exact hl
  | cons r requests ih => exact ih (laid_serve hl r)

theorem laid_built (shape : Shape) (m₀ : Memory) (requests : List Request) :
    Laid m₀ (built shape m₀ requests) :=
  laid_foldl requests (laid_format shape m₀)

end Q1n1.Smem
