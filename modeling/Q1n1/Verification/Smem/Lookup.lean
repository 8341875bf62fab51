import Q1n1.Verification.Smem.Layout
import Q1n1.Verification.Smem.Safety
import Mathlib.Data.List.Nodup

/-! # Lookups agree with the allocator

On a partition that its allocator built, and that nobody changes meanwhile, the
two walks visit the entries of the two chains in order. -/

namespace Q1n1.Smem

open Memory List

variable {s : Region} {p : Partition} {m : Memory} {α : Type} {Q : α → Bus → Prop}
  {E : Status → Bus → Prop}

/-! ## Loads from memory that stays -/

/-- Every load returns what the memory holds at its address. -/
def Still (s : Region) (m : Memory) (b : Bus) : Prop :=
  ∀ loads l, b.remote loads l = UInt32.ofNat (m.field l.width (l.address - s.base))

theorem field_wrap {n a v : ℕ} (hv : m.field n a = v) (ha : a < 2 ^ 32 := by omega) :
    m.field n (wrap32 a) = v :=
  (congrArg _ (wrap32_of_lt ha)).trans hv

section

variable {n a v : ℕ} {k : ℕ → Parse α}

theorem load_bind (hn : 256 ^ n ≤ 2 ^ 32) (hv : m.field n a = v)
    (h : Meets (Still s m) (k v) Q E) : Meets (Still s m) (load ⟨s.base + a, n⟩ >>= k) Q E := by
  subst hv
  intro b hb
  have hvalue : (b.remote b.loads ⟨s.base + a, n⟩).toNat = m.field n a := by
    rw [hb, Nat.add_sub_cancel_left]
    exact Nat.mod_eq_of_lt ((m.field_lt n a).trans_le hn)
  have hk := h { b with loads := b.loads ++ [⟨s.base + a, n⟩] } hb
  rw [← hvalue] at hk
  exact hk

theorem rd32_bind (hv : m.field 4 a = v) (h : Meets (Still s m) (k v) Q E) :
    Meets (Still s m) (s.rd32 a >>= k) Q E :=
  load_bind (by decide) hv h

theorem rd16_bind (hv : m.field 2 a = v) (h : Meets (Still s m) (k v) Q E) :
    Meets (Still s m) (s.rd16 a >>= k) Q E := by
  have hlt : v < 2 ^ 16 := hv ▸ m.field_lt 2 a
  rw [← Nat.mod_eq_of_lt hlt] at h
  exact load_bind (k := fun v => k (v % 2 ^ 16)) (by decide) hv h

end

variable {k : Unit → Parse α}

theorem turn_bind (h : Meets (Still s m) (k ()) Q E) : Meets (Still s m) (turn >>= k) Q E := by
  intro b hb
  exact h { b with turns := b.turns + 1 } hb

theorem pass_bind {P : Bus → Prop} {c : Prop} [Decidable c] {status : Status} (hc : ¬c)
    (h : Meets P (k ()) Q E) : Meets P (refuseIf c status >>= k) Q E := by
  rw [refuseIf, if_neg hc]
  exact h

theorem refuse_bind {P : Bus → Prop} {c : Prop} [Decidable c] {status : Status} (hc : c)
    (h : ∀ b, P b → E status b) : Meets P (refuseIf c status >>= k) Q E := by
  rw [refuseIf, if_pos hc]
  exact h

/-! ## The two walks -/

variable {item : ℕ}

theorem EntryAt.word0 {a length padData : ℕ} (h : EntryAt m a item length padData) :
    m.field 4 a = privateCanary + 2 ^ 16 * item := by
  have hword := m.field_add 2 2 a
  rw [h.canary, h.item] at hword
  exact hword

/-- How the upward walk over the entries `l` ends. -/
def upwardOf (item f budget : ℕ) (l : List Allocation) : Upward :=
  match l.find? fun x => x.item = item with
  | some x => .found x.range
  | none => .ended f (budget - l.length)

theorem uncached_up {e f : ℕ} {l : List Allocation} (hup : Up m p.offset e f l)
    (hf : f = p.freeUncached) (hfree : p.freeUncached ≤ p.size) (hend : p.offset + p.size < 2 ^ 32)
    (item budget : ℕ) (hbudget : l.length ≤ budget) :
    Meets (Still s m) (uncached s p item budget e)
      (fun r b => r = upwardOf item f budget l ∧ Still s m b) E := by
  induction hup generalizing budget with
  | nil e =>
    cases budget with
    | zero =>
      rw [uncached, if_neg (by omega)]
      exact meets_pure fun b hb => ⟨rfl, hb⟩
    | succ budget =>
      rw [uncached, if_neg (by omega)]
      exact meets_pure fun b hb => ⟨rfl, hb⟩
  | cons header pad aligned data_aligned pad_le range rest_up ih =>
    rename_i e f padData padHdr x rest
    cases budget with
    | zero => simp at hbudget
    | succ budget =>
      have hle := rest_up.entries_le
      have hpads := m.field_add 2 2 (p.offset + e + 8)
      rw [header.padData, pad] at hpads
      have hpadData := header.padData ▸ m.field_lt 2 (p.offset + e + 8)
      have hitem := header.item ▸ m.field_lt 2 (p.offset + e + 2)
      have hentry : privateEntry = 16 := rfl
      have hlow : (padData + 256 ^ 2 * padHdr) % 2 ^ 16 = padData := by omega
      have hhigh : (padData + 256 ^ 2 * padHdr) / 2 ^ 16 = padHdr := by omega
      have hnumber : (privateCanary + 2 ^ 16 * x.item) / 2 ^ 16 = x.item := by
        simp only [privateCanary]
        omega
      rw [uncached, if_pos (by omega)]
      apply turn_bind
      apply pass_bind (by rw [wrap32]; omega)
      apply rd32_bind (field_wrap header.word0)
      apply pass_bind (by simp only [privateCanary]; omega)
      apply rd32_bind (field_wrap header.length)
      apply rd32_bind (field_wrap hpads)
      simp only [hlow, hhigh, hnumber]
      apply pass_bind (by omega)
      by_cases hx : x.item = item
      · rw [if_pos hx]
        apply pass_bind (by omega)
        apply meets_pure
        intro b hb
        refine ⟨?_, hb⟩
        rw [wrap32_of_lt (by omega), ← range]
        simp [upwardOf, hx]
      · rw [if_neg hx, wrap32_of_lt (by omega)]
        apply (ih hf budget (by simpa using hbudget)).post
        intro r b hr
        simpa [upwardOf, hx] using hr

/-- The most recent cached entry is not an empty one. -/
def LastNonempty (l : List Allocation) : Prop := ∀ x, l.getLast? = some x → 0 < x.length

variable {x : Allocation} {Q : Item → Bus → Prop}

theorem cached_entry {slot data padData : ℕ}
    (header : EntryAt m (p.offset + (data + x.length)) x.item x.length padData)
    (aligned : (data + x.length) % 4 = 0) (data_aligned : data % 4 = 0)
    (pad_le : padData ≤ x.length) (range : x.range = ⟨p.offset + data, x.length - padData, true⟩)
    (hend : p.offset + p.size < 2 ^ 32) (hfits : data + x.length + privateEntry ≤ p.size)
    (habove : p.freeCached < data + x.length) (hdata : p.freeCached ≤ data) (item budget : ℕ)
    (hfound : x.item = item → ∀ b, Still s m b → Q x.range b)
    (hrest : x.item ≠ item → Meets (Still s m) (cached s p item slot budget (data - slot)) Q E) :
    Meets (Still s m) (cached s p item slot (budget + 1) (data + x.length : ℕ)) Q E := by
  have hentry : privateEntry = 16 := rfl
  have hpads := m.field_add 2 2 (p.offset + (data + x.length) + 8)
  rw [header.padData] at hpads
  have hpadData := header.padData ▸ m.field_lt 2 (p.offset + (data + x.length) + 8)
  have hitem := header.item ▸ m.field_lt 2 (p.offset + (data + x.length) + 2)
  have hlow : (padData + 256 ^ 2 * m.field 2 (p.offset + (data + x.length) + 8 + 2)) % 2 ^ 16 =
      padData := by omega
  have hnumber : (privateCanary + 2 ^ 16 * x.item) / 2 ^ 16 = x.item := by
    simp only [privateCanary]
    omega
  rw [cached, if_pos (by omega), u32_natCast (by omega)]
  apply turn_bind
  apply pass_bind (by omega)
  apply rd32_bind (field_wrap header.word0)
  apply pass_bind (by simp only [privateCanary]; omega)
  apply rd32_bind (field_wrap header.length)
  apply rd32_bind (field_wrap hpads)
  simp only [hlow, hnumber]
  have hbelow : ((data + x.length : ℕ) : ℤ) - x.length = (data : ℕ) := by omega
  apply pass_bind (by omega)
  by_cases hx : x.item = item
  · rw [if_pos hx, hbelow, u32_natCast (by omega)]
    apply pass_bind (by omega)
    apply meets_pure
    intro b hb
    rw [wrap32_of_lt (by omega), ← range]
    exact hfound hx b hb
  · rw [if_neg hx, hbelow]
    exact hrest hx

theorem cached_down {slot top limit : ℕ} {l : List Allocation}
    (hdown : Down m p.offset slot top limit l) (hlimit : limit = p.freeCached)
    (hslot : privateEntry ≤ slot) (htop : top ≤ p.size) (hend : p.offset + p.size < 2 ^ 32)
    (hlast : LastNonempty l) (item budget : ℕ) (hbudget : l.length ≤ budget) :
    Meets (Still s m) (cached s p item slot budget (top - slot))
      (fun r _ => ∃ x, l.find? (fun x => x.item = item) = some x ∧ r = x.range)
      (fun e _ => l.find? (fun x => x.item = item) = none ∧ e = .enoent) := by
  have hentry : privateEntry = 16 := rfl
  induction hdown generalizing budget with
  | nil top =>
    have hstop : cached s p item slot budget (top - slot) = throw .enoent := by
      cases budget with
      | zero => rw [cached, if_neg (by omega), if_neg (by omega)]
      | succ budget => rw [cached, if_neg (by omega), if_neg (by omega)]
    rw [hstop]
    exact meets_throw fun b _ => ⟨rfl, rfl⟩
  | cons header aligned data_aligned pad_le range rest_down ih =>
    rename_i data limit padData x rest
    cases budget with
    | zero => simp at hbudget
    | succ budget =>
      have hle := rest_down.entries_le
      -- an entry with entries below it is above the limit whatever its length
      have habove : p.freeCached < data + x.length := by
        cases rest with
        | nil =>
          have := hlast x rfl
          omega
        | cons y rest =>
          have := rest_down.slot_le (by simp)
          omega
      have hrest : LastNonempty rest := by
        intro y hy
        apply hlast y
        rw [List.getLast?_cons, hy]
        rfl
      have hc : (((data + x.length + slot : ℕ) : ℤ) - slot) = (data + x.length : ℕ) := by omega
      rw [hc]
      apply cached_entry header aligned data_aligned pad_le range hend (by omega) habove
        (by omega) item budget
      · intro hx b _
        exact ⟨x, by simp [hx], rfl⟩
      · intro hx
        apply (ih hlimit (by omega) hrest budget (by simpa using hbudget)).weaken
          (fun b hb => hb)
        · intro y b hy
          simpa [hx] using hy
        · intro e b he
          simpa [hx] using he

/-- An empty entry at the end of the chain is not reached: its header lies at the
limit, where the walk stops one slot early. -/
theorem cached_empty_last {slot top limit : ℕ} (l : List Allocation)
    (hdown : Down m p.offset slot top limit (l ++ [x])) (hlimit : limit = p.freeCached)
    (hslot : privateEntry ≤ slot) (htop : top ≤ p.size) (hend : p.offset + p.size < 2 ^ 32)
    (hempty : x.length = 0) (hnew : ∀ y ∈ l, y.item ≠ x.item) (budget : ℕ)
    (hbudget : l.length ≤ budget) :
    Meets (Still s m) (cached s p x.item slot budget (top - slot)) (fun _ _ => False)
      (fun e _ => e = .ecorrupt) := by
  have hentry : privateEntry = 16 := rfl
  induction l generalizing top budget with
  | nil =>
    obtain ⟨data, hdata⟩ : ∃ data, data = limit ∧ top = data + x.length + slot := by
      cases hdown with
      | cons header aligned data_aligned pad_le range rest_down =>
        cases rest_down with
        | nil => exact ⟨limit, rfl, rfl⟩
    have hstop : cached s p x.item slot budget (top - slot) = throw .ecorrupt := by
      cases budget with
      | zero => rw [cached, if_neg (by omega), if_pos (by omega)]
      | succ budget => rw [cached, if_neg (by omega), if_pos (by omega)]
    rw [hstop]
    exact meets_throw fun b _ => rfl
  | cons y l ih =>
    cases budget with
    | zero => simp at hbudget
    | succ budget =>
      cases hdown with
      | cons header aligned data_aligned pad_le range rest_down =>
        rename_i data padData
        have hbelow := rest_down.slot_le (by simp)
        have hc : (((data + y.length + slot : ℕ) : ℤ) - slot) = (data + y.length : ℕ) := by
          omega
        rw [hc]
        apply cached_entry header aligned data_aligned pad_le range hend (by omega) (by omega)
          (by omega) x.item budget
        · intro hy
          exact absurd hy (hnew y (by simp))
        · intro _
          exact ih rest_down (by omega) (fun z hz => hnew z (by simp [hz])) budget
            (by simpa using hbudget)

/-! ## The whole lookup -/

def entryOffset (s : Region) (index : ℕ) : ℕ :=
  s.ptableOffset.toNat + ptableHeader + index * ptableEntry

/-- Entry `index` of the region's table describes a partition of this shape. -/
structure Described (s : Region) (index : ℕ) (shape : Shape) (m : Memory) : Prop where
  index_lt : index < s.ptableEntries
  below_table : shape.offset + shape.size ≤ s.ptableOffset.toNat
  count : shape.count = s.itemCount.toNat
  offset : m.field 4 (entryOffset s index) = shape.offset
  size : m.field 4 (entryOffset s index + 4) = shape.size
  host0 : m.field 2 (entryOffset s index + 12) = shape.host0
  host1 : m.field 2 (entryOffset s index + 14) = shape.host1
  line : m.field 4 (entryOffset s index + 16) = shape.line

variable {shape : Shape} {m₀ : Memory} {h : Heap shape} {index : ℕ}

def Heap.partition (h : Heap shape) (index : ℕ) : Partition :=
  ⟨index, shape.offset, shape.size, shape.line, shape.host0, shape.host1, h.freeUncached,
    h.freeCached⟩

theorem entryOffset_bounds (hd : index < s.ptableEntries) :
    s.ptableOffset.toNat ≤ entryOffset s index ∧ entryOffset s index + 20 < 2 ^ 32 := by
  have htable := s.table_end
  have hentries := s.entries_le
  have hsize := s.size.toNat_lt
  simp only [entryOffset, tocBytes, maxPartitions, ptableHeader, ptableEntry] at *
  omega

theorem Laid.described (hl : Laid m₀ h) (hd : Described s index shape m₀) :
    Described s index shape h.memory := by
  have hbounds := (entryOffset_bounds hd.index_lt).1
  have hbelow := hd.below_table
  have hsame : ∀ i, entryOffset s index ≤ i → h.memory i = m₀ i := by
    intro i hi
    exact hl.outside i (by omega)
  exact {
    index_lt := hd.index_lt
    below_table := hd.below_table
    count := hd.count
    offset := (field_congr fun i _ _ => hsame i (by omega)).trans hd.offset
    size := (field_congr fun i _ _ => hsame i (by omega)).trans hd.size
    host0 := (field_congr fun i _ _ => hsame i (by omega)).trans hd.host0
    host1 := (field_congr fun i _ _ => hsame i (by omega)).trans hd.host1
    line := (field_congr fun i _ _ => hsame i (by omega)).trans hd.line }

def Shape.entry (shape : Shape) (index : ℕ) : Partition :=
  ⟨index, shape.offset, shape.size, shape.line, shape.host0, shape.host1, 0, 0⟩

section

variable (hd : Described s index shape m)
include hd

theorem readEntry_described :
    Meets (Still s m) (readEntry s index) (fun p b => p = shape.entry index ∧ Still s m b) E := by
  have hbounds := (entryOffset_bounds hd.index_lt).2
  have he : wrap32 (s.ptableOffset.toNat + ptableHeader + index * ptableEntry) =
      entryOffset s index := wrap32_of_lt (by rw [← entryOffset]; omega)
  unfold readEntry
  simp only [he]
  apply rd32_bind hd.offset
  apply rd32_bind (field_wrap hd.size)
  apply rd16_bind (field_wrap hd.host0)
  apply rd16_bind (field_wrap hd.host1)
  apply rd32_bind (field_wrap hd.line)
  exact meets_pure fun b hb => ⟨rfl, hb⟩

theorem entryStatus_described :
    entryStatus s (shape.entry index) = none := by
  have hpos := shape.offset_pos
  have hpage := shape.page_aligned
  have hheader := shape.header_le
  have hsize := shape.size_aligned
  have hbelow := hd.below_table
  have hsize_pos : partitionHeader = 32 := rfl
  rw [entryStatus, if_neg (by simp only [Shape.entry]; omega),
    if_neg (by simp only [Shape.entry]; omega)]

theorem tableEntry_described :
    Meets (Still s m) (tableEntry s index) (fun p b => p = shape.entry index ∧ Still s m b) E := by
  unfold tableEntry
  apply pass_bind (by have := hd.index_lt; omega)
  apply (readEntry_described hd).bind
  intro p
  apply meets_assume (fun _ hb => hb.1)
  rintro rfl
  rw [entryStatus_described hd]
  exact meets_pure fun b hb => hb

end

theorem partitionAt_laid (hl : Laid m₀ h) (hd : Described s index shape h.memory) :
    Meets (Still s h.memory) (partitionAt s index)
      (fun p b => p = h.partition index ∧ Still s h.memory b) E := by
  have hend := shape.end_lt
  have hheader := shape.header_le
  have hfree := hl.header_le
  have happart := hl.apart
  have hsize := hl.free_le
  have happs := shape.apps
  have hpart : partitionHeader = 32 := rfl
  unfold partitionAt
  apply (tableEntry_described hd).bind
  intro p
  apply meets_assume (fun _ hb => hb.1)
  rintro rfl
  apply Meets.pre _ (fun _ hb => hb.2)
  simp only [Shape.entry]
  apply pass_bind (by tauto)
  apply rd32_bind hl.header.magic
  apply pass_bind (by simp)
  apply rd16_bind (field_wrap hl.header.host0)
  apply pass_bind (by simp)
  apply rd16_bind (field_wrap hl.header.host1)
  apply pass_bind (by simp)
  apply rd32_bind (field_wrap hl.header.size)
  apply pass_bind (by simp)
  apply rd32_bind (field_wrap hl.free.uncached)
  apply rd32_bind (field_wrap hl.free.cached)
  apply pass_bind (by omega)
  exact meets_pure fun b hb => ⟨rfl, hb⟩

theorem slotOf_line (shape : Shape) : slotOf shape.line = shape.slot := by
  obtain ⟨k, hk, hline⟩ := shape.line_two_pow
  rw [shape.slot_eq, hline, slotOf_two_pow hk]

theorem Shape.line_accepted (shape : Shape) :
    ¬(shape.line = 0 ∨ shape.line &&& (shape.line - 1) ≠ 0 ∨ shape.line > 4096) := by
  obtain ⟨k, hk, hline⟩ := shape.line_two_pow
  rw [hline]
  interval_cases k <;> decide

theorem get_laid (hl : Laid m₀ h) (hd : Described s index shape h.memory)
    (hitem : item < shape.count)
    (hfound : ∀ x, h.uncached.find? (fun x => x.item = item) = some x →
      ∀ b, Still s h.memory b → Q x.range b)
    (hmissing : h.uncached.find? (fun x => x.item = item) = none →
      Meets (Still s h.memory) (refuseIf (shape.slot > shape.size) .ecorrupt >>= fun _ =>
        cached s (h.partition index) item shape.slot
          (shape.size / privateEntry + 1 - h.uncached.length) (shape.size - shape.slot)) Q E) :
    Meets (Still s h.memory) (get s (h.partition index) item) Q E := by
  have hcount := shape.count_lt
  have hentries := hl.up.entries_le
  have happart := hl.apart
  have hfree := hl.free_le
  have hlength : h.uncached.length ≤ shape.size / privateEntry + 1 := by
    simp only [privateEntry] at *
    omega
  unfold get
  apply pass_bind (by rw [← hd.count]; omega)
  have hwalk : Meets (Still s h.memory)
      (uncached s (h.partition index) item (shape.size / privateEntry + 1) partitionHeader)
      (fun r b => r = upwardOf item h.freeUncached (shape.size / privateEntry + 1) h.uncached ∧
        Still s h.memory b) E :=
    uncached_up hl.up rfl (show h.freeUncached ≤ shape.size by omega) shape.end_lt item _ hlength
  apply hwalk.bind
  intro r
  apply meets_assume (fun _ hb => hb.1)
  rintro rfl
  apply Meets.pre _ (fun _ hb => hb.2)
  cases hsearch : h.uncached.find? (fun x => x.item = item) with
  | some x =>
    simp only [upwardOf, hsearch]
    exact meets_pure (hfound x hsearch)
  | none =>
    simp only [upwardOf, hsearch]
    apply pass_bind (by simp [Heap.partition])
    apply pass_bind shape.line_accepted
    show Meets _ (refuseIf (slotOf shape.line > shape.size) .ecorrupt >>= fun _ =>
      cached s (h.partition index) item (slotOf shape.line) _ (shape.size - slotOf shape.line)) Q E
    rw [slotOf_line]
    exact hmissing hsearch

theorem Laid.length_le (hl : Laid m₀ h) :
    h.cached.length ≤ shape.size / privateEntry + 1 - h.uncached.length := by
  have hup := hl.up.entries_le
  have hdown := hl.down.entries_le
  have happart := hl.apart
  have hslot := Nat.mul_le_mul_right h.cached.length shape.privateEntry_le_slot
  simp only [privateEntry] at *
  omega

def lookup (s : Region) (index item : ℕ) : Parse Item := do
  let p ← partitionAt s index
  get s p item

theorem Laid.find?_eq (hl : Laid m₀ h) (hx : x ∈ h.allocations) :
    h.allocations.find? (fun y => y.item = x.item) = some x := by
  cases hfind : h.allocations.find? (fun y => y.item = x.item) with
  | none => simpa using List.find?_eq_none.mp hfind x hx
  | some y =>
    have hitem : y.item = x.item := by simpa using List.find?_some hfind
    have hmem := mem_of_find?_eq_some hfind
    rw [inj_on_of_nodup_map hl.distinct hmem hx hitem]

section

variable (hl : Laid m₀ h) (hd : Described s index shape m₀)

include hl hd

theorem meets_lookup
    (hget : Described s index shape h.memory →
      Meets (Still s h.memory) (get s (h.partition index) item) Q E) :
    Meets (Still s h.memory) (lookup s index item) Q E := by
  apply (partitionAt_laid hl (hl.described hd)).bind
  intro p
  apply meets_assume (fun _ hb => hb.1)
  rintro rfl
  exact (hget (hl.described hd)).pre fun _ hb => hb.2

theorem lookup_laid (hitem : item < shape.count)
    (hlast : LastNonempty h.cached) (hroom : shape.slot ≤ shape.size) :
    Meets (Still s h.memory) (lookup s index item)
      (fun r _ => ∃ x, h.allocations.find? (fun x => x.item = item) = some x ∧ r = x.range)
      (fun e _ => h.allocations.find? (fun x => x.item = item) = none ∧ e = .enoent) := by
  apply meets_lookup hl hd
  intro hd
  apply get_laid hl hd hitem
  · intro x hx b _
    exact ⟨x, by rw [Heap.allocations, List.find?_append, hx]; rfl, rfl⟩
  · intro hnone
    apply pass_bind (by omega)
    rw [Heap.allocations, List.find?_append, hnone, Option.none_or]
    exact cached_down hl.down rfl shape.privateEntry_le_slot le_rfl shape.end_lt hlast item _
      hl.length_le

theorem lookup_uncached (hx : h.uncached.find? (fun y => y.item = x.item) = some x)
    (hitem : x.item < shape.count) :
    Meets (Still s h.memory) (lookup s index x.item) (fun r _ => r = x.range) E := by
  apply meets_lookup hl hd
  intro hd
  apply get_laid hl hd hitem
  · intro y hy b _
    rw [hx] at hy
    cases hy
    rfl
  · intro hnone
    rw [hx] at hnone
    cases hnone

theorem lookup_no_room (hitem : item < shape.count)
    (hnone : h.uncached.find? (fun x => x.item = item) = none)
    (hroom : shape.size < shape.slot) :
    Meets (Still s h.memory) (lookup s index item) (fun _ _ => False)
      (fun e _ => e = .ecorrupt) := by
  apply meets_lookup hl hd
  intro hd
  apply get_laid hl hd hitem
  · intro x hx
    rw [hnone] at hx
    cases hx
  · intro _
    exact refuse_bind hroom fun _ _ => rfl

theorem lookup_empty_last (hlast : h.cached.getLast? = some x) (hempty : x.length = 0) :
    Meets (Still s h.memory) (lookup s index x.item) (fun _ _ => False)
      (fun e _ => e = .ecorrupt) := by
  obtain ⟨l, hl'⟩ : ∃ l, h.cached = l ++ [x] :=
    ⟨h.cached.dropLast, (dropLast_append_getLast? x hlast).symm⟩
  have hx : x ∈ h.allocations := mem_append_right _ (mem_of_getLast? hlast)
  have hdown := hl.down
  have hlength := hl.length_le
  have hroom := hdown.slot_le (by simp [hl'])
  have hdistinct := hl.distinct
  rw [Heap.allocations, hl', map_append, map_append] at hdistinct
  rw [hl'] at hdown hlength
  simp only [length_append, length_singleton] at hlength
  apply meets_lookup hl hd
  intro hd
  apply get_laid hl hd (hl.counted x hx)
  · intro y hy
    have hitem : y.item = x.item := by simpa using List.find?_some hy
    have hmem := mem_of_find?_eq_some hy
    have hne := (nodup_append.mp hdistinct).2.2 y.item (mem_map_of_mem hmem) x.item
      (by simp)
    exact absurd hitem hne
  · intro _
    apply pass_bind (by omega)
    apply cached_empty_last l hdown rfl shape.privateEntry_le_slot le_rfl shape.end_lt hempty
      _ _ (by omega)
    intro y hy
    exact (nodup_append.mp (nodup_append.mp hdistinct).2.1).2.2 y.item
      (mem_map_of_mem hy) x.item (by simp)

end

/-- What the lookup owes the allocator: every allocated item is found as allocated,
and any other item below the count is absent. -/
def Agrees (s : Region) (index : ℕ) (h : Heap shape) : Prop :=
  (∀ x ∈ h.allocations, ∀ b, Still s h.memory b → ∃ t, lookup s index x.item b = .ok x.range t) ∧
  ∀ item < s.itemCount.toNat, item ∉ h.allocations.map Allocation.item →
    ∀ b, Still s h.memory b → ∃ t, lookup s index item b = .error .enoent t

/-- A bus over memory that nobody else writes. -/
def Bus.over (s : Region) (m : Memory) : Bus where
  remote _ l := UInt32.ofNat (m.field l.width (l.address - s.base))
  loads := []
  turns := 0

theorem still_over (s : Region) (m : Memory) : Still s m (Bus.over s m) := fun _ _ => rfl

theorem Heap.find?_uncached_none (h : Heap shape)
    (hnot : item ∉ h.allocations.map Allocation.item) :
    h.uncached.find? (fun x => x.item = item) = none := by
  apply List.find?_eq_none.mpr
  intro x hx hitem
  exact hnot (mem_map.mpr ⟨x, mem_append_left _ hx, by simpa using hitem⟩)

theorem Laid.finds (hl : Laid m₀ h) (hd : Described s index shape m₀)
    (hlast : LastNonempty h.cached) (hroom : shape.slot ≤ shape.size) :
    ∀ x ∈ h.allocations, ∀ b, Still s h.memory b →
      ∃ t, lookup s index x.item b = .ok x.range t := by
  intro x hx b hb
  have hlook := lookup_laid hl hd (hl.counted x hx) hlast hroom
  rw [hl.find?_eq hx] at hlook
  cases hrun : lookup s index x.item b with
  | ok r t =>
    obtain ⟨y, hy, rfl⟩ := hlook.ok hb hrun
    cases hy
    exact ⟨t, rfl⟩
  | error e t =>
    have hnone := (hlook.error hb hrun).1
    cases hnone

theorem Laid.misses (hl : Laid m₀ h) (hd : Described s index shape m₀)
    (hlast : LastNonempty h.cached) (hroom : shape.slot ≤ shape.size) :
    ∀ item < s.itemCount.toNat, item ∉ h.allocations.map Allocation.item →
      ∀ b, Still s h.memory b → ∃ t, lookup s index item b = .error .enoent t := by
  intro item hitem hnot b hb
  have hlook := lookup_laid hl hd (hd.count ▸ hitem) hlast hroom
  cases hrun : lookup s index item b with
  | ok r t =>
    obtain ⟨y, hy, _⟩ := hlook.ok hb hrun
    have hyitem : y.item = item := by simpa using List.find?_some hy
    exact absurd (mem_map.mpr ⟨y, mem_of_find?_eq_some hy, hyitem⟩) hnot
  | error e t =>
    rw [(hlook.error hb hrun).2]
    exact ⟨t, rfl⟩

/-- A partition of the sample region with room for two headers and a few bytes. -/
def smallShape : Shape where
  offset := 0x1000
  size := 256
  line := 32
  host0 := 0
  host1 := 19
  count := 512
  offset_pos := by decide
  page_aligned := by decide
  header_le := by decide
  size_aligned := by decide
  end_lt := by decide
  line_two_pow := ⟨5, by decide⟩
  apps := .inl rfl
  host0_lt := by decide
  host1_lt := by decide
  count_lt := by decide

/-- Memory with the small partition's table entry and nothing else. -/
def smallTable : Memory :=
  (((Memory.zero.setField 4 0x2020 0x1000).setField 4 0x2024 256).setField 2 0x202e 19).setField 4
    0x2030 32

theorem smallTable_described : Described sampleRegion 0 smallShape smallTable := by
  constructor <;> decide +kernel

end Q1n1.Smem
