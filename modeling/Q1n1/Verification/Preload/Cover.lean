import Q1n1.Model.Preload.Cache

/-! # What a resident cache occupies -/

namespace Q1n1.Preload

open List Bytes

def Covers (regions : List Region) (kind : ℕ) (range : ℕ × ℕ) : Prop :=
  ∀ a, range.1 ≤ a → a < range.2 → ∃ r ∈ regions, r.kind = kind ∧ r.lo ≤ a ∧ a < r.hi

def Apart (ranges : List (ℕ × ℕ)) : Prop := ranges.Pairwise fun a b => overlap b a = false

variable {ranges : List (ℕ × ℕ)} {regions : List Region}

/-- The scan is exact on sorted ranges: once one starts above the cursor, no later one
holds the byte at the cursor. -/
theorem coveredFrom_iff {stop cursor : ℕ} (hsorted : ranges.Pairwise fun p q => p.1 ≤ q.1)
    (hlt : cursor < stop) : coveredFrom stop cursor ranges = true ↔
      ∀ a, cursor ≤ a → a < stop → ∃ p ∈ ranges, p.1 ≤ a ∧ a < p.2 := by
  induction ranges generalizing cursor with
  | nil =>
    have h := fun hall : ∀ a, cursor ≤ a → ¬a < stop => hall cursor (le_refl _) hlt
    simpa [coveredFrom] using h
  | cons p rest ih =>
    obtain ⟨hfirst, hrest⟩ := pairwise_cons.mp hsorted
    simp only [coveredFrom, exists_mem_cons_iff]
    split_ifs with hin hstop
    · exact iff_of_true rfl fun a hle ha => .inl ⟨by omega, by omega⟩
    · rw [ih hrest (by omega)]
      refine ⟨fun h a hle ha => ?_, fun h a hle ha => ?_⟩
      · by_cases hhi : a < p.2
        · exact .inl ⟨by omega, hhi⟩
        · exact .inr (h a (by omega) ha)
      · exact (h a (by omega) ha).resolve_left (by omega)
    · rw [ih hrest hlt]
      refine ⟨fun h a hle ha => .inr (h a hle ha), fun h a hle ha => ?_⟩
      obtain hhead | ⟨q, hq, hlo, hhi⟩ := h cursor (le_refl _) hlt
      · exact absurd hhead hin
      · have := hfirst q hq
        exact (h a hle ha).resolve_left (by omega)

theorem pairLe_iff {a b : ℕ × ℕ} :
    pairLe a b = true ↔ a.1 < b.1 ∨ a.1 = b.1 ∧ a.2 ≤ b.2 := by
  simp [pairLe]

theorem pairwise_sorted (ranges : List (ℕ × ℕ)) :
    (ranges.mergeSort pairLe).Pairwise fun p q => p.1 ≤ q.1 := by
  refine (pairwise_mergeSort (fun a b c => ?_) (fun a b => ?_) ranges).imp ?_
  · simp only [pairLe_iff]
    omega
  · simp only [pairLe_iff, Bool.or_eq_true]
    omega
  · simp only [pairLe_iff]
    omega

theorem covered_iff {kind base size : ℕ} : covered regions kind base size = true ↔
    base ≠ 0 ∧ 0 < size ∧ Covers regions kind (base, base + size) := by
  rw [covered]
  split_ifs with hrefuse
  · refine iff_of_false (by simp) fun ⟨hbase, hsize, hcovers⟩ => ?_
    obtain ⟨r, -, -, -, hhi⟩ := hcovers (base + size - 1) (by omega) (by omega)
    have := r.fits
    simp at hrefuse
    omega
  · simp only [Bool.or_eq_true, decide_eq_true_eq, not_or] at hrefuse
    rw [coveredFrom_iff (pairwise_sorted _) (by omega)]
    simp [Covers, and_assoc, hrefuse, Nat.pos_of_ne_zero]

theorem cachedFiles_apart {raw : List UInt8} {n i total : ℕ} {paths : List (List UInt8)}
    {files : List Entry} (h : cachedFiles regions raw n i total ranges paths = some files)
    (hranges : Apart ranges) :
    Apart (ranges ++ files.map Entry.range) ∧ ∀ e ∈ files, Covers regions 2 e.range := by
  induction n generalizing i total ranges paths files with
  | zero =>
    obtain rfl : [] = files := by simpa [cachedFiles] using h
    exact ⟨by simpa using hranges, by simp⟩
  | succ n ih =>
    rw [cachedFiles] at h
    generalize entryOf (raw.drop (headerBytes + i * entryBytes)) = e at h
    split_ifs at h with hentry hover hpath
    obtain ⟨rest, hrest, rfl⟩ := Option.map_eq_some_iff.mp h
    simp only [Bool.or_eq_true, Bool.not_eq_true', not_or, Bool.not_eq_false] at hentry
    have happart : Apart (ranges ++ [e.range]) :=
      pairwise_append.mpr ⟨hranges, pairwise_singleton _ _, by simpa using hover⟩
    obtain ⟨hpairs, hcovers⟩ := ih hrest happart
    rw [append_assoc] at hpairs
    exact ⟨hpairs, forall_mem_cons.mpr ⟨(covered_iff.mp hentry.2).2.2, hcovers⟩⟩

/-- The cover test is exact, and the ranges of a cache that is accepted, its table's first,
lie apart in loader data. -/
theorem covered_exact_residentCache (regions : List Region) (kind base size : ℕ) (m : Memory)
    (info : Info) (files : List Entry) :
    (covered regions kind base size = true ↔
      base ≠ 0 ∧ 0 < size ∧ Covers regions kind (base, base + size)) ∧
    (residentCache m info = some files → files ≠ [] → ∃ regions,
      memoryRegions m info = some regions ∧
        let ranges := (info.preloadTable, info.preloadTable + pageAlign info.preloadSize) ::
          files.map Entry.range
        Apart ranges ∧ ∀ range ∈ ranges, Covers regions 2 range) := by
  refine ⟨covered_iff, fun h hfiles => ?_⟩
  rw [residentCache] at h
  split_ifs at h with hnone
  · cases h
    exact absurd rfl hfiles
  obtain ⟨regions, hregions, h⟩ := Option.bind_eq_some_iff.mp h
  dsimp only at h
  split_ifs at h with hcover
  obtain ⟨hpairs, hcovers⟩ := cachedFiles_apart h (pairwise_singleton _ _)
  have htable := (covered_iff.mp (by simpa using hcover)).2.2
  refine ⟨regions, hregions, hpairs, forall_mem_cons.mpr ⟨htable, ?_⟩⟩
  simpa using hcovers

/-! ## A cache of one file -/

/-- A page of boot code, then the pages of the table and the file. -/
def smallMap : List UInt8 :=
  [(1, 0x1000, 1), (2, 0x2000, 3)].flatMap fun (kind, start, pages) =>
    putLe 8 kind ++ putLe 8 start ++ putLe 8 0 ++ putLe 8 pages ++ putLe 8 0

/-- `\a`, of one byte. -/
def smallTable : List UInt8 :=
  [cacheMagic, 1, 1, entryBytes, 0x4000, 4096, 1, 0, 0, 0, 0].flatMap (putLe 8) ++
    [backslash, 0x61]

def smallMemory : Memory :=
  Memory.store (Memory.store (fun _ => 0) 0x1000 smallMap) 0x2000 smallTable

def smallInfo : Info where
  memoryMap := 0x1000
  memoryMapSize := 80
  memoryMapStride := 40
  preloadTable := 0x2000
  preloadSize := cacheBytes
  preloadVerify := 0x1100

theorem covered_exact_residentCache_small : ∃ files regions,
    residentCache smallMemory smallInfo = some files ∧ files.length = 1 ∧
      memoryRegions smallMemory smallInfo = some regions ∧
      ∀ range ∈ (0x2000, 0x4000) :: files.map Entry.range, Covers regions 2 range := by
  obtain ⟨files, hfiles, hone⟩ : ∃ files ∈ residentCache smallMemory smallInfo,
      files.length = 1 := by decide +kernel
  obtain ⟨regions, hregions, -, hcovers⟩ := (covered_exact_residentCache [] 2 0 0 smallMemory
    smallInfo files).2 hfiles (List.ne_nil_of_length_eq_add_one hone)
  exact ⟨files, regions, hfiles, hone, hregions, hcovers⟩

end Q1n1.Preload
