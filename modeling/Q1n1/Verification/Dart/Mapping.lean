import Q1n1.Verification.Dart.Lookups

/-! # DART tables as a partial map

A `Space` says which physical page each page shows. Mapping, unmapping and freeing are
stated on it page by page, without tables, and every run of calls on the tables is a
run of the same calls on the space. -/

namespace Q1n1.Dart

open List

variable {t : DartType} {d : Tables} {heap : Memalign t}

theorem unmapPages_spec (heap : Memalign t) (n : ℕ) {q : ℕ} (hw : Wf t d) (hq : q + n ≤ 2 ^ 22) :
    Wf t (unmapPages heap n (q * pageSize) d) ∧ ∀ page,
      (unmapPages heap n (q * pageSize) d).lookup t page =
        if q ≤ page ∧ page < q + n then none else d.lookup t page := by
  induction n generalizing q d with
  | zero =>
    refine ⟨hw, ?_⟩
    intro page
    rw [if_neg (by omega)]
    rfl
  | succ n ih =>
    have hnext : (q * pageSize + pageSize) % 2 ^ 64 = (q + 1) * pageSize := by
      simp only [pageSize]
      omega
    obtain ⟨hwf, hfirst⟩ := unmapPage_spec heap hw (show q < 2 ^ 22 by omega)
    rw [unmapPages, hnext]
    obtain ⟨hrest, hlookup⟩ := ih hwf (show q + 1 + n ≤ 2 ^ 22 by omega)
    refine ⟨hrest, ?_⟩
    intro page
    rw [hlookup, hfirst]
    grind

theorem unmap_spec (heap : Memalign t) {q n : ℕ} (hw : Wf t d) (hq : n = 0 ∨ q + n ≤ 2 ^ 22) :
    Wf t (unmap heap d (q * pageSize) (n * pageSize)) ∧ ∀ page,
      (unmap heap d (q * pageSize) (n * pageSize)).lookup t page =
        if q ≤ page ∧ page < q + n then none else d.lookup t page := by
  rw [unmap, if_neg (by simp), if_neg (by simp), Nat.mul_div_cancel n (by decide)]
  rcases hq with rfl | hq
  · refine ⟨hw, ?_⟩
    intro page
    rw [if_neg (by omega)]
    rfl
  · exact unmapPages_spec heap n hw hq

/-- The loop of a map over `n` pages from page `q + k` on, with `k` pages before them. -/
structure MappedPages (t : DartType) (d : Tables) (q k n paddr : ℕ) (r : Bool × Tables) :
    Prop where
  wf : Wf t r.2
  ok : r.1 = true ↔ ∀ page, q + k ≤ page → page < q + k + n → d.lookup t page = none
  mapped : r.1 = true → ∀ page, r.2.lookup t page =
    if q + k ≤ page ∧ page < q + k + n then some (paddr + (page - q) * pageSize)
    else d.lookup t page
  undone : r.1 = false → ∀ page, r.2.lookup t page =
    if q ≤ page ∧ page < q + k then none else d.lookup t page

/-- Pages that were mapped before a refused one are unmapped again, which needs them to
be under the first root. -/
theorem mapPages_spec (heap : Memalign t) {q paddr : ℕ} (halign : paddr % pageSize = 0) (n : ℕ)
    {k : ℕ} (hw : Wf t d) (hq : q + k + n ≤ 2 ^ 24) (hp : paddr + (k + n) * pageSize ≤ t.physEnd)
    (hundo : q + k + n ≤ 2 ^ 22 ∨
      (∀ page, q + k ≤ page → page < q + k + n → d.lookup t page = none) ∨
      k = 0 ∧ d.lookup t q ≠ none) :
    MappedPages t d q k n paddr (mapPages heap (q * pageSize) paddr 0 n k d) := by
  induction n generalizing k d with
  | zero =>
    refine ⟨hw, ?_, ?_, ?_⟩
    · refine iff_of_true rfl ?_
      intro page _ _
      omega
    · intro _ page
      rw [if_neg (by omega)]
      rfl
    · intro h
      cases h
  | succ n ih =>
    have hend : t.physEnd ≤ 2 ^ 44 := by cases t <;> decide
    have hiova : (q * pageSize + k * pageSize) % 2 ^ 64 = (q + k) * pageSize := by
      simp only [pageSize]
      omega
    have hpaddr : (paddr + k * pageSize) % 2 ^ 64 = paddr + k * pageSize := by
      simp only [pageSize] at hp ⊢
      omega
    have hpage := mapPage_spec heap hw (show q + k < 2 ^ 24 by omega)
      (show paddr + k * pageSize < t.physEnd by simp only [pageSize] at hp ⊢; omega)
      (show (paddr + k * pageSize) % pageSize = 0 by rw [Nat.add_mul_mod_self_right, halign])
    simp only [mapPages, hiova, hpaddr]
    generalize mapPage heap d ((q + k) * pageSize) (paddr + k * pageSize) 0 = r at hpage
    obtain ⟨ok, e⟩ := r
    obtain ⟨hwf, hok, hlookup⟩ := hpage
    simp only at hwf hok hlookup ⊢
    cases ok with
    | true =>
      have hnone : d.lookup t (q + k) = none := by simpa using hok
      simp only [hnone, and_true] at hlookup
      have hrest := ih hwf (k := k + 1) (by omega)
        (by rwa [add_assoc k 1 n, add_comm 1 n]) (by
          rcases hundo with hlow | hfree | ⟨rfl, hmapped⟩
          · exact .inl (by omega)
          · refine .inr (.inl ?_)
            intro page hle hlt
            rw [hlookup, if_neg (by omega)]
            exact hfree page (by omega) (by omega)
          · exact absurd hnone hmapped)
      simp only [if_true]
      refine ⟨hrest.wf, ?_, ?_, ?_⟩
      · rw [hrest.ok]
        constructor
        · intro hfree page hle hlt
          by_cases hpage : page = q + k
          · rw [hpage, hnone]
          · have hsame := hlookup page
            rw [if_neg hpage] at hsame
            rw [← hsame]
            exact hfree page (by omega) (by omega)
        · intro hfree page hle hlt
          rw [hlookup, if_neg (by omega)]
          exact hfree page (by omega) (by omega)
      · intro h page
        rw [hrest.mapped h, hlookup]
        by_cases hpage : page = q + k
        · have hoffset : page - q = k := by omega
          rw [if_neg (by omega), if_pos hpage, if_pos (by omega), hoffset]
        · grind
      · intro h page
        rw [hrest.undone h, hlookup]
        by_cases hpage : page = q + k
        · rw [if_pos (by omega), if_neg (by omega), hpage, hnone]
        · grind
    | false =>
      have hsome : d.lookup t (q + k) ≠ none := by
        intro hnone
        rw [hnone] at hok
        cases hok
      have hsame : ∀ page, e.lookup t page = d.lookup t page := by
        intro page
        rw [hlookup, if_neg (fun h => hsome h.2)]
      have hrange : k = 0 ∨ q + k ≤ 2 ^ 22 := by
        rcases hundo with hlow | hfree | ⟨hzero, _⟩
        · exact .inr (by omega)
        · exact absurd (hfree (q + k) le_rfl (by omega)) hsome
        · exact .inl hzero
      obtain ⟨hundone, hafter⟩ := unmap_spec heap hwf hrange
      refine ⟨hundone, ?_, ?_, ?_⟩
      · refine iff_of_false (by simp) ?_
        intro hfree
        exact hsome (hfree (q + k) le_rfl (by omega))
      · intro h
        cases h
      · intro _ page
        show (unmap heap e _ _).lookup t page = _
        rw [hafter, hsame]

/-! ## The space -/

abbrev Space := ℕ → Option ℕ

inductive Call
  | map (iova paddr len : ℕ)
  | unmap (iova len : ℕ)
  | freeL2 (iova : ℕ)

namespace Space

def Free (s : Space) (first count : ℕ) : Prop := ∀ k < count, s (first + k) = none

instance (s : Space) (first count : ℕ) : Decidable (s.Free first count) :=
  inferInstanceAs (Decidable (∀ k < count, s (first + k) = none))

/-- Pages from `first` on show the physical pages from `paddr` on. -/
def put (s : Space) (first count paddr : ℕ) : Space := fun page =>
  if first ≤ page ∧ page < first + count then some (paddr + (page - first) * pageSize) else s page

def drop (s : Space) (first count : ℕ) : Space := fun page =>
  if first ≤ page ∧ page < first + count then none else s page

/-- What a call is for: whether it succeeds and the space after it. -/
def call (s : Space) : Call → Bool × Space
  | .map iova paddr len =>
    if len % pageSize = 0 ∧ paddr % pageSize = 0 ∧ iova % pageSize = 0 ∧
        s.Free (iova / pageSize) (len / pageSize) then
      (true, s.put (iova / pageSize) (len / pageSize) paddr)
    else (false, s)
  | .unmap iova len =>
    if len % pageSize = 0 ∧ iova % pageSize = 0 then
      (true, s.drop (iova / pageSize) (len / pageSize))
    else (true, s)
  | .freeL2 _ => (true, s)

def run (s : Space) : List Call → List Bool × Space
  | [] => ([], s)
  | c :: calls =>
    let r := s.call c
    let rest := run r.2 calls
    (r.1 :: rest.1, rest.2)

end Space

def step (heap : Memalign t) (d : Tables) : Call → Bool × Tables
  | .map iova paddr len => map heap d iova paddr len
  | .unmap iova len => (true, unmap heap d iova len)
  | .freeL2 iova => (true, freeL2 heap d iova)

def run (heap : Memalign t) (d : Tables) : List Call → List Bool × Tables
  | [] => ([], d)
  | c :: calls =>
    let r := step heap d c
    let rest := run heap r.2 calls
    (r.1 :: rest.1, rest.2)

/-- Addresses under the type's roots, and physical addresses that its entries can hold. -/
def Call.InRange (t : DartType) : Call → Prop
  | .map iova paddr len => iova + len ≤ t.pageEnd * pageSize ∧ paddr + len ≤ t.physEnd
  | .unmap iova len => iova + len ≤ t.pageEnd * pageSize
  | .freeL2 iova => iova < t.pageEnd * pageSize

/-- Nothing has to be unmapped, and no table freed, under another root than the first. -/
def Call.Proper (s : Space) : Call → Prop
  | .map iova _ len => iova + len ≤ 2 ^ 36 ∨ s.Free (iova / pageSize) (len / pageSize) ∨
      s (iova / pageSize) ≠ none
  | .unmap iova len => iova + len ≤ 2 ^ 36
  | .freeL2 iova => iova < 2 ^ 36 ∨ iova % 2 ^ 25 ≠ 0

def ProperRun (s : Space) : List Call → Prop
  | [] => True
  | c :: calls => c.Proper s ∧ ProperRun (s.call c).2 calls

/-! ## Refinement -/

/-- The tables show the space, all of whose pages lie under the type's roots. -/
structure Shows (t : DartType) (d : Tables) (s : Space) : Prop where
  wf : Wf t d
  lookup : ∀ page, d.lookup t page = s page
  bound : ∀ page, s page ≠ none → page < t.pageEnd

theorem shows_init (t : DartType) : Shows t init fun _ => none :=
  ⟨wf_init, lookup_init, fun _ h => absurd rfl h⟩

theorem Space.free_iff (s : Space) (first count : ℕ) :
    s.Free first count ↔ ∀ page, first ≤ page → page < first + count → s page = none := by
  constructor
  · intro h page hle hlt
    have := h (page - first) (by omega)
    rwa [Nat.add_sub_cancel' hle] at this
  · intro h k hk
    exact h _ (by omega) (by omega)

variable {s : Space}

theorem Shows.keep {d' : Tables} (hs : Shows t d s) (hwf : Wf t d')
    (hsame : ∀ page, d'.lookup t page = d.lookup t page) : Shows t d' s :=
  ⟨hwf, fun page => (hsame page).trans (hs.lookup page), hs.bound⟩

theorem mapPages_refines (heap : Memalign t) (hs : Shows t d s) {q n paddr : ℕ}
    (halign : paddr % pageSize = 0) (hq : q + n ≤ t.pageEnd) (hp : paddr + n * pageSize ≤ t.physEnd)
    (hproper : q + n ≤ 2 ^ 22 ∨ s.Free q n ∨ s q ≠ none) :
    let r := mapPages heap (q * pageSize) paddr 0 n 0 d
    r.1 = decide (s.Free q n) ∧ Shows t r.2 (if s.Free q n then s.put q n paddr else s) := by
  have hend := t.pageEnd_le
  have hlookup : d.lookup t = s := funext hs.lookup
  have hmap := mapPages_spec heap halign n hs.wf (q := q) (k := 0) (by omega)
    (by rwa [zero_add]) (by
      rw [add_zero, hlookup, ← s.free_iff]
      rcases hproper with hlow | hfree | hfirst
      · exact .inl hlow
      · exact .inr (.inl hfree)
      · exact .inr (.inr ⟨rfl, hfirst⟩))
  obtain ⟨hwf, hok, hmapped, hundone⟩ := hmap
  simp only [add_zero, hlookup, ← s.free_iff] at hok hmapped hundone
  intro r
  by_cases hfree : s.Free q n
  · have htrue : r.1 = true := hok.mpr hfree
    rw [if_pos hfree, htrue]
    refine ⟨by simp [hfree], hwf, hmapped htrue, ?_⟩
    intro page hpage
    rw [Space.put] at hpage
    split at hpage
    · omega
    · exact hs.bound page hpage
  · have hfalse : r.1 = false := by
      rw [← Bool.not_eq_true]
      exact fun h => hfree (hok.mp h)
    rw [if_neg hfree, hfalse]
    refine ⟨by simp [hfree], hs.keep hwf ?_⟩
    intro page
    rw [hundone hfalse, if_neg (by omega), hlookup]

theorem map_refines (heap : Memalign t) (hs : Shows t d s) {iova paddr len : ℕ}
    (hrange : (Call.map iova paddr len).InRange t) (hproper : (Call.map iova paddr len).Proper s) :
    (map heap d iova paddr len).1 = (s.call (.map iova paddr len)).1 ∧
      Shows t (map heap d iova paddr len).2 (s.call (.map iova paddr len)).2 := by
  simp only [map, mapFlags, Space.call]
  by_cases halign : len % pageSize = 0 ∧ paddr % pageSize = 0 ∧ iova % pageSize = 0
  · obtain ⟨hlen, hpaddr, hiova⟩ := halign
    obtain ⟨n, rfl⟩ := exists_eq_mul_left_of_dvd (Nat.dvd_of_mod_eq_zero hlen)
    obtain ⟨q, rfl⟩ := exists_eq_mul_left_of_dvd (Nat.dvd_of_mod_eq_zero hiova)
    have hn : n * pageSize / pageSize = n := Nat.mul_div_cancel n (by decide)
    have hq : q * pageSize / pageSize = q := Nat.mul_div_cancel q (by decide)
    simp only [Call.InRange] at hrange
    simp only [Call.Proper, hn, hq] at hproper
    have hpages := mapPages_refines heap hs hpaddr (q := q) (n := n)
      (by simp only [pageSize] at hrange; omega) hrange.2 (by
        rcases hproper with hlow | hother
        · exact .inl (by simp only [pageSize] at hlow; omega)
        · exact .inr hother)
    simp only [hlen, hpaddr, hiova, hn, hq, true_and, ne_eq, not_true, if_false]
    rw [hpages.1]
    refine ⟨?_, ?_⟩
    · split <;> simp [*]
    · have hshows := hpages.2
      split <;> simp only [*, if_true, if_false] at hshows ⊢
      · exact hshows
      · exact hshows
  · have hspec : ¬(len % pageSize = 0 ∧ paddr % pageSize = 0 ∧ iova % pageSize = 0 ∧
        s.Free (iova / pageSize) (len / pageSize)) := by
      rintro ⟨hlen, hpaddr, hiova, _⟩
      exact halign ⟨hlen, hpaddr, hiova⟩
    rw [if_neg hspec]
    split
    · exact ⟨rfl, hs⟩
    · split
      · exact ⟨rfl, hs⟩
      · split
        · exact ⟨rfl, hs⟩
        · rename_i hlen hpaddr hiova
          exact absurd ⟨not_not.mp hlen, not_not.mp hpaddr, not_not.mp hiova⟩ halign

theorem unmap_refines (heap : Memalign t) (hs : Shows t d s) {iova len : ℕ}
    (hproper : (Call.unmap iova len).Proper s) :
    Shows t (unmap heap d iova len) (s.call (.unmap iova len)).2 := by
  simp only [Space.call]
  split
  · rename_i halign
    obtain ⟨n, rfl⟩ := exists_eq_mul_left_of_dvd (Nat.dvd_of_mod_eq_zero halign.1)
    obtain ⟨q, rfl⟩ := exists_eq_mul_left_of_dvd (Nat.dvd_of_mod_eq_zero halign.2)
    rw [Nat.mul_div_cancel n (by decide), Nat.mul_div_cancel q (by decide)]
    have hlow : q + n ≤ 2 ^ 22 := by
      simp only [Call.Proper, pageSize] at hproper
      omega
    obtain ⟨hwf, hlookup⟩ := unmap_spec heap hs.wf (.inr hlow)
    refine ⟨hwf, ?_, ?_⟩
    · intro page
      rw [hlookup, hs.lookup]
      rfl
    · intro page hpage
      simp only [Space.drop] at hpage
      split at hpage
      · exact absurd rfl hpage
      · exact hs.bound page hpage
  · rename_i halign
    unfold unmap
    split
    · exact hs
    · split
      · exact hs
      · rename_i hlen hiova
        exact absurd ⟨not_not.mp hlen, not_not.mp hiova⟩ halign

theorem step_refines (heap : Memalign t) (hs : Shows t d s) {c : Call} (hrange : c.InRange t)
    (hproper : c.Proper s) :
    (step heap d c).1 = (s.call c).1 ∧ Shows t (step heap d c).2 (s.call c).2 := by
  cases c with
  | map iova paddr len => exact map_refines heap hs hrange hproper
  | unmap iova len =>
    refine ⟨?_, unmap_refines heap hs hproper⟩
    simp only [step, Space.call]
    split <;> rfl
  | freeL2 iova =>
    obtain ⟨hwf, hsame⟩ := freeL2_spec heap hs.wf hproper
    exact ⟨rfl, hs.keep hwf hsame⟩

theorem run_refines (heap : Memalign t) (calls : List Call) (hs : Shows t d s)
    (hrange : ∀ c ∈ calls, c.InRange t) (hproper : ProperRun s calls) :
    (run heap d calls).1 = (s.run calls).1 ∧ Shows t (run heap d calls).2 (s.run calls).2 := by
  induction calls generalizing d s with
  | nil => exact ⟨rfl, hs⟩
  | cons c calls ih =>
    obtain ⟨hresult, hstep⟩ := step_refines heap hs (hrange c mem_cons_self) hproper.1
    obtain ⟨hresults, hrun⟩ := ih hstep (fun c hc => hrange c (mem_cons_of_mem _ hc)) hproper.2
    refine ⟨?_, hrun⟩
    simp only [run, Space.run, hresult, hresults]

/-- What the tables answer when they implement the space. -/
structure Implements (t : DartType) (d : Tables) (s : Space) : Prop where
  translate : ∀ iova < t.pageEnd * pageSize,
    translate t d iova = (s (iova / pageSize)).elim 0 (· + iova % pageSize)
  search_shown : ∀ p, search t d p ≠ ptrErr →
    search t d p % pageSize = 0 ∧ s (search t d p / pageSize) = some p
  /-- The search finds a page exactly when one is mapped, unless it is one of the last
  entries that hold the only ones. -/
  search_iff : ∀ p, (search t d p ≠ ptrErr ↔ ∃ q, s q = some p) ↔
    ((∃ q, s q = some p) → ∃ q, s q = some p ∧ Searched q)
  /-- No page shows physical address 0, which `NULL` hides. -/
  find : (∀ q < 2 ^ 22, s q ≠ some 0) → ∀ q n, 0 < n → (q + n) * pageSize < 2 ^ 64 →
    Lowest s q n (findIova t d ((q * pageSize : ℕ) : ℤ) (n * pageSize))

theorem Shows.implements (hs : Shows t d s) : Implements t d s := by
  have hlookup : d.lookup t = s := funext hs.lookup
  have hbound : ∀ q, d.lookup t q ≠ none → q < t.pageEnd := by
    rw [hlookup]
    exact hs.bound
  refine ⟨?_, ?_, ?_, ?_⟩
  · intro iova h
    rw [translate_eq_lookup h, hlookup]
  · intro p h
    have hshown := lookup_of_search h
    rw [hlookup] at hshown
    exact ⟨hshown.1, hshown.2.1⟩
  · intro p
    rw [search_ne_ptrErr_iff hbound, hlookup]
    constructor
    · intro h
      exact h.mpr
    · intro h
      exact ⟨fun ⟨q, hq, _⟩ => ⟨q, hq⟩, h⟩
  · intro hzero q n hn hwrap
    rw [← hlookup] at hzero ⊢
    exact findIova_spec hzero hn hwrap

def lowestPage (live : List ℕ) : (fuel k : ℕ) → ℕ
  | 0, k => k * pageSize
  | fuel + 1, k => if live.contains (k * pageSize) then lowestPage live fuel (k + 1)
    else k * pageSize

theorem lowestPage_notMem {live : List ℕ} (fuel : ℕ) {k j : ℕ} (hj : j ≤ fuel)
    (hfree : (k + j) * pageSize ∉ live) : lowestPage live fuel k ∉ live := by
  induction fuel generalizing k j with
  | zero =>
    have hzero : j = 0 := by omega
    rwa [hzero] at hfree
  | succ fuel ih =>
    rw [lowestPage]
    split
    · rename_i hmem
      cases j with
      | zero => exact absurd (contains_iff_mem.mp hmem) hfree
      | succ j =>
        refine ih (show j ≤ fuel by omega) ?_
        rwa [add_right_comm, add_assoc]
    · rename_i hmem
      rwa [contains_iff_mem] at hmem

variable (live : List ℕ)

theorem lowestPage_bound (fuel k : ℕ) :
    lowestPage live fuel k % pageSize = 0 ∧ lowestPage live fuel k ≤ (k + fuel) * pageSize := by
  induction fuel generalizing k with
  | zero => exact ⟨Nat.mul_mod_left _ _, le_rfl⟩
  | succ fuel ih =>
    rw [lowestPage]
    split
    · rw [← add_assoc, add_right_comm]
      exact ih (k + 1)
    · exact ⟨Nat.mul_mod_left _ _, Nat.mul_le_mul_right _ (by omega)⟩

/-- Fewer tables than there are candidates leave one of them free. -/
theorem lowestPage_fresh (h : live.length < 2 ^ 13) :
    lowestPage live (2 ^ 13) 1 ∉ live := by
  by_contra hmem
  have hall : ∀ j < 2 ^ 13, (1 + j) * pageSize ∈ live := by
    intro j hj
    by_contra hfree
    exact lowestPage_notMem (2 ^ 13) hj.le hfree hmem
  have hnodup : ((range (2 ^ 13)).map fun j => (1 + j) * pageSize).Nodup := by
    refine nodup_range.map ?_
    intro a b hab
    simp only [pageSize] at hab
    omega
  have hsub : (range (2 ^ 13)).map (fun j => (1 + j) * pageSize) ⊆ live := by
    intro a ha
    obtain ⟨j, hj, rfl⟩ := mem_map.mp ha
    exact hall j (mem_range.mp hj)
  have hle := (hnodup.subperm hsub).length_le
  rw [length_map, length_range] at hle
  omega

theorem lowestPage_reachable (t : DartType) (live : List ℕ) :
    lowestPage live (2 ^ 13) 1 < t.physEnd := by
  have hbound := (lowestPage_bound live (2 ^ 13) 1).2
  have hend : (1 + 2 ^ 13) * pageSize < t.physEnd := by cases t <;> decide
  omega

theorem lowestPage_aligned : lowestPage live (2 ^ 13) 1 % pageSize = 0 :=
  (lowestPage_bound live (2 ^ 13) 1).1

def lowestHeap (t : DartType) : Memalign t where
  next _ live := lowestPage live (2 ^ 13) 1
  fresh _ := lowestPage_fresh
  aligned _ := lowestPage_aligned
  reachable _ := lowestPage_reachable t

/-- The second map is refused at its second page and undone. -/
def refusedMap : List Call :=
  [.map 0x8000 0x10000 0x4000, .map 0x4000 0x20000 0x8000, .unmap 0x8000 0x4000, .freeL2 0]

theorem refusedMap_inRange : ∀ c ∈ refusedMap, c.InRange .t8110 := by
  simp [refusedMap, Call.InRange, DartType.pageEnd, DartType.ttbrCount, DartType.physEnd,
    DartType.offsetLow, pageSize]

theorem refusedMap_proper : ProperRun (fun _ => none) refusedMap :=
  ⟨.inl (by decide), .inl (by decide), show 0x8000 + 0x4000 ≤ 2 ^ 36 by decide,
    .inl (by decide), trivial⟩

end Q1n1.Dart
