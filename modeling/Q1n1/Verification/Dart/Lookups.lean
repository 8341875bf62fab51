import Q1n1.Verification.Dart.Pages

/-! # What the lookups say about the tables -/

namespace Q1n1.Dart

open List

variable {t : DartType} {d : Tables}

def DartType.pageEnd (t : DartType) : ℕ := 2 ^ 22 * t.ttbrCount

theorem DartType.pageEnd_le (t : DartType) : t.pageEnd ≤ 2 ^ 24 := by
  cases t <;> decide

theorem translate_eq_lookup {iova : ℕ} (h : iova < t.pageEnd * pageSize) :
    translate t d iova = (d.lookup t (iova / pageSize)).elim 0 (· + iova % pageSize) := by
  have hlow : iova < 2 ^ 38 := by
    have := t.pageEnd_le
    simp only [pageSize] at h
    omega
  have hroot : d.l1 (iova / 2 ^ 36 % 2 ^ 2) (iova / 2 ^ 25 % 2 ^ 11) =
      d.root (iova / pageSize) := by
    simp only [pageSize, Tables.root]
    congr 1
    · omega
    · omega
  have hcount : iova / 2 ^ 36 % 2 ^ 2 < t.ttbrCount := by
    simp only [pageSize, DartType.pageEnd] at h
    omega
  simp only [translate, hroot]
  rw [if_neg (by omega), Tables.lookup, ← show pageSize = 2 ^ 14 from rfl]
  split
  · rw [shown]
    split <;> rfl
  · rfl

/-! ## Searching for a physical page -/

/-- The loops of `dart_search` come past page `q`. -/
def Searched (q : ℕ) : Prop := q % 2 ^ 11 ≠ 0x7ff ∧ q / 2 ^ 11 % 2 ^ 11 ≠ 0x7ff

theorem lookup_indices {ttbr i j : ℕ} (hi : i < 2 ^ 11) (hj : j < 2 ^ 11) :
    d.lookup t (ttbr * 2 ^ 22 + i * 2 ^ 11 + j) =
      if valid (d.l1 ttbr i) then shown t (d.tables (t.target (d.l1 ttbr i)) j) else none := by
  have hroot : d.root (ttbr * 2 ^ 22 + i * 2 ^ 11 + j) = d.l1 ttbr i := by
    rw [Tables.root]
    congr 1
    · omega
    · omega
  have hindex : (ttbr * 2 ^ 22 + i * 2 ^ 11 + j) % 2 ^ 11 = j := by omega
  rw [Tables.lookup, hroot, hindex]

theorem shown_eq_some_iff {pte p : ℕ} : shown t pte = some p ↔ valid pte ∧ t.target pte = p := by
  rw [shown]
  split
  · rename_i h
    simp [h]
  · rename_i h
    simp [h]

theorem lookup_of_found {p a : ℕ} (h : found t d p = some a) :
    a < 2 ^ 38 ∧ a % pageSize = 0 ∧ d.lookup t (a / pageSize) = some p ∧
      Searched (a / pageSize) := by
  obtain ⟨ttbr, httbr, h⟩ := exists_of_findSome?_eq_some h
  obtain ⟨i, hi, h⟩ := exists_of_findSome?_eq_some h
  split at h
  · rename_i hvalid
    obtain ⟨j, hj, h⟩ := exists_of_findSome?_eq_some h
    simp only at h
    split at h
    · rename_i hpte
      cases h
      rw [mem_range] at httbr hi hj
      have hcount : t.ttbrCount ≤ 4 := by cases t <;> decide
      have hpage : (ttbr * 2 ^ 36 + i * 2 ^ 25 + j * 2 ^ 14) / pageSize =
          ttbr * 2 ^ 22 + i * 2 ^ 11 + j := by
        simp only [pageSize]
        omega
      refine ⟨by omega, by simp only [pageSize]; omega, ?_, ?_⟩
      · rw [hpage, lookup_indices (by omega) (by omega), if_pos hvalid, shown_eq_some_iff]
        exact hpte
      · rw [hpage, Searched]
        omega
    · cases h
  · cases h

variable {q : ℕ}

theorem lookup_of_not_found {p : ℕ} (h : found t d p = none) (hq : q < t.pageEnd)
    (hsearched : Searched q) : d.lookup t q ≠ some p := by
  have hcount : q / 2 ^ 22 < t.ttbrCount := by
    simp only [DartType.pageEnd] at hq
    omega
  obtain ⟨hj, hi⟩ := hsearched
  have hindices : q = q / 2 ^ 22 * 2 ^ 22 + q / 2 ^ 11 % 2 ^ 11 * 2 ^ 11 + q % 2 ^ 11 := by omega
  rw [hindices, lookup_indices (Nat.mod_lt _ (by decide)) (Nat.mod_lt _ (by decide))]
  have hrow := List.findSome?_eq_none_iff.mp
    (List.findSome?_eq_none_iff.mp h _ (mem_range.mpr hcount)) (q / 2 ^ 11 % 2 ^ 11)
    (mem_range.mpr (by omega))
  intro hlookup
  split at hlookup
  · rename_i hvalid
    rw [if_pos hvalid] at hrow
    have hentry := List.findSome?_eq_none_iff.mp hrow (q % 2 ^ 11) (mem_range.mpr (by omega))
    simp only at hentry
    rw [if_pos (shown_eq_some_iff.mp hlookup)] at hentry
    cases hentry
  · cases hlookup

theorem lookup_of_search {p : ℕ} (h : search t d p ≠ ptrErr) :
    search t d p % pageSize = 0 ∧ d.lookup t (search t d p / pageSize) = some p ∧
      Searched (search t d p / pageSize) := by
  cases hfound : found t d p with
  | none =>
    rw [search, hfound] at h
    exact absurd rfl h
  | some a =>
    rw [search, hfound]
    exact (lookup_of_found hfound).2

theorem search_ne_ptrErr_iff (hbound : ∀ q, d.lookup t q ≠ none → q < t.pageEnd) (p : ℕ) :
    search t d p ≠ ptrErr ↔ ∃ q, d.lookup t q = some p ∧ Searched q := by
  constructor
  · intro h
    exact ⟨_, (lookup_of_search h).2⟩
  · rintro ⟨q, hlookup, hsearched⟩
    cases hfound : found t d p with
    | none =>
      have hq : q < t.pageEnd := hbound q (by simp [hlookup])
      exact absurd hlookup (lookup_of_not_found hfound hq hsearched)
    | some a =>
      have ha := (lookup_of_found hfound).1
      simp only [search, hfound, Option.getD_some, ptrErr]
      omega

/-! ## Finding unmapped space -/

/-- From page `q` on, `n` pages below the end of the first root are unmapped. -/
def Fits (look : ℕ → Option ℕ) (q n : ℕ) : Prop := q + n ≤ 2 ^ 22 ∧ ∀ k < n, look (q + k) = none

/-- Where no page shows physical address 0, `NULL` stands for an unmapped page. -/
theorem translate_page_eq_zero_iff (hzero : ∀ q < 2 ^ 22, d.lookup t q ≠ some 0) (hq : q < 2 ^ 22) :
    translate t d (q * pageSize) = 0 ↔ d.lookup t q = none := by
  have hend : 2 ^ 22 ≤ t.pageEnd := by cases t <;> decide
  have hpage : q * pageSize / pageSize = q := by
    simp only [pageSize]
    omega
  rw [translate_eq_lookup (by simp only [pageSize]; omega), hpage, Nat.mul_mod_left]
  have hne := hzero q hq
  cases hlookup : d.lookup t q with
  | none => simp
  | some p =>
    rw [hlookup] at hne
    simpa using hne

theorem gap_spec (hzero : ∀ q < 2 ^ 22, d.lookup t q ≠ some 0) {n : ℕ} (hend : q + n ≤ 2 ^ 22)
    (pages : ℕ) {k : ℕ} (hk : k ≤ n) (hpages : n ≤ pages + k) :
    ∃ m, gap t d (q * pageSize) (n * pageSize) pages (k * pageSize) = m * pageSize ∧ k ≤ m ∧
      m ≤ n ∧ (∀ i, k ≤ i → i < m → d.lookup t (q + i) = none) ∧
      (m < n → d.lookup t (q + m) ≠ none) := by
  induction pages generalizing k with
  | zero =>
    refine ⟨k, rfl, le_rfl, hk, ?_, ?_⟩
    · intro i _ _
      omega
    · intro _
      omega
  | succ pages ih =>
    rw [gap]
    have hlt : k * pageSize < n * pageSize ↔ k < n := by
      simp only [pageSize]
      omega
    simp only [hlt]
    split
    · rename_i hkn
      have hiova : (q * pageSize + k * pageSize) % 2 ^ 64 = (q + k) * pageSize := by
        simp only [pageSize]
        omega
      have hpage := translate_page_eq_zero_iff hzero (show q + k < 2 ^ 22 by omega)
      rw [hiova]
      split
      · rename_i hmapped
        refine ⟨k, rfl, le_rfl, hk, ?_, ?_⟩
        · intro i _ _
          omega
        · intro _ hnone
          exact hmapped (hpage.mpr hnone)
      · rename_i hfree
        have hnone := hpage.mp (not_not.mp hfree)
        have hnext : k * pageSize + pageSize = (k + 1) * pageSize := by ring
        rw [hnext]
        obtain ⟨m, hm, hkm, hmn, hbelow, hat⟩ := ih (show k + 1 ≤ n by omega) (by omega)
        refine ⟨m, hm, by omega, hmn, ?_, hat⟩
        intro i hki him
        rcases hki.eq_or_lt with rfl | hlt
        · exact hnone
        · exact hbelow i hlt him
    · rename_i hkn
      refine ⟨k, rfl, le_rfl, hk, ?_, ?_⟩
      · intro i _ _
        omega
      · intro _
        omega

/-- The answer of a search for `n` pages from page `q` on. -/
def Lowest (look : ℕ → Option ℕ) (q n r : ℕ) : Prop :=
  (∃ a, r = a * pageSize ∧ q ≤ a ∧ Fits look a n ∧ ∀ b, q ≤ b → Fits look b n → a ≤ b) ∨
    r = ptrErr ∧ ∀ b, q ≤ b → ¬Fits look b n

theorem Lowest.skip {look : ℕ → Option ℕ} {q' n r : ℕ} (h : Lowest look q' n r) (hle : q ≤ q')
    (hskip : ∀ b, q ≤ b → b < q' → ¬Fits look b n) : Lowest look q n r := by
  have hlow : ∀ b, q ≤ b → Fits look b n → q' ≤ b := by
    intro b hb hfits
    by_contra hlt
    exact hskip b hb (by omega) hfits
  rcases h with ⟨a, hr, hqa, hfits, hleast⟩ | ⟨hr, hnone⟩
  · exact .inl ⟨a, hr, by omega, hfits, fun b hb hf => hleast b (hlow b hb hf) hf⟩
  · exact .inr ⟨hr, fun b hb hf => hnone b (hlow b hb hf) hf⟩

theorem findFrom_spec (hzero : ∀ q < 2 ^ 22, d.lookup t q ≠ some 0) {n : ℕ} (hn : 0 < n) (fuel : ℕ)
    (hfuel : 2 ^ 22 < fuel + q) (hwrap : (q + n) * pageSize < 2 ^ 64) :
    Lowest (d.lookup t) q n (findFrom t d (n * pageSize) fuel (q * pageSize)) := by
  induction fuel generalizing q with
  | zero =>
    refine .inr ⟨rfl, ?_⟩
    intro b hb hfits
    have := hfits.1
    omega
  | succ fuel ih =>
    have hsum : (q * pageSize + n * pageSize) % 2 ^ 64 = (q + n) * pageSize := by
      simp only [pageSize] at hwrap ⊢
      omega
    have hlen : n * pageSize / pageSize = n := Nat.mul_div_cancel n (by decide)
    rw [findFrom, hsum, hlen]
    split
    · rename_i hend
      have hend : q + n ≤ 2 ^ 22 := by
        simp only [pageSize] at hend
        omega
      have hfirst := translate_page_eq_zero_iff hzero (show q < 2 ^ 22 by omega)
      split
      · rename_i hfree
        have hone : pageSize = 1 * pageSize := (Nat.one_mul _).symm
        obtain ⟨m, hm, hkm, hmn, hbelow, hat⟩ := gap_spec hzero hend n hn (by omega)
        rw [← hone] at hm
        simp only [hm]
        split
        · rename_i hwhole
          have hwhole : m = n := Nat.eq_of_mul_eq_mul_right (by decide) hwhole
          refine .inl ⟨q, rfl, le_rfl, ⟨hend, ?_⟩, fun b hb _ => hb⟩
          intro k hk
          rcases Nat.eq_zero_or_pos k with rfl | hpos
          · exact hfirst.mp hfree
          · exact hbelow k hpos (by omega)
        · rename_i hpart
          have hpart : m ≠ n := fun h => hpart (by rw [h])
          have hnext : (q * pageSize + m * pageSize + pageSize) % 2 ^ 64 =
              (q + m + 1) * pageSize := by
            simp only [pageSize]
            omega
          rw [hnext]
          refine (ih (by omega) (by simp only [pageSize]; omega)).skip (by omega) ?_
          -- a run of `n` pages that starts here or later reaches over the mapped page
          intro b hb hlt hfits
          have hpage : q + m = b + (q + m - b) := by omega
          refine hat (by omega) ?_
          rw [hpage]
          exact hfits.2 _ (by omega)
      · rename_i hmapped
        have hnext : (q * pageSize + pageSize) % 2 ^ 64 = (q + 1) * pageSize := by
          simp only [pageSize]
          omega
        rw [hnext]
        refine (ih (by omega) (by simp only [pageSize]; omega)).skip (by omega) ?_
        intro b hb hlt hfits
        have hbq : b = q := by omega
        rw [hbq] at hfits
        exact hmapped (hfirst.mpr (hfits.2 0 hn))
    · rename_i hend
      refine .inr ⟨rfl, ?_⟩
      intro b hb hfits
      have := hfits.1
      simp only [pageSize] at hend
      omega

theorem findIova_spec (hzero : ∀ q < 2 ^ 22, d.lookup t q ≠ some 0) {n : ℕ} (hn : 0 < n)
    (hwrap : (q + n) * pageSize < 2 ^ 64) :
    Lowest (d.lookup t) q n (findIova t d ((q * pageSize : ℕ) : ℤ) (n * pageSize)) := by
  have hstart : ¬(((q * pageSize : ℕ) : ℤ) < 0 ∨ ((q * pageSize : ℕ) : ℤ) % pageSize ≠ 0) := by
    simp only [pageSize]
    omega
  rw [findIova, if_neg (by simp), if_neg hstart, Int.toNat_natCast]
  exact findFrom_spec hzero hn _ (by omega) hwrap

end Q1n1.Dart
