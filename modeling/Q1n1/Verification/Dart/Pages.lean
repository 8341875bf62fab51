import Q1n1.Model.Dart.Tables
import Mathlib.Data.Finset.Prod

/-! # What one page table operation does

The tables are read page by page: `lookup` is the physical page behind a page number.
Each operation on a page changes `lookup` there and nowhere else. -/

namespace Q1n1.Dart

open List Tables

/-! ## Entries -/

namespace DartType

/-- The flag bits below the offset field. -/
def lowFlags : DartType → ℕ
  | t8020 => 3
  | t8110 => 1
  | t6000 => 1

variable (t : DartType)

theorem lowFlags_lt : t.lowFlags < 2 ^ t.offsetLow := by
  cases t <;> decide

theorem pteFlags_eq : t.pteFlags = 0xfff * 2 ^ 40 ||| t.lowFlags := by
  cases t <;> decide

theorem table_value {v : ℕ} (hv : v < 2 ^ (40 - t.offsetLow)) :
    t.offsetPrep v ||| 1 = v * 2 ^ t.offsetLow + 1 := by
  have hone : 1 < 2 ^ t.offsetLow := by cases t <;> decide
  rw [offsetPrep, Nat.mod_eq_of_lt hv, mul_comm, Nat.two_pow_add_eq_or_of_lt hone]

theorem page_value {v : ℕ} (hv : v < 2 ^ (40 - t.offsetLow)) :
    t.offsetPrep v ||| t.pteFlags ||| 0 = 2 ^ 40 * 0xfff + (2 ^ t.offsetLow * v + t.lowFlags) := by
  have hfield : 2 ^ t.offsetLow * v + t.lowFlags < 2 ^ 40 := by
    cases t <;> simp only [offsetLow, lowFlags] at * <;> omega
  have hlow := Nat.two_pow_add_eq_or_of_lt t.lowFlags_lt v
  have hhigh := Nat.two_pow_add_eq_or_of_lt hfield 0xfff
  rw [hhigh, hlow, Nat.or_zero, pteFlags_eq, ← Nat.or_assoc, Nat.or_comm (t.offsetPrep v),
    Nat.or_assoc, offsetPrep, Nat.mod_eq_of_lt hv, mul_comm v, mul_comm 0xfff]

variable {a : ℕ}

section

variable (ha : a < t.physEnd)
include ha

theorem page_lt : a / pageSize < 2 ^ (40 - t.offsetLow) := by
  cases t <;> simp only [physEnd, offsetLow, pageSize] at * <;> omega

theorem valid_table : valid (t.offsetPrep (a / pageSize) ||| 1) = true := by
  rw [t.table_value (t.page_lt ha), valid, decide_eq_true_eq]
  cases t <;> simp only [offsetLow] <;> omega

theorem target_table (halign : a % pageSize = 0) :
    t.target (t.offsetPrep (a / pageSize) ||| 1) = a := by
  rw [t.table_value (t.page_lt ha), target, offsetGet]
  cases t <;> simp only [offsetLow, physEnd, pageSize] at * <;> omega

theorem valid_page : valid (t.offsetPrep (a / pageSize) ||| t.pteFlags ||| 0) = true := by
  rw [t.page_value (t.page_lt ha), valid, decide_eq_true_eq]
  cases t <;> simp only [offsetLow, lowFlags] <;> omega

theorem target_page (halign : a % pageSize = 0) :
    t.target (t.offsetPrep (a / pageSize) ||| t.pteFlags ||| 0) = a := by
  rw [t.page_value (t.page_lt ha), target, offsetGet]
  cases t <;> simp only [offsetLow, lowFlags, physEnd, pageSize] at * <;> omega

end

end DartType

/-! ## Tables -/

variable {t : DartType} {d : Tables} {heap : Memalign t}

def Tables.root (d : Tables) (q : ℕ) : ℕ := d.l1 (q / 2 ^ 22) (q / 2 ^ 11 % 2 ^ 11)

def shown (t : DartType) (pte : ℕ) : Option ℕ := if valid pte then some (t.target pte) else none

def Tables.lookup (t : DartType) (d : Tables) (q : ℕ) : Option ℕ :=
  if valid (d.root q) then shown t (d.tables (t.target (d.root q)) (q % 2 ^ 11)) else none

variable {q : ℕ}

theorem Tables.lookup_of_valid (h : valid (d.root q) = true) :
    d.lookup t q = shown t (d.tables (t.target (d.root q)) (q % 2 ^ 11)) := if_pos h

theorem Tables.lookup_of_invalid (h : valid (d.root q) = false) :
    d.lookup t q = none := if_neg (by simp [h])

/-- The valid first-level entries and the live tables are paired. -/
structure Wf (t : DartType) (d : Tables) : Prop where
  live : ∀ ttbr i, valid (d.l1 ttbr i) = true → t.target (d.l1 ttbr i) ∈ d.live
  apart : ∀ ttbr i ttbr' i', valid (d.l1 ttbr i) = true → valid (d.l1 ttbr' i') = true →
    t.target (d.l1 ttbr i) = t.target (d.l1 ttbr' i') → ttbr = ttbr' ∧ i = i'
  nodup : d.live.Nodup
  used : ∀ tbl ∈ d.live, ∃ ttbr < 4, ∃ i < 2 ^ 11,
    valid (d.l1 ttbr i) = true ∧ t.target (d.l1 ttbr i) = tbl

theorem wf_init : Wf t init := by
  refine ⟨?_, ?_, nodup_nil, ?_⟩
  · intro ttbr i h
    cases h
  · intro ttbr i ttbr' i' h
    cases h
  · intro tbl h
    cases h

theorem Wf.live_length_lt (hw : Wf t d) {ttbr i : ℕ} (httbr : ttbr < 4) (hi : i < 2 ^ 11)
    (hinvalid : ¬valid (d.l1 ttbr i) = true) : d.live.length < 2 ^ 13 := by
  classical
  let entries := (Finset.range 4 ×ˢ Finset.range (2 ^ 11)).erase (ttbr, i)
  have hsub : d.live.toFinset ⊆ entries.image fun e => t.target (d.l1 e.1 e.2) := by
    intro tbl htbl
    obtain ⟨ttbr', httbr', i', hi', hvalid, htarget⟩ := hw.used tbl (mem_toFinset.mp htbl)
    refine Finset.mem_image.mpr ⟨(ttbr', i'), ?_, htarget⟩
    refine Finset.mem_erase.mpr ⟨?_, ?_⟩
    · rintro h
      cases h
      exact hinvalid hvalid
    · simpa using ⟨httbr', hi'⟩
  have hmem : (ttbr, i) ∈ Finset.range 4 ×ˢ Finset.range (2 ^ 11) := by simpa using ⟨httbr, hi⟩
  calc d.live.length = d.live.toFinset.card := (toFinset_card_of_nodup hw.nodup).symm
    _ ≤ (entries.image fun e => t.target (d.l1 e.1 e.2)).card := Finset.card_le_card hsub
    _ ≤ entries.card := Finset.card_image_le
    _ < (Finset.range 4 ×ˢ Finset.range (2 ^ 11)).card := Finset.card_erase_lt_of_mem hmem
    _ = 2 ^ 13 := by
        rw [Finset.card_product, Finset.card_range, Finset.card_range]
        rfl

theorem lookup_init (q : ℕ) : init.lookup t q = none := rfl

theorem lookup_setPte (hw : Wf t d) (hroot : valid (d.root q) = true) (pte page : ℕ) :
    (d.setPte (t.target (d.root q)) (q % 2 ^ 11) pte).lookup t page =
      if page = q then shown t pte else d.lookup t page := by
  have hsame : (d.setPte (t.target (d.root q)) (q % 2 ^ 11) pte).root page = d.root page := rfl
  cases hvalid : valid (d.root page) with
  | false =>
    have hpage : page ≠ q := by
      intro h
      rw [h, hroot] at hvalid
      cases hvalid
    rw [if_neg hpage, lookup_of_invalid hvalid, lookup_of_invalid (hsame ▸ hvalid)]
  | true =>
    rw [lookup_of_valid (hsame ▸ hvalid), lookup_of_valid hvalid, hsame]
    simp only [setPte, setTable]
    by_cases htable : t.target (d.root page) = t.target (d.root q)
    · obtain ⟨hr, hi⟩ := hw.apart _ _ _ _ hvalid hroot htable
      simp only [htable, if_true]
      by_cases hpage : page = q
      · rw [if_pos hpage, if_pos (by rw [hpage])]
      · rw [if_neg hpage, if_neg (by omega)]
    · have hpage : page ≠ q := fun h => htable (by rw [h])
      rw [if_neg hpage, if_neg htable]

theorem wf_setPte (hw : Wf t d) (tbl index pte : ℕ) : Wf t (d.setPte tbl index pte) := { hw with }

/-- What `getL2` leaves behind for the index of page `q`. -/
structure GotL2 (t : DartType) (d : Tables) (q : ℕ) (r : ℕ × Tables) : Prop where
  wf : Wf t r.2
  lookup : ∀ page, r.2.lookup t page = d.lookup t page
  valid : valid (r.2.root q) = true
  table : r.1 = t.target (r.2.root q)

variable (heap : Memalign t)

theorem getL2_spec (hw : Wf t d) {idx : ℕ} (hq : q < 2 ^ 24) (hidx : idx / 2 ^ 11 = q / 2 ^ 22)
    (hmod : idx % 2 ^ 11 = q / 2 ^ 11 % 2 ^ 11) :
    GotL2 t d q (getL2 heap d idx) := by
  have hroot : d.l1 (idx / 2 ^ 11) (idx % 2 ^ 11) = d.root q := by rw [hidx, hmod, root]
  simp only [getL2, hroot]
  split
  · rename_i hvalid
    exact ⟨hw, fun _ => rfl, hvalid, rfl⟩
  · rename_i hinvalid
    rw [hidx, hmod]
    have httbr : q / 2 ^ 22 < 4 := by omega
    have hi : q / 2 ^ 11 % 2 ^ 11 < 2 ^ 11 := Nat.mod_lt _ (by decide)
    have hfresh := heap.fresh d.found d.live (hw.live_length_lt httbr hi hinvalid)
    have hvalid := t.valid_table (heap.reachable d.found d.live)
    have htarget := t.target_table (heap.reachable d.found d.live) (heap.aligned d.found d.live)
    generalize heap.next d.found d.live = tbl at *
    generalize t.offsetPrep (tbl / pageSize) ||| 1 = pte at *
    have hold : ∀ ttbr i, valid (d.l1 ttbr i) = true → t.target (d.l1 ttbr i) ≠ tbl := by
      intro ttbr i h htbl
      exact hfresh (htbl ▸ hw.live ttbr i h)
    refine ⟨⟨?_, ?_, hw.nodup.cons hfresh, ?_⟩, ?_, ?_, ?_⟩
    · intro ttbr i h
      simp only [setL1] at h ⊢
      split
      · rw [htarget]
        exact mem_cons_self
      · rename_i hne
        rw [if_neg hne] at h
        exact mem_cons_of_mem _ (hw.live ttbr i h)
    · intro ttbr i ttbr' i' h h' heq
      simp only [setL1] at h h' heq
      split at h <;> split at h'
      · rename_i hnew hnew'
        exact ⟨hnew.1.trans hnew'.1.symm, hnew.2.trans hnew'.2.symm⟩
      · rename_i hnew hnew'
        rw [if_pos hnew, if_neg hnew', htarget] at heq
        exact absurd heq.symm (hold ttbr' i' h')
      · rename_i hnew hnew'
        rw [if_neg hnew, if_pos hnew', htarget] at heq
        exact absurd heq (hold ttbr i h)
      · rename_i hnew hnew'
        rw [if_neg hnew, if_neg hnew'] at heq
        exact hw.apart ttbr i ttbr' i' h h' heq
    · intro tbl' htbl
      rcases mem_cons.mp htbl with rfl | hmem
      · refine ⟨_, httbr, _, hi, ?_⟩
        simp only [setL1, and_self, if_true]
        exact ⟨hvalid, htarget⟩
      · obtain ⟨ttbr, ht, i, hi, hused⟩ := hw.used tbl' hmem
        refine ⟨ttbr, ht, i, hi, ?_⟩
        simp only [setL1]
        rw [if_neg]
        · exact hused
        · rintro ⟨rfl, rfl⟩
          exact hinvalid hused.1
    · intro page
      by_cases hnew : page / 2 ^ 22 = q / 2 ^ 22 ∧ page / 2 ^ 11 % 2 ^ 11 = q / 2 ^ 11 % 2 ^ 11
      · -- the new table shows no page, and neither did the missing one
        have hbefore : valid (d.root page) = false := by
          rw [root, hnew.1, hnew.2]
          simpa [root] using hinvalid
        have hafter : root { (d.setTable tbl fun _ => 0).setL1 (q / 2 ^ 22)
            (q / 2 ^ 11 % 2 ^ 11) pte with live := tbl :: d.live, found := d.found + 1 } page =
            pte := if_pos hnew
        rw [lookup_of_invalid hbefore, lookup_of_valid (hafter.symm ▸ hvalid), hafter, htarget]
        simp [setL1, setTable, shown, valid]
      · have hafter : root { (d.setTable tbl fun _ => 0).setL1 (q / 2 ^ 22)
            (q / 2 ^ 11 % 2 ^ 11) pte with live := tbl :: d.live, found := d.found + 1 } page =
            d.root page := if_neg hnew
        cases hpage : valid (d.root page) with
        | false =>
          rw [lookup_of_invalid hpage, lookup_of_invalid (hafter.symm ▸ hpage)]
        | true =>
          rw [lookup_of_valid hpage, lookup_of_valid (hafter.symm ▸ hpage), hafter]
          have hother : t.target (d.root page) ≠ tbl := hold _ _ hpage
          simp only [setL1, setTable]
          rw [if_neg hother]
    · simpa [root, setL1] using hvalid
    · simp [root, setL1, htarget]

/-- Mapping page `q`: it is refused exactly when the page is mapped already. -/
structure MappedPage (t : DartType) (d : Tables) (q paddr : ℕ) (r : Bool × Tables) : Prop where
  wf : Wf t r.2
  ok : r.1 = (d.lookup t q).isNone
  lookup : ∀ page, r.2.lookup t page =
    if page = q ∧ d.lookup t q = none then some paddr else d.lookup t page

theorem mapPage_spec (hw : Wf t d) {paddr : ℕ} (hq : q < 2 ^ 24) (hp : paddr < t.physEnd)
    (halign : paddr % pageSize = 0) :
    MappedPage t d q paddr (mapPage heap d (q * pageSize) paddr 0) := by
  have hidx : q * pageSize / 2 ^ 25 % 2 ^ 13 / 2 ^ 11 = q / 2 ^ 22 := by
    simp only [pageSize]
    omega
  have hmod : q * pageSize / 2 ^ 25 % 2 ^ 13 % 2 ^ 11 = q / 2 ^ 11 % 2 ^ 11 := by
    simp only [pageSize]
    omega
  have hindex : q * pageSize / 2 ^ 14 % 2 ^ 11 = q % 2 ^ 11 := by
    simp only [pageSize]
    omega
  have hgot := getL2_spec heap hw hq hidx hmod
  simp only [mapPage, hindex]
  obtain ⟨hwf, hlookup, hvalid, htable⟩ := hgot
  generalize getL2 heap d (q * pageSize / 2 ^ 25 % 2 ^ 13) = r at *
  obtain ⟨l2, e⟩ := r
  simp only at hwf hlookup hvalid htable ⊢
  subst htable
  have hshown := hlookup q
  rw [lookup_of_valid hvalid] at hshown
  split
  · rename_i hpte
    rw [shown, if_pos hpte] at hshown
    refine ⟨hwf, ?_, ?_⟩
    · rw [← hshown]
      rfl
    · intro page
      have hmapped : ¬(page = q ∧ d.lookup t q = none) := by
        rw [← hshown]
        simp
      rw [if_neg hmapped]
      exact hlookup page
  · rename_i hpte
    rw [shown, if_neg hpte] at hshown
    refine ⟨wf_setPte hwf _ _ _, ?_, ?_⟩
    · rw [← hshown]
      rfl
    · intro page
      rw [lookup_setPte hwf hvalid, ← hshown, shown, if_pos (t.valid_page hp),
        t.target_page hp halign, hlookup page]
      simp only [and_true]

theorem unmapPage_spec (hw : Wf t d) (hq : q < 2 ^ 22) :
    Wf t (unmapPage heap d (q * pageSize)) ∧ ∀ page,
      (unmapPage heap d (q * pageSize)).lookup t page =
        if page = q then none else d.lookup t page := by
  have hroot : d.l1 (q * pageSize / 2 ^ 36 % 2 ^ 2) (q * pageSize / 2 ^ 25 % 2 ^ 11) =
      d.root q := by
    simp only [pageSize, root]
    congr 1
    · omega
    · omega
  have hidx : q * pageSize / 2 ^ 25 % 2 ^ 11 / 2 ^ 11 = q / 2 ^ 22 := by
    simp only [pageSize]
    omega
  have hmod : q * pageSize / 2 ^ 25 % 2 ^ 11 % 2 ^ 11 = q / 2 ^ 11 % 2 ^ 11 := by
    simp only [pageSize]
    omega
  have hindex : q * pageSize / 2 ^ 14 % 2 ^ 11 = q % 2 ^ 11 := by
    simp only [pageSize]
    omega
  have hgot := getL2_spec heap hw (show q < 2 ^ 24 by omega) hidx hmod
  simp only [unmapPage, hroot, hindex]
  split
  · obtain ⟨hwf, hlookup, hvalid, htable⟩ := hgot
    generalize getL2 heap d (q * pageSize / 2 ^ 25 % 2 ^ 11) = r at *
    obtain ⟨l2, e⟩ := r
    simp only at hwf hlookup hvalid htable ⊢
    subst htable
    refine ⟨wf_setPte hwf _ _ _, ?_⟩
    intro page
    rw [lookup_setPte hwf hvalid, hlookup page]
    rfl
  · rename_i hinvalid
    refine ⟨hw, ?_⟩
    intro page
    split
    · rename_i hpage
      rw [hpage]
      exact if_neg hinvalid
    · rfl

theorem freeL2_spec (hw : Wf t d) {iova : ℕ} (hiova : iova < 2 ^ 36 ∨ iova % 2 ^ 25 ≠ 0) :
    Wf t (freeL2 heap d iova) ∧ ∀ page, (freeL2 heap d iova).lookup t page = d.lookup t page := by
  unfold freeL2
  split
  · exact ⟨hw, fun _ => rfl⟩
  · rename_i hstart
    have hroot : iova / 2 ^ 36 % 2 ^ 2 = 0 := by omega
    have hidx : iova / 2 ^ 25 % 2 ^ 11 / 2 ^ 11 = 0 := by omega
    have hmod : iova / 2 ^ 25 % 2 ^ 11 % 2 ^ 11 = iova / 2 ^ 25 % 2 ^ 11 := Nat.mod_mod _ _
    simp only [hroot]
    generalize iova / 2 ^ 25 % 2 ^ 11 = i at *
    split
    · rename_i hvalid
      simp only [getL2, hidx, hmod, hvalid, if_true]
      split
      · exact ⟨hw, fun _ => rfl⟩
      · rename_i hempty
        refine ⟨⟨?_, ?_, hw.nodup.erase _, ?_⟩, ?_⟩
        · intro ttbr j h
          simp only [setL1] at h ⊢
          split
          · rename_i hfreed
            rw [if_pos hfreed] at h
            cases h
          · rename_i hother
            rw [if_neg hother] at h
            have hne : t.target (d.l1 ttbr j) ≠ t.target (d.l1 0 i) := fun heq =>
              hother (hw.apart _ _ _ _ h hvalid heq)
            exact (mem_erase_of_ne hne).mpr (hw.live ttbr j h)
        · intro ttbr j ttbr' j' h h' heq
          simp only [setL1] at h h' heq
          split at h
          · cases h
          · rename_i hother
            split at h'
            · cases h'
            · rename_i hother'
              rw [if_neg hother, if_neg hother'] at heq
              exact hw.apart _ _ _ _ h h' heq
        · intro tbl htbl
          obtain ⟨hne, hmem⟩ := hw.nodup.mem_erase_iff.mp htbl
          obtain ⟨ttbr, ht, j, hj, hused⟩ := hw.used tbl hmem
          refine ⟨ttbr, ht, j, hj, ?_⟩
          simp only [setL1]
          rw [if_neg]
          · exact hused
          · rintro ⟨rfl, rfl⟩
            exact hne hused.2.symm
        · intro page
          by_cases hfreed : page / 2 ^ 22 = 0 ∧ page / 2 ^ 11 % 2 ^ 11 = i
          · have hbefore : d.root page = d.l1 0 i := by rw [root, hfreed.1, hfreed.2]
            have hafter : root { d.setL1 0 i 0 with
                live := d.live.erase (t.target (d.l1 0 i)) } page = 0 := if_pos hfreed
            have hpte : ¬valid (d.tables (t.target (d.l1 0 i)) (page % 2 ^ 11)) = true := by
              intro h
              apply hempty
              rw [any_eq_true]
              exact ⟨page % 2 ^ 11, mem_range.mpr (Nat.mod_lt _ (by decide)), h⟩
            rw [lookup_of_invalid (hafter.symm ▸ rfl),
              lookup_of_valid (hbefore.symm ▸ hvalid), hbefore, shown, if_neg hpte]
          · have hafter : root { d.setL1 0 i 0 with
                live := d.live.erase (t.target (d.l1 0 i)) } page = d.root page := if_neg hfreed
            rw [Tables.lookup, hafter]
            rfl
    · exact ⟨hw, fun _ => rfl⟩

end Q1n1.Dart
