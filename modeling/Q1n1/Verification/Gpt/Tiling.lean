import Q1n1.Verification.Gpt.Verified

/-! # Partitions and gaps tile the usable range -/

namespace Q1n1.Gpt

open List

/-- The header that says which blocks are usable. -/
def usableHeader (blockSize : ℕ) (primary primaryArray backup backupArray : List UInt8) :
    Option Header :=
  (readCopy primary primaryArray blockSize .primary).1.or
    (readCopy backup backupArray blockSize .backup).1

def Partition.holds (x : Partition) (lba : ℕ) : Bool := x.first ≤ lba && lba ≤ x.last

def Extent.holds (e : Extent) (lba : ℕ) : Bool := e.first ≤ lba && lba ≤ e.last

/-- The partitions are whole and inside, and each ends before the next begins. -/
structure Ordered (first last : ℕ) (xs : List Partition) : Prop where
  inside : ∀ x ∈ xs, first ≤ x.first ∧ x.first ≤ x.last ∧ x.last ≤ last
  apart : xs.Pairwise fun a b => a.last < b.first

variable {xs : List Partition}

theorem inside_of_entryProblems {h : Header} {seen : List (List UInt8)}
    (hclean : entryProblems h seen xs = []) :
    ∀ x ∈ xs, h.firstUsable ≤ x.first ∧ x.first ≤ x.last ∧ x.last ≤ h.lastUsable := by
  induction xs generalizing seen with
  | nil => simp
  | cons x xs ih =>
    simp only [entryProblems, append_eq_nil_iff, ite_eq_right_iff, imp_false, not_or,
      not_lt, cons_ne_nil] at hclean
    obtain ⟨⟨⟨horder, hin⟩, -⟩, hrest⟩ := hclean
    intro y hy
    rcases mem_cons.mp hy with rfl | hy
    · exact ⟨hin.1, horder, hin.2⟩
    · exact ih hrest y hy

theorem apart_of_overlaps (hclean : overlaps xs = []) (hwhole : ∀ x ∈ xs, x.first ≤ x.last) :
    xs.Pairwise fun a b => a.last < b.first := by
  induction xs with
  | nil => exact .nil
  | cons a xs ih =>
    cases xs with
    | nil => simp
    | cons c xs =>
      simp only [overlaps, append_eq_nil_iff, ite_eq_right_iff, cons_ne_nil,
        imp_false, not_le] at hclean
      have htail := ih hclean.2 fun x hx => hwhole x (mem_cons_of_mem _ hx)
      refine pairwise_cons.mpr ⟨fun b hb => ?_, htail⟩
      rcases mem_cons.mp hb with rfl | hb
      · exact hclean.1
      · -- the partition in between is not empty
        have hcb := (pairwise_cons.mp htail).1 b hb
        have hc := hwhole c (by simp)
        omega

/-- From the cursor on, every block is in one partition or in one gap. -/
theorem gaps_tile {last cursor : ℕ} (h : Ordered cursor last xs) (lba : ℕ) :
    xs.countP (·.holds lba) + (gaps last cursor xs).countP (·.holds lba) =
      if cursor ≤ lba ∧ lba ≤ last then 1 else 0 := by
  induction xs generalizing cursor with
  | nil =>
    simp only [gaps, countP_nil, zero_add]
    split <;> simp [Extent.holds, countP_cons]
    grind
  | cons x xs ih =>
    obtain ⟨hx, hbounds⟩ := forall_mem_cons.mp h.inside
    obtain ⟨hfirst, hrest⟩ := pairwise_cons.mp h.apart
    have htail : Ordered (max cursor (x.last + 1)) last xs :=
      ⟨fun y hy => ⟨by have := hfirst y hy; omega, (hbounds y hy).2⟩, hrest⟩
    have hih := ih htail
    rw [max_eq_right (by omega)] at hih
    rw [gaps, max_eq_right (by omega), countP_append, countP_cons]
    have hgap : (if cursor < x.first then [(⟨cursor, x.first - 1⟩ : Extent)] else []).countP
        (·.holds lba) = if cursor ≤ lba ∧ lba < x.first then 1 else 0 := by
      split <;> simp [Extent.holds, countP_cons] <;> grind
    have hself : (if x.holds lba = true then 1 else 0) =
        if x.first ≤ lba ∧ lba ≤ x.last then 1 else 0 := by
      simp [Partition.holds]
    rw [hgap, hself]
    split_ifs at hih ⊢ <;> omega

theorem Extent.aligned_inside (e : Extent) (blockSize : ℕ) (h : e.alignedBytes blockSize ≠ 0) :
    e.first * blockSize ≤ e.alignedOffset blockSize ∧
      e.alignedOffset blockSize + e.alignedBytes blockSize ≤ (e.last + 1) * blockSize := by
  have hstart : e.first * blockSize ≤ e.alignedOffset blockSize := by
    have := Nat.lt_div_mul_add (a := e.first * blockSize + mib - 1) (b := mib) (by decide)
    rw [alignedOffset]
    simp only [mib] at this ⊢
    omega
  have hend := Nat.div_mul_le_self ((e.last + 1) * blockSize) mib
  rw [alignedBytes] at h ⊢
  exact ⟨hstart, by omega⟩

/-- Without an error, the partitions are disjoint and usable, and with the gaps they hold every
usable block once and no other block. -/
theorem decodeGpt_tiles (blockSize lastBlock : ℕ)
    (lba0 primary primaryArray backup backupArray : List UInt8)
    (hclean : (decodeGpt blockSize lastBlock lba0 primary primaryArray backup backupArray).errors =
      []) :
    ∃ h extents, usableHeader blockSize primary primaryArray backup backupArray = some h ∧
      (decodeGpt blockSize lastBlock lba0 primary primaryArray backup backupArray).unallocated =
        some extents ∧
      let parts := (decodeGpt blockSize lastBlock lba0 primary primaryArray backup
        backupArray).partitions
      (parts.Pairwise fun a b => ∀ lba, ¬(a.holds lba = true ∧ b.holds lba = true)) ∧
      (∀ x ∈ parts, h.firstUsable ≤ x.first ∧ x.first ≤ x.last ∧ x.last ≤ h.lastUsable) ∧
      (∀ lba, parts.countP (·.holds lba) + extents.countP (·.holds lba) =
        if h.firstUsable ≤ lba ∧ lba ≤ h.lastUsable then 1 else 0) ∧
      ∀ e ∈ extents, e.alignedBytes blockSize ≠ 0 →
        e.first * blockSize ≤ e.alignedOffset blockSize ∧
          e.alignedOffset blockSize + e.alignedBytes blockSize ≤ (e.last + 1) * blockSize := by
  simp only [decodeGpt, append_eq_nil_iff] at hclean
  obtain ⟨⟨⟨⟨⟨⟨⟨⟨⟨⟨⟨-, -⟩, -⟩, hheader⟩, -⟩, -⟩, -⟩, -⟩, -⟩, -⟩, -⟩, hentries⟩ := hclean
  simp only [ite_eq_right_iff, cons_ne_nil, imp_false] at hheader
  obtain ⟨h, hh⟩ := Option.ne_none_iff_exists'.mp hheader
  simp only [hh, Option.some_or, Option.elim_some, append_eq_nil_iff] at hentries
  have hordered : Ordered h.firstUsable h.lastUsable _ :=
    have hinside := inside_of_entryProblems hentries.1
    ⟨hinside, apart_of_overlaps hentries.2 fun x hx => (hinside x hx).2.1⟩
  refine ⟨h, _, by rw [usableHeader, hh, Option.some_or], by simp only [decodeGpt, hh]; rfl,
    hordered.apart.imp ?_, hordered.inside, gaps_tile hordered,
    fun e _ => e.aligned_inside blockSize⟩
  intro a b hab lba
  simp only [Partition.holds, Bool.and_eq_true, decide_eq_true_eq]
  omega

def oneEntryDecoded : Decoded :=
  decodeGpt 512 100 protectiveMbr (headerBlock 1745781354 1 100 2) oneEntry
    (headerBlock 932752108 100 1 99) oneEntry

theorem decodeGpt_tiles_oneEntry :
    oneEntryDecoded.errors = [] ∧ ∃ extents : List Extent,
      oneEntryDecoded.unallocated = some extents ∧
      ∀ lba, oneEntryDecoded.partitions.countP (·.holds lba) + extents.countP (·.holds lba) =
        if 3 ≤ lba ∧ lba ≤ 98 then 1 else 0 := by
  have hnil : oneEntryDecoded.errors = [] := by decide +kernel
  obtain ⟨h, extents, hh, hextents, -, -, htile, -⟩ := decodeGpt_tiles _ _ _ _ _ _ _ hnil
  have husable : (usableHeader 512 (headerBlock 1745781354 1 100 2) oneEntry
      (headerBlock 932752108 100 1 99) oneEntry).map (fun h => (h.firstUsable, h.lastUsable)) =
      some (3, 98) := by
    decide +kernel
  rw [hh] at husable
  obtain ⟨hfirst, hlast⟩ := Prod.mk.inj (Option.some.inj husable)
  rw [hfirst, hlast] at htile
  exact ⟨hnil, extents, hextents, htile⟩

end Q1n1.Gpt
