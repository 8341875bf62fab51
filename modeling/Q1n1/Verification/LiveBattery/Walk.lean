import Q1n1.Model.LiveBattery.Attribute
import Mathlib.Tactic.IntervalCases

/-! # The attribute walk against the architecture

The stage-1 walk of VMSAv8-64 from `TTBR0` with a 4 KiB granule and 48-bit addresses,
stated from its tables: which level a region size starts at, where its first table
stands and what each descriptor means at each level. The code's walk is the same one
except for the first table: it takes `TTBR` for the address of a whole page, and a
region that needs less than a page of entries may start inside one. -/

namespace Q1n1.LiveBattery

/-! ## The architecture -/

namespace Vmsa

inductive Descriptor
  | invalid
  | table (address : ℕ)
  | leaf (attrIndex : ℕ)
deriving DecidableEq

/-- Bits [1:0] are `0b11` for a table, or a page at level 3, and `0b01` for a block,
which only levels 1 and 2 have. -/
def decode (level desc : ℕ) : Descriptor :=
  match level, desc % 4 with
  | 3, 3 => .leaf (desc / 4 % 8)
  | 3, _ => .invalid
  | _, 3 => .table (desc % 2 ^ 48 / 2 ^ 12 * 2 ^ 12)
  | 0, _ => .invalid
  | _, 1 => .leaf (desc / 4 % 8)
  | _, _ => .invalid

/-- The level a walk starts at, by `T0SZ`. -/
def startLevel (t0sz : ℕ) : ℕ := if t0sz ≤ 24 then 0 else if t0sz ≤ 33 then 1 else 2

/-- The lowest address bit that a level resolves. -/
def levelShift (level : ℕ) : ℕ := 39 - 9 * level

/-- The size of the first table: an entry of 8 bytes for each value of the address bits
that the starting level resolves. -/
def startBytes (t0sz : ℕ) : ℕ := 8 * 2 ^ (64 - t0sz - levelShift (startLevel t0sz))

/-- Bits [47:x] of `TTBR`, where `x` is the logarithm of the first table's size. -/
def startBase (ttbr t0sz : ℕ) : ℕ := ttbr % 2 ^ 48 / startBytes t0sz * startBytes t0sz

/-- From level `3 - left` on; `none` for a fault or a table that cannot be read. -/
def walkFrom (mair va : ℕ) (read64 : ℕ → Option ℕ) : (left table : ℕ) → Option ℕ
  | 0, table =>
    (read64 (table + va / 2 ^ levelShift 3 % 512 * 8)).bind fun desc =>
      match decode 3 desc with
      | .leaf i => some (mair / 2 ^ (8 * i) % 256)
      | _ => none
  | left + 1, table =>
    (read64 (table + va / 2 ^ levelShift (3 - (left + 1)) % 512 * 8)).bind fun desc =>
      match decode (3 - (left + 1)) desc with
      | .leaf i => some (mair / 2 ^ (8 * i) % 256)
      | .table address => walkFrom mair va read64 left address
      | .invalid => none

/-- The attribute of an address in the region that `TTBR0` translates. -/
def walk (ttbr t0sz mair va : ℕ) (read64 : ℕ → Option ℕ) : Option ℕ :=
  if va < 2 ^ (64 - t0sz) then
    walkFrom mair va read64 (3 - startLevel t0sz) (startBase ttbr t0sz)
  else none

end Vmsa

/-! ## Level by level -/

variable {mair va : ℕ} {read64 : ℕ → Option ℕ}

theorem decode_three (desc : ℕ) :
    Vmsa.decode 3 desc = if desc % 4 = 3 then .leaf (desc / 4 % 8) else .invalid := by
  have hlt : desc % 4 < 4 := Nat.mod_lt _ (by decide)
  unfold Vmsa.decode
  split <;> simp_all

theorem decode_of_lt {level : ℕ} (h : level < 3) (desc : ℕ) : Vmsa.decode level desc =
      if desc % 2 = 0 then .invalid
      else if desc % 4 = 1 then if level = 0 then .invalid else .leaf (desc / 4 % 8)
      else .table (tableAddress desc) := by
  have hcases : desc % 4 = 0 ∨ desc % 4 = 1 ∨ desc % 4 = 2 ∨ desc % 4 = 3 := by omega
  have hhalf : desc % 2 = desc % 4 % 2 := by omega
  rw [hhalf]
  obtain rfl | rfl | rfl : level = 0 ∨ level = 1 ∨ level = 2 := by omega
  all_goals
    rcases hcases with h | h | h | h <;> simp [Vmsa.decode, tableAddress, h]

theorem tableIndex_eq {level : ℕ} (h : level ≤ 3) :
    tableIndex va level = va / 2 ^ Vmsa.levelShift level % 512 := by
  have hshift : 12 + 9 * (3 - level) = Vmsa.levelShift level := by
    unfold Vmsa.levelShift
    omega
  rw [tableIndex, hshift]
  rfl

theorem attrFrom_toOption {left : ℕ} (hleft : left ≤ 3) (table : ℕ) :
    (attrFrom mair va read64 left table).toOption = Vmsa.walkFrom mair va read64 left table := by
  induction left generalizing table with
  | zero =>
    rw [attrFrom, Vmsa.walkFrom, tableIndex_eq le_rfl]
    cases read64 (table + va / 2 ^ Vmsa.levelShift 3 % 512 * 8) with
    | none => rfl
    | some desc =>
      simp only [Option.bind_some, decode_three]
      by_cases h : desc % 4 = 3
      · simp [h, mairByte, Except.toOption]
      · simp [h, Except.toOption]
  | succ left ih =>
    rw [attrFrom, Vmsa.walkFrom, tableIndex_eq (by omega)]
    cases read64 (table + va / 2 ^ Vmsa.levelShift (3 - (left + 1)) % 512 * 8) with
    | none => rfl
    | some desc =>
      simp only [Option.bind_some, decode_of_lt (show 3 - (left + 1) < 3 by omega)]
      by_cases hvalid : desc % 2 = 0
      · simp [hvalid, Except.toOption]
      · by_cases hblock : desc % 4 = 1
        · by_cases hlevel : 3 - (left + 1) = 0
          · simp [hvalid, hblock, hlevel, Except.toOption]
          · simp only [hvalid, hblock, hlevel, if_true, if_false]
            rfl
        · simp only [hvalid, hblock, if_false]
          exact ih (by omega) (tableAddress desc)

theorem level_eq_startLevel {t0sz : ℕ} (hlow : 16 ≤ t0sz) (hhigh : t0sz ≤ 39) :
    4 - (64 - t0sz - 12 + 8) / 9 = Vmsa.startLevel t0sz := by
  unfold Vmsa.startLevel
  split
  · omega
  · split <;> omega

theorem mmuAttr_toOption {ttbr tcr : ℕ} (hgranule : tcr / 2 ^ 14 % 4 = 0) (hlow : 16 ≤ tcr % 64)
    (hhigh : tcr % 64 ≤ 39) (mair va : ℕ) (read64 : ℕ → Option ℕ) :
    (mmuAttr ttbr tcr mair va read64).toOption =
      if va < 2 ^ (64 - tcr % 64) then
        Vmsa.walkFrom mair va read64 (3 - Vmsa.startLevel (tcr % 64)) (tableAddress ttbr)
      else none := by
  have hformat : ¬(tcr / 2 ^ 14 % 4 ≠ 0 ∨ tcr % 64 < 16 ∨ 39 < tcr % 64) := by omega
  simp only [mmuAttr, if_neg hformat, level_eq_startLevel hlow hhigh]
  by_cases hva : va < 2 ^ (64 - tcr % 64)
  · have hzero : ¬va / 2 ^ (64 - tcr % 64) ≠ 0 := by simp [hva]
    rw [if_pos hva, if_neg hzero]
    exact attrFrom_toOption (by omega) _
  · have hone : va / 2 ^ (64 - tcr % 64) ≠ 0 := by simp [Nat.div_eq_zero_iff, hva]
    rw [if_neg hva, if_pos hone]
    rfl

/-! ## The first table -/

/-- The two first tables are the same exactly when `TTBR` has nothing between the table's
own alignment and a page. -/
theorem startBase_eq_iff {t0sz : ℕ} (hlow : 16 ≤ t0sz) (hhigh : t0sz ≤ 39) (ttbr : ℕ) :
    Vmsa.startBase ttbr t0sz = tableAddress ttbr ↔ ttbr % 2 ^ 12 < Vmsa.startBytes t0sz := by
  unfold Vmsa.startBase tableAddress
  interval_cases t0sz <;> simp only [Vmsa.startBytes, Vmsa.startLevel, Vmsa.levelShift] <;>
    norm_num <;> omega

/-- Tables in which every entry leads on to a page but the one at `hole`, which cannot
be read. -/
def allButOne (hole : ℕ) : ℕ → Option ℕ := fun address =>
  if address = hole then none else some ((if hole = 0 then 2 ^ 12 else 0) + 3)

theorem walkFrom_allButOne {hole table left : ℕ} (hleft : left ≤ 3) (h : table ≠ hole) :
    Vmsa.walkFrom 0 0 (allButOne hole) left table = some 0 := by
  induction left generalizing table with
  | zero =>
    rw [Vmsa.walkFrom]
    simp only [Nat.zero_div, Nat.zero_mod, zero_mul, add_zero, allButOne, if_neg h,
      Option.bind_some, decode_three]
    rw [if_pos (by split <;> decide)]
  | succ left ih =>
    rw [Vmsa.walkFrom]
    simp only [Nat.zero_div, Nat.zero_mod, zero_mul, add_zero, allButOne, if_neg h,
      Option.bind_some, decode_of_lt (show 3 - (left + 1) < 3 by omega)]
    rw [if_neg (by split <;> decide), if_neg (by split <;> decide)]
    apply ih (by omega)
    by_cases hole0 : hole = 0
    · simp [hole0, tableAddress]
    · simpa [hole0, tableAddress] using Ne.symm hole0

/-- For a supported format, the code's answer is the architecture's for every address and
all table contents exactly when `TTBR` points at a page, or at most as far into one as
the first table's own alignment hides. -/
theorem mmuAttr_eq_walk_iff {ttbr tcr : ℕ} (hgranule : tcr / 2 ^ 14 % 4 = 0)
    (hlow : 16 ≤ tcr % 64) (hhigh : tcr % 64 ≤ 39) :
    (∀ mair va read64, (mmuAttr ttbr tcr mair va read64).toOption =
      Vmsa.walk ttbr (tcr % 64) mair va read64) ↔ ttbr % 2 ^ 12 < Vmsa.startBytes (tcr % 64) := by
  rw [← startBase_eq_iff hlow hhigh]
  constructor
  · intro hagree
    by_contra hne
    have h := hagree 0 0 (allButOne (tableAddress ttbr))
    have hva : 0 < 2 ^ (64 - tcr % 64) := Nat.two_pow_pos _
    rw [mmuAttr_toOption hgranule hlow hhigh, Vmsa.walk, if_pos hva, if_pos hva,
      walkFrom_allButOne (by omega) hne] at h
    -- the code's first entry is the one that cannot be read
    have hhole : Vmsa.walkFrom 0 0 (allButOne (tableAddress ttbr)) (3 - Vmsa.startLevel (tcr % 64))
        (tableAddress ttbr) = none := by
      cases 3 - Vmsa.startLevel (tcr % 64) with
      | zero => simp [Vmsa.walkFrom, allButOne]
      | succ left => simp [Vmsa.walkFrom, allButOne]
    rw [hhole] at h
    cases h
  · intro hbase mair va read64
    rw [mmuAttr_toOption hgranule hlow hhigh, Vmsa.walk, hbase]

/-- A 48-bit region: the first table is a whole page. -/
theorem mmuAttr_eq_walk_iff_wholePage : 0x1000 % 2 ^ 12 < Vmsa.startBytes (16 % 64) ∧
      (mmuAttr 0x1000 16 0xff44 0x3000 fun _ => some 0x2007).toOption =
        Vmsa.walk 0x1000 16 0xff44 0x3000 fun _ => some 0x2007 := by
  have hstart : 0x1000 % 2 ^ 12 < Vmsa.startBytes (16 % 64) := by decide
  exact ⟨hstart, (mmuAttr_eq_walk_iff rfl (by decide) (by decide)).mpr hstart 0xff44 0x3000 _⟩

/-- A 25-bit region has 16 entries. With its table in the second 128 bytes of a page, the
code reads the first. -/
theorem mmuAttr_start_inside_page :
    let read64 := fun address => if address = 0x1080 then some (2 ^ 21 + 1) else some 0
    (mmuAttr 0x1080 39 0xff 0 read64).toOption = none ∧
      Vmsa.walk 0x1080 39 0xff 0 read64 = some 0xff := by
  decide

end Q1n1.LiveBattery
