import Mathlib.Tactic.Linarith
import Mathlib.Tactic.Ring

/-! # The memory attribute of an address (platform/uefi/live-battery.c)

`q1n1_mmu_attr` walks the firmware's own stage-1 tables. `read64` is the platform's
guarded load: `none` when the address cannot be read. -/

namespace Q1n1.LiveBattery

inductive WalkError
  | unsupported
  | unreadable
  | unmapped
  | illegalBlock
deriving DecidableEq

/-- `va >> shift & 0x1ff`, where `shift` is that of a level. -/
def tableIndex (va level : ℕ) : ℕ := va / 2 ^ (12 + 9 * (3 - level)) % 2 ^ 9

/-- The bits of a descriptor, and of `TTBR`, that the code takes for a table address. -/
def tableAddress (word : ℕ) : ℕ := word % 2 ^ 48 / 2 ^ 12 * 2 ^ 12

def mairByte (mair desc : ℕ) : ℕ := mair / 2 ^ (8 * (desc / 4 % 8)) % 2 ^ 8

/-- The loop, with `left` levels below `3 - left`. -/
def attrFrom (mair va : ℕ) (read64 : ℕ → Option ℕ) : (left table : ℕ) → Except WalkError ℕ
  | 0, table =>
    match read64 (table + tableIndex va 3 * 8) with
    | none => .error .unreadable
    | some desc => if desc % 4 ≠ 3 then .error .unmapped else .ok (mairByte mair desc)
  | left + 1, table =>
    match read64 (table + tableIndex va (3 - (left + 1)) * 8) with
    | none => .error .unreadable
    | some desc =>
      if desc % 2 = 0 then .error .unmapped
      else if desc % 4 = 1 then
        if 3 - (left + 1) = 0 then .error .illegalBlock else .ok (mairByte mair desc)
      else attrFrom mair va read64 left (tableAddress desc)

def mmuAttr (ttbr tcr mair va : ℕ) (read64 : ℕ → Option ℕ) : Except WalkError ℕ :=
  let t0sz := tcr % 64
  if tcr / 2 ^ 14 % 4 ≠ 0 ∨ t0sz < 16 ∨ 39 < t0sz then .error .unsupported
  else
    let bits := 64 - t0sz
    if va / 2 ^ bits ≠ 0 then .error .unsupported
    else
      let level := 4 - (bits - 12 + 8) / 9
      attrFrom mair va read64 (3 - level) (tableAddress ttbr)

end Q1n1.LiveBattery
