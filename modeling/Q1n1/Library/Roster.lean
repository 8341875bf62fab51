import Mathlib.Data.List.Perm.Subperm

/-! # Rosters

A roster is a list of distinct names; a name's place in it never changes, and new names go
to the end. It describes what a bump allocator has given out, and to whom. -/

namespace Q1n1.Roster

variable {α : Type*} [BEq α] [LawfulBEq α]

def enter (roster : List α) (a : α) : List α := if a ∈ roster then roster else roster ++ [a]

variable {roster : List α} {a b : α}

theorem enter_of_mem (h : a ∈ roster) : enter roster a = roster := if_pos h

theorem enter_of_not_mem (h : a ∉ roster) : enter roster a = roster ++ [a] := if_neg h

@[simp] theorem mem_enter : b ∈ enter roster a ↔ b ∈ roster ∨ b = a := by
  by_cases h : a ∈ roster
  · rw [enter_of_mem h]
    constructor
    · exact Or.inl
    · intro hb
      rcases hb with hb | rfl
      · exact hb
      · exact h
  · simp [enter_of_not_mem h]

theorem nodup_enter (h : roster.Nodup) : (enter roster a).Nodup := by
  by_cases ha : a ∈ roster
  · rwa [enter_of_mem ha]
  · rw [enter_of_not_mem ha]
    exact List.nodup_append.mpr ⟨h, by simp, by grind⟩

theorem length_le_enter : roster.length ≤ (enter roster a).length := by
  by_cases h : a ∈ roster
  · simp [enter_of_mem h]
  · simp [enter_of_not_mem h]

theorem idxOf_append_self (h : a ∉ roster) : (roster ++ [a]).idxOf a = roster.length := by
  simp [List.idxOf_append_of_notMem h]

theorem idxOf_inj (ha : a ∈ roster) (h : roster.idxOf a = roster.idxOf b) : a = b :=
  (List.idxOf_inj ha).mp h

omit [BEq α] [LawfulBEq α] in
theorem length_le_of_subset {all : List α} (h : roster.Nodup) (hs : roster ⊆ all) :
    roster.length ≤ all.length :=
  (List.subperm_of_subset h hs).length_le

end Q1n1.Roster
