import Mathlib.Data.List.Basic

/-! # Histories

A history is the list of what happened, oldest first. Properties of a run are often
of the form "whenever this happened, that had happened before". -/

namespace Q1n1.History

open List

variable {α : Type*} {P : List α → α → Prop} {history : List α}

theorem forall_concat {p : α → Prop} {a : α} (h : ∀ b ∈ history, p b) (ha : p a) :
    ∀ b ∈ history ++ [a], p b :=
  forall_mem_append.mpr ⟨h, forall_mem_singleton.mpr ha⟩

/-- `P` holds of every entry together with the entries before it. -/
def Every (P : List α → α → Prop) (history : List α) : Prop :=
  ∀ before a after, history = before ++ a :: after → P before a

@[simp] theorem every_nil : Every P [] := by
  intro before a after h
  simp at h

theorem every_concat {a : α} : Every P (history ++ [a]) ↔ Every P history ∧ P history a := by
  constructor
  · intro h
    refine ⟨?_, h history a [] rfl⟩
    intro before b after heq
    exact h before b (after ++ [a]) (by simp [heq])
  · rintro ⟨h, ha⟩ before b after heq
    rcases eq_nil_or_concat after with rfl | ⟨after, c, rfl⟩
    · obtain ⟨rfl, hb⟩ := append_inj' heq rfl
      cases hb
      exact ha
    · rw [concat_eq_append, ← cons_append, ← append_assoc] at heq
      exact h before b after (append_inj' heq rfl).1

theorem Every.of_prefix {history' : List α} (h : Every P history) (hp : history' <+: history) :
    Every P history' := by
  obtain ⟨rest, rfl⟩ := hp
  intro before a after heq
  exact h before a (after ++ rest) (by simp [heq])

theorem Every.append {entries : List α} (h : Every P history)
    (hentries : ∀ a ∈ entries, ∀ before, P before a) : Every P (history ++ entries) := by
  induction entries generalizing history with
  | nil => simpa using h
  | cons a entries ih =>
    rw [← singleton_append, ← append_assoc]
    apply ih
    · exact every_concat.mpr ⟨h, hentries a mem_cons_self history⟩
    · intro b hb
      exact hentries b (mem_cons_of_mem a hb)

theorem every_iff_getElem :
    Every P history ↔ ∀ k, ∀ hk : k < history.length, P (history.take k) history[k] := by
  constructor
  · intro h k hk
    exact h _ _ (history.drop (k + 1)) (by simp)
  · rintro h before a after rfl
    have hk := h before.length (by simp)
    simpa using hk

instance [∀ before, DecidablePred (P before)] (history : List α) :
    Decidable (Every P history) :=
  decidable_of_iff _ every_iff_getElem.symm

end Q1n1.History
