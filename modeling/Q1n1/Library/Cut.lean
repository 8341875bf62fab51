import Mathlib.Logic.Relation
import Mathlib.Order.Basic

/-! # Computations that an outside schedule may cut short

A computation over a state either returns, or is still waiting when the schedule
that drives its surroundings ends. The state is kept in both cases, so what a
computation has done so far is visible even when it has not returned. -/

namespace Q1n1

/-- A state computation whose result is `none` when it was cut while waiting. -/
def Cut (σ α : Type) : Type := σ → Option α × σ

namespace Cut

variable {σ α β : Type}

instance : Monad (Cut σ) where
  pure a := fun s => (some a, s)
  bind m f := fun s =>
    match m s with
    | (some a, t) => f a t
    | (none, t) => (none, t)

/-- The current state. -/
def get : Cut σ σ := fun s => (some s, s)

/-- Replace the state. -/
def modify (f : σ → σ) : Cut σ Unit := fun s => (some (), f s)

/-- The schedule ended here. -/
def stop : Cut σ α := fun s => (none, s)

/-- Read part of the state. -/
def gets (f : σ → α) : Cut σ α := fun s => (some (f s), s)

@[simp] theorem pure_apply (a : α) (s : σ) : (pure a : Cut σ α) s = (some a, s) := rfl

@[simp] theorem get_apply (s : σ) : (get : Cut σ σ) s = (some s, s) := rfl

@[simp] theorem gets_apply (f : σ → α) (s : σ) : gets f s = (some (f s), s) := rfl

@[simp] theorem modify_apply (f : σ → σ) (s : σ) : modify f s = (some (), f s) := rfl

@[simp] theorem stop_apply (s : σ) : (stop : Cut σ α) s = (none, s) := rfl

theorem bind_apply (m : Cut σ α) (f : α → Cut σ β) (s : σ) : (m >>= f) s =
      match m s with
      | (some a, t) => f a t
      | (none, t) => (none, t) := rfl

variable {m : Cut σ α} {f : α → Cut σ β}

theorem bind_of_some {s t : σ} {a : α} (h : m s = (some a, t)) : (m >>= f) s = f a t := by
  simp [bind_apply, h]

theorem bind_of_none {s t : σ} (h : m s = (none, t)) : (m >>= f) s = (none, t) := by
  simp [bind_apply, h]

theorem bind_eq_some {s u : σ} {b : β} (h : (m >>= f) s = (some b, u)) :
    ∃ a t, m s = (some a, t) ∧ f a t = (some b, u) := by
  rw [bind_apply] at h
  split at h
  · exact ⟨_, _, ‹_›, h⟩
  · cases h

/-! ## Contracts

`Does step P m Q` says of every start state satisfying `P` that `m` moves along
`step` only, returned or not, and that a returned result satisfies `Q`. -/

def Does (step : σ → σ → Prop) (P : σ → Prop) (m : Cut σ α) (Q : α → σ → Prop) : Prop :=
  ∀ s, P s → Relation.ReflTransGen step s (m s).2 ∧ ∀ a, (m s).1 = some a → Q a (m s).2

variable {step : σ → σ → Prop} {P P' : σ → Prop} {Q Q' : α → σ → Prop} {R : β → σ → Prop}

theorem Does.weaken (h : Does step P m Q) (hP : ∀ s, P' s → P s) (hQ : ∀ a s, Q a s → Q' a s) :
    Does step P' m Q' := by
  intro s hs
  obtain ⟨hr, hq⟩ := h s (hP s hs)
  exact ⟨hr, fun a ha => hQ a _ (hq a ha)⟩

theorem Does.pre (h : Does step P m Q) (hP : ∀ s, P' s → P s) : Does step P' m Q :=
  h.weaken hP fun _ _ hq => hq

theorem Does.post (h : Does step P m Q) (hQ : ∀ a s, Q a s → Q' a s) : Does step P m Q' :=
  h.weaken (fun _ hp => hp) hQ

theorem does_pure {a : α} (h : ∀ s, P s → Q a s) : Does step P (pure a) Q := by
  intro s hs
  refine ⟨.refl, ?_⟩
  intro b hb
  cases hb
  exact h s hs

theorem does_skip {a : α} : Does step P (pure a) fun _ => P := does_pure fun _ h => h

theorem does_stop : Does step P (stop : Cut σ α) Q := by
  intro s _
  exact ⟨.refl, fun a ha => by cases ha⟩

theorem does_gets {f : σ → α} (h : ∀ s, P s → Q (f s) s) : Does step P (gets f) Q := by
  intro s hs
  refine ⟨.refl, ?_⟩
  intro a ha
  cases ha
  exact h s hs

theorem does_modify {f : σ → σ} {Q : Unit → σ → Prop} (hstep : ∀ s, P s → step s (f s))
    (h : ∀ s, P s → Q () (f s)) : Does step P (modify f) Q := by
  intro s hs
  refine ⟨.single (hstep s hs), ?_⟩
  intro a _
  exact h s hs

theorem does_modify_at {f : σ → σ} {a : σ} {Q : Unit → σ → Prop} (hstep : step a (f a))
    (h : Q () (f a)) : Does step (fun s => s = a) (modify f) Q :=
  does_modify (by rintro _ rfl; exact hstep) (by rintro _ rfl; exact h)

/-- An update that leaves the state where it is needs no step. -/
theorem does_modify_id {f : σ → σ} {Q : Unit → σ → Prop} (hid : ∀ s, P s → f s = s)
    (h : ∀ s, P s → Q () s) : Does step P (modify f) Q := by
  intro s hs
  simp only [modify_apply, hid s hs]
  exact ⟨.refl, fun _ _ => h s hs⟩

theorem Does.bind (hm : Does step P m Q) (hf : ∀ a, Does step (Q a) (f a) R) :
    Does step P (m >>= f) R := by
  intro s hs
  obtain ⟨hr, hq⟩ := hm s hs
  rw [bind_apply]
  cases hms : m s with
  | mk r t =>
    rw [hms] at hr hq
    cases r with
    | none => exact ⟨hr, fun a ha => by cases ha⟩
    | some a =>
      obtain ⟨hr', hq'⟩ := hf a t (hq a rfl)
      exact ⟨hr.trans hr', hq'⟩

theorem does_get_bind {f : σ → Cut σ β} (h : ∀ a, P a → Does step (fun s => s = a) (f a) R) :
    Does step P (get >>= f) R := by
  intro s hs
  exact h s hs s rfl

theorem does_get {f : σ → Cut σ β} (h : ∀ a, P a → Does step P (f a) R) :
    Does step P (get >>= f) R :=
  does_get_bind fun a ha => (h a ha).pre fun _ hs => hs ▸ ha

theorem does_ite {c : Prop} [Decidable c] {m₁ m₂ : Cut σ α}
    (h₁ : c → Does step P m₁ Q) (h₂ : ¬c → Does step P m₂ Q) :
    Does step P (if c then m₁ else m₂) Q := by
  split
  · exact h₁ ‹_›
  · exact h₂ ‹_›

theorem does_cond {c : Prop} [Decidable c] {m₁ m₂ : Cut σ α} (h₁ : Does step P m₁ Q)
    (h₂ : Does step P m₂ Q) : Does step P (if c then m₁ else m₂) Q :=
  does_ite (fun _ => h₁) fun _ => h₂

theorem does_of_forall (h : ∀ s, P s → Does step (fun t => t = s) m Q) : Does step P m Q := by
  intro s hs
  exact h s hs s rfl

theorem steps_keep {I : σ → Prop} (hstep : ∀ s t, step s t → I s → I t) {s t : σ}
    (h : Relation.ReflTransGen step s t) (hi : I s) : I t := by
  induction h with
  | refl => exact hi
  | tail _ hst ih => exact hstep _ _ hst ih

end Cut

end Q1n1
