import Mathlib.Logic.Basic

/-! # Contracts for computations that may fail

The state survives a failure, so a contract speaks about both ends: what holds
of a result and the state it was returned in, and what holds of an error and the
state it was raised in. -/

namespace Q1n1

variable {σ ε α β : Type}

/-- From every state satisfying `P`, a result of `m` satisfies `Q` and an error `E`. -/
def Meets (P : σ → Prop) (m : EStateM ε σ α) (Q : α → σ → Prop) (E : ε → σ → Prop) : Prop :=
  ∀ s, P s → match m s with
    | .ok a t => Q a t
    | .error e t => E e t

variable {P P' : σ → Prop} {Q Q' : α → σ → Prop} {R : β → σ → Prop} {E E' : ε → σ → Prop}
  {m : EStateM ε σ α}

section

variable (h : Meets P m Q E)
include h

theorem Meets.ok {s t : σ} {a : α} (hs : P s) (hm : m s = .ok a t) : Q a t := by
  have := h s hs
  rwa [hm] at this

theorem Meets.error {s t : σ} {e : ε} (hs : P s) (hm : m s = .error e t) :
    E e t := by
  have := h s hs
  rwa [hm] at this

omit h in
theorem Meets.returns (h : Meets P m Q fun _ _ => False) {s : σ} (hs : P s) :
    ∃ a t, m s = .ok a t ∧ Q a t := by
  cases hm : m s with
  | ok a t => exact ⟨a, t, rfl, h.ok hs hm⟩
  | error e t => exact (h.error hs hm).elim

omit h in
theorem Meets.fails (h : Meets P m (fun _ _ => False) E) {s : σ} (hs : P s) :
    ∃ e t, m s = .error e t ∧ E e t := by
  cases hm : m s with
  | ok a t => exact (h.ok hs hm).elim
  | error e t => exact ⟨e, t, rfl, h.error hs hm⟩

theorem Meets.weaken (hP : ∀ s, P' s → P s) (hQ : ∀ a s, Q a s → Q' a s)
    (hE : ∀ e s, E e s → E' e s) : Meets P' m Q' E' := by
  intro s hs
  have hm := h s (hP s hs)
  cases hms : m s with
  | ok a t =>
    rw [hms] at hm
    exact hQ a t hm
  | error e t =>
    rw [hms] at hm
    exact hE e t hm

theorem Meets.pre (hP : ∀ s, P' s → P s) : Meets P' m Q E :=
  h.weaken hP (fun _ _ hq => hq) fun _ _ he => he

theorem Meets.post (hQ : ∀ a s, Q a s → Q' a s) : Meets P m Q' E :=
  h.weaken (fun _ hp => hp) hQ fun _ _ he => he

end

theorem meets_pure {a : α} (h : ∀ s, P s → Q a s) : Meets P (pure a : EStateM ε σ α) Q E := h

theorem meets_throw {e : ε} (h : ∀ s, P s → E e s) : Meets P (throw e : EStateM ε σ α) Q E := h

theorem Meets.bind {f : α → EStateM ε σ β} (hm : Meets P m Q E) (hf : ∀ a, Meets (Q a) (f a) R E) :
    Meets P (m >>= f) R E := by
  intro s hs
  have hq := hm s hs
  show match EStateM.bind m f s with
    | .ok b t => R b t
    | .error e t => E e t
  unfold EStateM.bind
  cases hms : m s with
  | ok a t =>
    rw [hms] at hq
    exact hf a t hq
  | error e t =>
    rw [hms] at hq
    exact hq

theorem meets_ite {c : Prop} [Decidable c] {n : EStateM ε σ α} (hm : c → Meets P m Q E)
    (hn : ¬c → Meets P n Q E) : Meets P (if c then m else n) Q E := by
  split
  · exact hm ‹_›
  · exact hn ‹_›

theorem meets_assume {F : Prop} (hF : ∀ s, P s → F) (h : F → Meets P m Q E) : Meets P m Q E := by
  intro s hs
  exact h (hF s hs) s hs

end Q1n1
