import Q1n1.Library.PhaseRing
import Q1n1.Model.Xhci.Driver

/-! # Reading the event ring

What the driver reads is what the controller posted, in order and once. -/

namespace Q1n1.Xhci

open PhaseRing

theorem eventTrb_type {type : ℕ} (h : type < 64) (parameter status high : ℕ) (c : Bool) :
    (eventTrb type parameter status high c).type = type := by
  cases c <;> simp only [eventTrb, Trb.of, Trb.type, Bool.toNat_false, Bool.toNat_true] <;> omega

theorem eventTrb_cycle (type parameter status high : ℕ) (c : Bool) :
    (eventTrb type parameter status high c).cycle = c := by
  cases c <;> simp only [eventTrb, Trb.of, Trb.cycle, Bool.toNat_false, Bool.toNat_true] <;>
    simp <;> omega

theorem eventTrb_parameter {parameter : ℕ} (h : parameter < 2 ^ 64) (type status high : ℕ)
    (c : Bool) : (eventTrb type parameter status high c).parameter = parameter := by
  simp only [eventTrb, Trb.of, Trb.parameter]
  omega

/-- The events posted and not yet read. -/
def Driver.unread (x : Driver) : List Posted := x.posted.drop x.polled

/-- Where the driver reads is where the oldest unread event is. -/
structure Driver.Reads (x : Driver) : Prop where
  tagged : Tagged eventTrbs (fun p => p.trb.cycle) x.event x.posted x.polled
  index : x.eventIndex = x.polled % eventTrbs
  cycle : x.eventCycle = phase eventTrbs x.polled

variable {x : Driver}

theorem Driver.reads_init (rings : RingId → Ring) : ({ rings } : Driver).Reads where
  tagged := .init (by intro n _; rfl)
  index := rfl
  cycle := by simp [phase]

theorem Driver.Reads.post {trb : Bool → Trb} (serial : Option ℕ) (h : x.Reads)
    (hroom : x.hasRoom = true) (hcycle : ∀ c, (trb c).cycle = c) :
    (x.post trb serial).Reads ∧ ∃ c, (x.post trb serial).unread =
      x.unread ++ [⟨trb c, serial⟩] := by
  have hle := h.tagged.le
  have hlt : x.posted.length < x.polled + eventTrbs := by
    simp only [Driver.hasRoom, decide_eq_true_eq] at hroom
    omega
  exact ⟨⟨h.tagged.put hlt (hcycle _), h.index, h.cycle⟩, _, List.drop_append_of_le_length hle⟩

theorem Driver.Reads.poll {e : Event} {x' : Driver} (h : x.Reads) (hpoll : x.poll = some (e, x')) :
    x'.Reads ∧ (∃ p, e = p.event ∧ x.unread = p :: x'.unread) ∧ x' = { x with
        eventIndex := x'.eventIndex, eventCycle := x'.eventCycle, polled := x.polled + 1 } := by
  simp only [Driver.poll] at hpoll
  split at hpoll
  · cases hpoll
  · rename_i hcycle
    obtain ⟨rfl, hx⟩ := Prod.mk.inj (Option.some.inj hpoll)
    rw [not_not, h.index, h.cycle] at hcycle
    have hlt := (h.tagged.ready_iff (by decide)).mp hcycle
    have hcell := h.tagged.content _ (le_refl _) hlt
    have hdrop : x.unread = x.posted[x.polled] :: x.posted.drop (x.polled + 1) :=
      List.drop_eq_getElem_cons hlt
    have hevent : (x.event x.eventIndex).event = x.posted[x.polled].event := by
      rw [h.index, hcell]
    have hsucc := succ_mod (by decide : 0 < eventTrbs) x.polled
    rw [← h.index] at hsucc
    by_cases hlap : x.eventIndex + 1 = eventTrbs
    · rw [if_pos hlap] at hx hsucc
      subst hx
      refine ⟨⟨h.tagged.take hlt, hsucc.symm, ?_⟩, ⟨_, hevent, hdrop⟩, rfl⟩
      rw [phase_succ_of_mod_eq hsucc, h.cycle]
    · rw [if_neg hlap] at hx hsucc
      subst hx
      refine ⟨⟨h.tagged.take hlt, hsucc.symm, ?_⟩, ⟨_, hevent, hdrop⟩, rfl⟩
      rw [phase_succ (by omega), h.cycle]

end Q1n1.Xhci
