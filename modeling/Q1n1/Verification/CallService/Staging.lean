import Q1n1.Model.CallService.Service

/-! # Console input is staged exactly once

Every well-formed console request carries a slice of one input stream at its absolute
offset. Requests may be lost, repeated and reordered: a run simply contains any list of
them. -/

namespace Q1n1.CallService

open Bytes List Memory

/-- The input of the request is the slice of the stream at its offset. -/
def CarriesSlice (S : ℕ → UInt8) (data : List UInt8) : Prop :=
  (consoleFields data).input =
    Memory.load S (consoleFields data).inOffset (consoleFields data).inLength

instance (S : ℕ → UInt8) (data : List UInt8) : Decidable (CarriesSlice S data) :=
  inferInstanceAs (Decidable (_ = _))

/-! ## One request -/

/-- The view and the memory after the next `n` bytes of the stream were staged. -/
structure Stages (S : ℕ → UInt8) (v : View) (m : Memory) (v' : View) (m' : Memory) (n : ℕ) :
    Prop where
  setup : v'.toSetup = v.toSetup
  held : v'.inHeld = v.inHeld + n
  fill : v'.inFill = v.inFill + n
  room : v.inFill ≤ v.inRoom → v.inFill + n ≤ v.inRoom
  memory : m' = m.store (v.inBase + v.inFill) (Memory.load S v.inHeld n)

variable {S : ℕ → UInt8} {v v' : View} {m m' : Memory}

theorem Stages.none (hsetup : v'.toSetup = v.toSetup) (hheld : v'.inHeld = v.inHeld)
    (hfill : v'.inFill = v.inFill) : Stages S v m v' m 0 :=
  ⟨hsetup, hheld, hfill, id, by simp⟩

theorem load_drop_take (S : ℕ → UInt8) (off : ℕ) {len skip n : ℕ} (h : skip + n ≤ len) :
    ((Memory.load S off len).drop skip).take n = Memory.load S (off + skip) n := by
  obtain ⟨rest, rfl⟩ := Nat.exists_eq_add_of_le h
  rw [add_assoc, load_add, load_add]
  simp

theorem View.stage_stages (r : ConsoleRequest)
    (hslice : r.input = Memory.load S r.inOffset r.inLength) (hoff : r.inOffset < 2 ^ 64)
    (hlen : r.inLength ≤ consoleInMax) :
    ∃ n, Stages S v m (v.stage m r).1 (v.stage m r).2 n ∧ (v.inHeld < r.inOffset → n = 0) := by
  simp only [View.stage]
  split
  · exact ⟨0, .none rfl rfl rfl, fun _ => rfl⟩
  · split
    · exact ⟨0, .none rfl rfl rfl, fun _ => rfl⟩
    · rename_i hgap
      -- The source's wrap test rules a wrapped end out: a slice is shorter than the offsets.
      have hend : (r.inOffset + r.inLength) % 2 ^ 64 = r.inOffset + r.inLength := by
        simp only [consoleInMax] at hlen
        omega
      rw [hend] at hgap ⊢
      split
      · exact ⟨0, .none rfl rfl rfl, fun _ => rfl⟩
      · rename_i hnew
        have hin : v.inHeld - r.inOffset + (r.inLength - (v.inHeld - r.inOffset)) ≤ r.inLength := by
          omega
        set want := r.inLength - (v.inHeld - r.inOffset)
        have htake : (if want < v.inRoom - v.inFill then want else v.inRoom - v.inFill) ≤ want := by
          split <;> omega
        have hroom : (if want < v.inRoom - v.inFill then want else v.inRoom - v.inFill) ≤
            v.inRoom - v.inFill := by
          split <;> omega
        set take := if want < v.inRoom - v.inFill then want else v.inRoom - v.inFill
        refine ⟨take, ⟨rfl, rfl, rfl, by omega, ?_⟩, by omega⟩
        rw [hslice, load_drop_take S _ (by omega), show r.inOffset + (v.inHeld - r.inOffset) =
          v.inHeld by omega]

theorem View.claim_eq {r : ConsoleRequest} (h : v.claim r = some v') :
    v'.toSetup = v.toSetup ∧ v'.inHeld = v.inHeld ∧ v'.inFill = v.inFill := by
  simp only [View.claim] at h
  split at h
  · split at h
    · cases h
    · cases h
      exact ⟨rfl, rfl, rfl⟩
  · cases h
    exact ⟨rfl, rfl, rfl⟩

theorem View.serve_stages (s : CallState) (r : ConsoleRequest) (capacity : ℕ)
    (hslice : r.input = Memory.load S r.inOffset r.inLength) (hoff : r.inOffset < 2 ^ 64)
    (hlen : r.inLength ≤ consoleInMax) :
    ∃ n, Stages S v m (v.serve m s r capacity).2.1 (v.serve m s r capacity).2.2.1 n ∧
      (v.inHeld < r.inOffset → n = 0) := by
  simp only [View.serve]
  split
  · exact ⟨0, .none rfl rfl rfl, fun _ => rfl⟩
  · rename_i v₁ hclaim
    obtain ⟨hsetup, hheld, hfill⟩ := View.claim_eq hclaim
    obtain ⟨n, hstages, hbeyond⟩ := View.stage_stages (v := v₁) (m := m) r hslice hoff hlen
    refine ⟨n, ⟨?_, ?_, ?_, ?_, ?_⟩, hheld ▸ hbeyond⟩
    · exact hstages.setup.trans hsetup
    · exact hstages.held.trans (by rw [hheld])
    · exact hstages.fill.trans (by rw [hfill])
    · exact hsetup ▸ hfill ▸ hstages.room
    · exact hsetup ▸ hfill ▸ hheld ▸ hstages.memory

theorem CallState.consoleStatus_false (s : CallState) (r : ConsoleRequest) :
    s.consoleStatus r false ≠ 0 := by
  simp only [CallState.consoleStatus]
  split
  · decide
  · split <;> decide

/-- A console datagram stages the next bytes of the stream, and only into a good view. -/
theorem CallState.consoleDatagram_stages (s : CallState) (shown : Bool) (data : List UInt8)
    (capacity : ℕ) (hslice : consoleMalformed data = false → CarriesSlice S data) :
    ∃ n, Stages S v m (s.consoleDatagram shown v m data capacity).2.1
        (s.consoleDatagram shown v m data capacity).2.2.1 n ∧
      (v.inHeld < (consoleFields data).inOffset → n = 0) ∧ (shown = false → n = 0) := by
  simp only [CallState.consoleDatagram]
  split
  · exact ⟨0, .none rfl rfl rfl, fun _ => rfl, fun _ => rfl⟩
  · split
    · exact ⟨0, .none rfl rfl rfl, fun _ => rfl, fun _ => rfl⟩
    · rename_i hformed
      rw [Bool.not_eq_true] at hformed
      split
      · refine ⟨0, ?_, fun _ => rfl, fun _ => rfl⟩
        split <;> exact .none rfl rfl rfl
      · rename_i hstatus
        have hlen : (consoleFields data).inLength ≤ consoleInMax := by
          simp only [consoleMalformed, Bool.or_eq_false_iff, decide_eq_false_iff_not] at hformed
          omega
        obtain ⟨n, hstages, hbeyond⟩ := View.serve_stages (v := v) (m := m)
          { s with datagrams := bump s.datagrams } (consoleFields data) capacity (hslice hformed)
          (getLe_lt 8 _) hlen
        refine ⟨n, hstages, hbeyond, fun hshown => ?_⟩
        rw [hshown, Bool.false_and] at hstatus
        exact absurd (CallState.consoleStatus_false _ _) hstatus

/-! ## Runs -/

/-- The staged bytes are a prefix of the stream, and no poll has gone past its room. -/
structure Service.InOrder (S : ℕ → UInt8) (t : Service) : Prop where
  staged : t.staged = Memory.load S 0 t.view.inHeld
  fill : t.shown = true → t.view.inFill ≤ t.view.inRoom
  rooms : ∀ p ∈ t.polled, p.staged.length ≤ p.room

variable {t : Service}

namespace Service

theorem InOrder.polls_room (h : t.InOrder S) : ∀ p ∈ t.polls, p.staged.length ≤ p.room := by
  intro p hp
  rcases mem_append.mp hp with hold | hcurrent
  · exact h.rooms p hold
  · cases hshown : t.shown with
    | false => simp [current, hshown] at hcurrent
    | true =>
      simp only [current, hshown, if_true, mem_singleton] at hcurrent
      subst hcurrent
      simpa using h.fill hshown

theorem endPoll_staged (t : Service) : t.endPoll.staged = t.staged := by
  simp [Service.staged, polls, Service.endPoll, current]

theorem InOrder.endPoll (h : t.InOrder S) : t.endPoll.InOrder S where
  staged := t.endPoll_staged.trans h.staged
  fill := by simp [Service.endPoll]
  rooms := h.polls_room

theorem InOrder.of_call (h : t.InOrder S) (call : CallState)
    (delivered : List StopLatch) : ({ t with call, delivered } : Service).InOrder S :=
  { h with }

theorem InOrder.openPoll (h : t.InOrder S) (setup : Option Setup) (memory : Memory) :
    (t.openPoll setup memory).InOrder S := by
  have hend := h.endPoll
  cases setup with
  | none => exact { hend with }
  | some setup =>
    refine ⟨?_, fun _ => Nat.zero_le _, hend.rooms⟩
    have hheld : (t.openPoll (some setup) memory).view.inHeld = t.view.inHeld := rfl
    rw [hheld, ← h.staged]
    simp [Service.staged, polls, Service.openPoll, Service.endPoll, current]

theorem datagram_stages (t : Service) (data : List UInt8) (now : ℕ)
    (hslice : consoleRequest data = true → consoleMalformed data = false → CarriesSlice S data) :
    ∃ n, Stages S t.view t.memory (t.step (.datagram data now)).view
        (t.step (.datagram data now)).memory n ∧
      (t.view.inHeld < (consoleFields data).inOffset → n = 0) ∧ (t.shown = false → n = 0) ∧
      (t.step (.datagram data now)).shown = t.shown ∧
      (t.step (.datagram data now)).polled = t.polled := by
  by_cases hc : consoleRequest data = true
  · obtain ⟨n, hstages, hbeyond, hshown⟩ := CallState.consoleDatagram_stages (v := t.view)
      (m := t.memory) t.call t.shown data sideReplyMax (hslice hc)
    refine ⟨n, ?_, hbeyond, hshown, ?_, ?_⟩
    · simpa [step, stopPort, hc] using hstages
    · simp [step, stopPort, hc]
    · simp [step, stopPort, hc]
  · refine ⟨0, ?_, fun _ => rfl, fun _ => rfl, ?_, ?_⟩
    · simpa [step, stopPort, hc] using Stages.none rfl rfl rfl
    · simp [step, stopPort, hc]
    · simp [step, stopPort, hc]

theorem staged_of_stages {t t' : Service} {n : ℕ}
    (h : Stages S t.view t.memory t'.view t'.memory n) (hidle : t.shown = false → n = 0)
    (hshown : t'.shown = t.shown) (hpolled : t'.polled = t.polled) :
    t'.staged = t.staged ++ Memory.load S t.view.inHeld n := by
  cases hs : t.shown with
  | false => simp [Service.staged, polls, current, hshown, hpolled, hs, hidle hs]
  | true =>
    have happend := t.memory.load_store_append t.view.inBase t.view.inFill
      (Memory.load S t.view.inHeld n)
    rw [load_length] at happend
    simp [Service.staged, polls, current, hshown, hpolled, hs, h.setup, h.fill,
      h.memory, happend]

end Service

/-- Every well-formed console request of the action carries a slice of the stream. -/
def Action.Slices (S : ℕ → UInt8) (a : Action) : Prop :=
  ∀ data now, a = .datagram data now → consoleRequest data = true →
    consoleMalformed data = false → CarriesSlice S data

namespace Service

theorem InOrder.step {a : Action} (h : t.InOrder S) (ha : a.Slices S) :
    (t.step a).InOrder S ∧ t.view.inHeld ≤ (t.step a).view.inHeld := by
  cases a with
  | arm session => exact ⟨h.of_call _ _, le_refl _⟩
  | disarm => exact ⟨h.of_call _ _, le_refl _⟩
  | openPoll setup memory =>
    refine ⟨h.openPoll setup memory, ?_⟩
    cases setup <;> exact le_refl _
  | datagram data now =>
    obtain ⟨n, hstages, -, hidle, hshown, hpolled⟩ := t.datagram_stages data now (ha data now rfl)
    refine ⟨⟨?_, ?_, ?_⟩, ?_⟩
    · rw [staged_of_stages hstages hidle hshown hpolled, h.staged, hstages.held,
        load_add, zero_add]
    · intro hs
      rw [hstages.fill, hstages.setup]
      exact hstages.room (h.fill (hshown ▸ hs))
    · exact hpolled ▸ h.rooms
    · rw [hstages.held]
      exact Nat.le_add_right _ _
  | closePoll out => exact ⟨h.endPoll.of_call _ _, le_refl _⟩
  | recover => exact ⟨h.endPoll.of_call _ _, le_refl _⟩
  | callStats replies replyFailures droppedProxy => exact ⟨h.of_call _ _, le_refl _⟩

theorem InOrder.run (h : t.InOrder S) (actions : List Action)
    (ha : ∀ a ∈ actions, a.Slices S) : (t.run actions).InOrder S := by
  induction actions generalizing t with
  | nil => exact h
  | cons a actions ih =>
    exact ih (h.step (ha a mem_cons_self)).1 fun b hb => ha b (mem_cons_of_mem a hb)

end Service

/-- Over every run that begins with nothing held, the bytes staged are the prefix of the
stream that is held, each poll keeps to its room, what is held only grows, and a request
from beyond it stages nothing. -/
theorem Service.run_staged (S : ℕ → UInt8) (t : Service) (actions : List Action)
    (hheld : t.view.inHeld = 0) (hidle : t.shown = false) (hfresh : t.polled = [])
    (hslices : ∀ a ∈ actions, a.Slices S) :
    (t.run actions).staged = Memory.load S 0 (t.run actions).view.inHeld ∧
      (∀ p ∈ (t.run actions).polls, p.staged.length ≤ p.room) ∧
      (∀ before a after, actions = before ++ a :: after →
        (t.run before).view.inHeld ≤ ((t.run before).step a).view.inHeld) ∧
      ∀ before data now after, actions = before ++ .datagram data now :: after →
        (t.run before).view.inHeld < (consoleFields data).inOffset →
        ((t.run before).step (.datagram data now)).staged = (t.run before).staged ∧
          ((t.run before).step (.datagram data now)).memory = (t.run before).memory ∧
          ((t.run before).step (.datagram data now)).view.inFill = (t.run before).view.inFill := by
  have hstart : t.InOrder S := by
    refine ⟨?_, ?_, ?_⟩
    · simp [Service.staged, Service.polls, Service.current, hidle, hfresh, hheld]
    · simp [hidle]
    · simp [hfresh]
  have hbefore : ∀ before a after, actions = before ++ a :: after →
      (t.run before).InOrder S ∧ a.Slices S := by
    intro before a after heq
    refine ⟨hstart.run before fun b hb => hslices b ?_, hslices a ?_⟩
    · simp [heq, hb]
    · simp [heq]
  have hend := hstart.run actions hslices
  refine ⟨hend.staged, hend.polls_room, ?_, ?_⟩
  · intro before a after heq
    obtain ⟨horder, ha⟩ := hbefore before a after heq
    exact (horder.step ha).2
  · intro before data now after heq hbeyond
    obtain ⟨-, ha⟩ := hbefore before _ after heq
    obtain ⟨n, hstages, hnone, hidle, hshown, hpolled⟩ :=
      (t.run before).datagram_stages data now (ha data now rfl)
    obtain rfl := hnone hbeyond
    refine ⟨?_, ?_, hstages.fill⟩
    · simpa using Service.staged_of_stages hstages hidle hshown hpolled
    · simpa using hstages.memory

def inputRequest (S : ℕ → UInt8) (session owner offset length flags : ℕ) : List UInt8 :=
  let body := putLe 4 consoleRequestMagic ++ putLe 2 consoleVersion ++ putLe 2 consoleExchange ++
    putLe 8 1 ++ putLe 8 session ++ putLe 8 owner ++ putLe 8 offset ++ putLe 8 0 ++
    putLe 2 length ++ putLe 2 0 ++ putLe 4 flags ++ Memory.load S offset length
  body ++ putLe 4 (crc32 body)

/-- A poll with little room, then one with more: a slice cut short, a repeat, a slice from
beyond what is held, and the rest from another owner. -/
def inputInPieces (S : ℕ → UInt8) : List Action :=
  let setup : ℕ → Setup := fun inRoom =>
    { outBase := 16, outSize := 8, outProduced := 0, inBase := 64, inSize := 32, inRoom }
  [.arm 7, .openPoll (some (setup 3)) fun _ => 0,
    .datagram (inputRequest S 7 1 0 5 0) 0, .datagram (inputRequest S 7 1 0 2 0) 0,
    .closePoll none, .openPoll (some (setup 8)) fun _ => 0,
    .datagram (inputRequest S 7 1 9 2 0) 0, .datagram (inputRequest S 7 2 1 7 1) 0]

theorem Service.run_staged_inPieces :
    let S : ℕ → UInt8 := fun n => UInt8.ofNat (65 + n)
    let t : Service := {
      call := callInit
      view :=
        { outBase := 0, outSize := 0, outProduced := 0, inBase := 0, inSize := 0, inRoom := 0 }
      memory := fun _ => 0 }
    (t.run (inputInPieces S)).staged = Memory.load S 0 (t.run (inputInPieces S)).view.inHeld ∧
      (t.run (inputInPieces S)).staged = [65, 66, 67, 68, 69, 70, 71, 72] := by
  intro S t
  have hslices : ∀ a ∈ inputInPieces S, a.Slices S := by
    intro a ha data now heq _ _
    subst heq
    simp only [inputInPieces, mem_cons, reduceCtorEq, false_or, Action.datagram.injEq,
      not_mem_nil, or_false] at ha
    rcases ha with ⟨rfl, -⟩ | ⟨rfl, -⟩ | ⟨rfl, -⟩ | ⟨rfl, -⟩ <;> decide +kernel
  exact ⟨(Service.run_staged S t (inputInPieces S) rfl rfl rfl hslices).1, by decide +kernel⟩

end Q1n1.CallService
