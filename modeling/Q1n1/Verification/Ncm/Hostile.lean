import Q1n1.Library.History
import Q1n1.Model.Ncm.Incoming

/-! # Blocks of any content -/

namespace Q1n1.Ncm

open List Memory Incoming

/-- What holds of the receiving side between any two turns. -/
structure Incoming.Safe (i : Incoming) : Prop where
  /-- the buffer holds the block walked -/
  content : i.rxLength ≠ 0 → ∀ a < i.block.length, i.inBuffer a = i.block.getD a 0
  length : i.rxLength ≤ i.block.length
  ndp : i.rxLength ≠ 0 → i.rxNdp ≠ 0 → i.rxNdp + 8 ≤ i.rxLength
  /-- no block is walked while the controller owns the buffer -/
  owner : i.pending = true → i.rxLength = 0
  reads : ∀ r ∈ i.reads, r.offset + r.size ≤ r.received
  /-- the walk has come to its NDP through smaller ones -/
  forward : i.visited.Pairwise (· < ·)
  last : i.rxLength ≠ 0 → i.rxNdp ≠ 0 → i.visited.getLast? = some i.rxNdp
  bounded : i.taken + i.potential ≤ (i.block.length + 1) * 2 ^ 17
  /-- no transfer was started into a block that had a frame left -/
  started : ∀ turns ∈ i.started, turns = 0
  /-- the block fits the buffer -/
  inside : i.block.length ≤ i.ntbInMax
  size : i.ntbInMax < 2 ^ 32

def Incoming.Carries (i : Incoming) (max : ℕ) (frame : List UInt8) : Prop :=
  frame.length ≤ max ∧ ∃ index, index + frame.length ≤ i.block.length ∧
    frame = (i.block.drop index).take frame.length

variable {i : Incoming}

theorem Incoming.Safe.read (h : i.Safe) {offset size : ℕ} (hin : offset + size ≤ i.block.length) :
    (i.read offset size).Safe := by
  exact { h with reads := History.forall_concat h.reads hin }

theorem pairwise_lt_snoc {l : List ℕ} {b c : ℕ} (h : l.Pairwise (· < ·))
    (hlast : l.getLast? = some b) (hc : b < c) : (l ++ [c]).Pairwise (· < ·) := by
  obtain ⟨init, rfl⟩ := List.getLast?_eq_some_iff.mp hlast
  rw [pairwise_append] at h ⊢
  refine ⟨pairwise_append.mpr h, pairwise_singleton _ _, fun a ha x hx => ?_⟩
  obtain rfl := mem_singleton.mp hx
  rcases mem_append.mp ha with ha | ha
  · exact (h.2.2 a ha b (mem_singleton_self b)).trans hc
  · exact mem_singleton.mp ha ▸ hc

/-! ## The walk -/

def Incoming.Walking (i : Incoming) : Prop := ¬(i.rxLength = 0 ∨ i.rxNdp = 0)

theorem Incoming.Safe.ndp_le (h : i.Safe) (hw : i.Walking) : i.rxNdp + 8 ≤ i.rxLength := by
  rw [Incoming.Walking, not_or] at hw
  exact h.ndp hw.1 hw.2

theorem Incoming.Safe.leave (h : i.Safe) (hw : i.Walking) : i.leave.Safe := by
  have hndp := h.ndp_le hw
  have hlen := h.length
  have hread : (i.read (i.rxNdp + 6) 2).Safe := h.read (by omega)
  have hspent := i.leave_potential hw
  have hbounded := h.bounded
  have hlast := h.last (fun h0 => hw (.inl h0)) fun h0 => hw (.inr h0)
  by_cases hnext : nextNdp i.inBuffer i.rxNdp i.rxLength = 0
  · refine ⟨?_, ?_, ?_, ?_, hread.reads, ?_, ?_, ?_, h.started, h.inside, h.size⟩
    · simp [Incoming.leave, hnext]
    · simp [Incoming.leave, hnext]
    · simp [Incoming.leave, hnext]
    · simp [Incoming.leave, hnext]
    · simpa [Incoming.leave, hnext] using h.forward
    · simp [Incoming.leave, hnext]
    · exact (Nat.add_le_add_left hspent.le _).trans hbounded
  · have hstep : i.rxNdp < nextNdp i.inBuffer i.rxNdp i.rxLength ∧
        nextNdp i.inBuffer i.rxNdp i.rxLength + 8 ≤ i.rxLength := by
      rw [nextNdp] at hnext ⊢
      split at hnext
      · rename_i hc
        rw [if_pos hc]
        exact hc
      · exact absurd rfl hnext
    refine ⟨?_, ?_, ?_, ?_, hread.reads, ?_, ?_, ?_, h.started, h.inside, h.size⟩
    · simpa [Incoming.leave, Incoming.read, hnext] using h.content
    · simpa [Incoming.leave, Incoming.read, hnext] using h.length
    · simpa [Incoming.leave, Incoming.read, hnext] using fun _ => hstep.2
    · simpa [Incoming.leave, Incoming.read, hnext] using h.owner
    · simpa [Incoming.leave, hnext] using pairwise_lt_snoc h.forward hlast hstep.1
    · simp [Incoming.leave, hnext]
    · exact (Nat.add_le_add_left hspent.le _).trans hbounded

theorem Incoming.Safe.entry (h : i.Safe) (hw : i.Walking) (hroom : 4 * (i.rxEntry + 1) ≤ 2 ^ 16) :
    ({ i with rxEntry := i.rxEntry + 1 } : Incoming).Safe ∧
      i.taken + 1 + ({ i with rxEntry := i.rxEntry + 1 } : Incoming).potential ≤
        (i.block.length + 1) * 2 ^ 17 := by
  have hspent : ({ i with rxEntry := i.rxEntry + 1 } : Incoming).potential < i.potential := by
    simp only [potential]
    rw [if_neg hw, if_neg hw]
    omega
  have hbounded := h.bounded
  exact ⟨{ h with bounded := (Nat.add_le_add_left hspent.le _).trans hbounded }, by omega⟩

theorem drop_take_eq_load {m : Memory} {l : List UInt8} {a n : ℕ}
    (h : ∀ k < l.length, m k = l.getD k 0) (hn : a + n ≤ l.length) :
    m.load a n = (l.drop a).take n := by
  apply ext_getElem
  · rw [load_length, length_take, length_drop]
    omega
  · intro k hk hk'
    rw [load_length] at hk
    have := h (a + k) (by omega)
    simp only [Memory.load, getElem_map, getElem_range, getElem_take, getElem_drop, this]
    rw [getD_eq_getElem]

theorem Incoming.Safe.turn (h : i.Safe) (hw : i.Walking) (max : ℕ) :
    (i.turn max).2.Safe ∧ ∀ frame, (i.turn max).1 = some frame →
      (i.turn max).2.Carries max frame := by
  have hndp := h.ndp_le hw
  have hlen := h.length
  have hread : (i.read (i.rxNdp + 4) 2).Safe := h.read (by omega)
  have hlength := le16_lt i.inBuffer (i.rxNdp + 4)
  simp only [Incoming.turn]
  split
  · exact ⟨hread.leave hw, fun frame hf => by cases hf⟩
  · rename_i hguard
    have hin : i.rxNdp + 8 + i.rxEntry * 4 + 4 ≤ i.rxLength := by omega
    obtain ⟨hentry, hspent⟩ := ((hread.read
      (show i.rxNdp + 8 + i.rxEntry * 4 + 2 ≤ i.block.length by omega)).read
      (show i.rxNdp + 8 + i.rxEntry * 4 + 2 + 2 ≤ i.block.length by omega)).entry hw
      (show 4 * (i.rxEntry + 1) ≤ 2 ^ 16 by omega)
    split
    · exact ⟨hentry.leave hw, fun frame hf => by cases hf⟩
    · split
      · exact ⟨{ hentry with }, fun frame hf => by cases hf⟩
      · rename_i hbad
        split
        · exact ⟨{ hentry with }, fun frame hf => by cases hf⟩
        · rename_i hmax
          set index := le16 i.inBuffer (i.rxNdp + 8 + i.rxEntry * 4)
          set length := le16 i.inBuffer (i.rxNdp + 8 + i.rxEntry * 4 + 2)
          have hframe : index + length ≤ i.block.length := by omega
          refine ⟨{ hentry.read (show index + length ≤ i.block.length from hframe) with
            bounded := hspent }, fun frame hf => ?_⟩
          obtain rfl := Option.some.inj hf
          refine ⟨by rw [load_length]; omega, index, by rw [load_length]; exact hframe, ?_⟩
          rw [load_length]
          exact drop_take_eq_load (h.content fun h0 => hw (.inl h0)) hframe

theorem Incoming.Safe.walk (h : i.Safe) (max : ℕ) :
    (i.walk max).2.Safe ∧ ∀ frame, (i.walk max).1 = some frame →
      (i.walk max).2.Carries max frame := by
  induction i using Incoming.walk.induct max with
  | case1 i hstop =>
    rw [Incoming.walk, dif_pos hstop]
    exact ⟨h, fun frame hf => by cases hf⟩
  | case2 i hw frame hturn =>
    rw [Incoming.walk, dif_neg hw, hturn]
    obtain ⟨hsafe, hcarries⟩ := h.turn hw max
    exact ⟨hsafe, fun f hf => hcarries f (hturn.trans hf)⟩
  | case3 i hw hturn ih =>
    rw [Incoming.walk, dif_neg hw, hturn]
    exact ih (h.turn hw max).1

theorem Incoming.walk_none {max : ℕ} (h : (i.walk max).1 = none) :
    (i.walk max).2.potential = 0 := by
  induction i using Incoming.walk.induct max with
  | case1 i hstop =>
    rw [Incoming.walk, dif_pos hstop, potential, if_pos hstop]
  | case2 i hw frame hturn =>
    rw [Incoming.walk, dif_neg hw, hturn] at h
    cases h
  | case3 i hw hturn ih =>
    rw [Incoming.walk, dif_neg hw, hturn] at h ⊢
    exact ih h

/-! ## Transfers -/

theorem Incoming.Safe.post (h : i.Safe) (hspent : i.potential = 0) : i.post.Safe := by
  have hbounded := h.bounded
  refine ⟨fun h0 => absurd rfl h0, Nat.zero_le _, fun h0 => absurd rfl h0, fun _ => rfl, h.reads,
    h.forward, fun h0 => absurd rfl h0, ?_, ?_, h.inside, h.size⟩
  · rw [hspent] at hbounded
    exact hbounded
  · simp only [Incoming.post]
    split
    · exact h.started
    · exact History.forall_concat h.started hspent

theorem Incoming.Safe.land (h : i.Safe) (hidle : i.rxLength = 0) (pending : Bool)
    (bytes : List UInt8) : ({ i.land bytes with pending := pending } : Incoming).Safe :=
  { h with
    content := fun h0 => absurd hidle h0
    owner := fun _ => hidle
    bounded := h.bounded }

theorem Incoming.Safe.reap (h : i.Safe) (hidle : i.rxLength = 0) (landing : Landing) :
    (i.reap landing).2.Safe ∧ (i.reap landing).2.rxLength = 0 := by
  cases landing with
  | nothing bytes => exact ⟨h.land hidle i.pending bytes, hidle⟩
  | failed bytes => exact ⟨h.land hidle false bytes, hidle⟩
  | landed bytes residue => exact ⟨h.land hidle false bytes, hidle⟩

/-- A residue above the transfer's length makes the length negative. -/
theorem moved_le {length : ℕ} (hlength : length < 2 ^ 32) (residue : ℕ)
    (h : 0 < moved length residue) : (moved length residue).toNat ≤ length := by
  have hresidue := Nat.mod_lt residue (show 0 < 2 ^ 24 by decide)
  simp only [moved] at h ⊢
  split at h <;> omega

theorem Incoming.reap_landed {landing : Landing} (h : i.Safe) (hgot : 0 < (i.reap landing).1) :
    (i.reap landing).2.pending = false ∧
      (i.reap landing).1.toNat ≤ (i.reap landing).2.ntbInMax := by
  cases landing with
  | nothing bytes => exact absurd hgot (Int.lt_irrefl 0)
  | failed bytes => exact absurd hgot (by simp [Incoming.reap])
  | landed bytes residue => exact ⟨rfl, moved_le h.size residue hgot⟩

theorem Rx.accept_bounds (r : Rx) (hidle : r.rxLength = 0) (block : List UInt8) :
    (r.accept block).2.inBuffer = r.inBuffer.store 0 block ∧
      (r.accept block).2.rxLength ≤ block.length ∧
      ((r.accept block).2.rxLength ≠ 0 →
        (r.accept block).2.rxNdp = le16 (r.inBuffer.store 0 block) 10 ∧
        (r.accept block).2.rxNdp + 8 ≤ (r.accept block).2.rxLength) ∧
      ((r.accept block).1 = false → (r.accept block).2.rxLength = 0) := by
  simp only [Rx.accept]
  split
  · exact ⟨rfl, hidle.le.trans (Nat.zero_le _), fun h0 => absurd hidle h0, fun _ => hidle⟩
  · generalize hlength : (if le16 (r.inBuffer.store 0 block) 8 ≠ 0 ∧
      le16 (r.inBuffer.store 0 block) 8 ≤ block.length then le16 (r.inBuffer.store 0 block) 8
      else block.length) = length
    have hle : length ≤ block.length := by
      rw [← hlength]
      split <;> omega
    split
    · exact ⟨rfl, Nat.zero_le _, fun h0 => absurd rfl h0, fun _ => rfl⟩
    · rename_i hroom
      exact ⟨rfl, hle, fun _ => ⟨rfl, Nat.le_of_not_lt hroom⟩, fun h => by cases h⟩

theorem Rx.accept_refused (r : Rx) (block : List UInt8)
    (h : block.length < 12 ∨ (r.inBuffer.store 0 block).load 0 4 ≠ nthSignature) :
    (r.accept block).2.rxLength = r.rxLength := by
  simp only [Rx.accept]
  rw [if_pos h]

namespace Incoming

theorem potential_le {n : ℕ} (h : i.rxLength ≤ n) : i.potential ≤ (n + 1) * 2 ^ 17 := by
  simp only [potential]
  split <;> omega

theorem Safe.accept (h : i.Safe) (hidle : i.rxLength = 0) (howner : i.pending = false)
    {got : ℕ} (hgot : got ≤ i.ntbInMax) :
    (i.accept got).2.Safe ∧ ((i.accept got).1 = false → (i.accept got).2.rxLength = 0) := by
  have hlength : (i.inBuffer.load 0 got).length = got := load_length _ _ _
  obtain ⟨hbuffer, hlen, hndp, hfalse⟩ := i.toRx.accept_bounds hidle (i.inBuffer.load 0 got)
  have hrefused := i.toRx.accept_refused (i.inBuffer.load 0 got)
  rw [store_load_self] at hbuffer hndp hrefused
  have hcontent : ∀ a < (i.inBuffer.load 0 got).length,
      (i.toRx.accept (i.inBuffer.load 0 got)).2.inBuffer a = (i.inBuffer.load 0 got).getD a 0 := by
    intro a ha
    rw [hbuffer, getD_eq_getElem _ _ ha]
    simp [Memory.load]
  -- before the reads of its header are on record
  have hfresh : ∀ visited : List ℕ, visited.Pairwise (· < ·) →
      ((i.toRx.accept (i.inBuffer.load 0 got)).2.rxLength ≠ 0 → visited = [le16 i.inBuffer 10]) →
      ({ i with
          block := i.inBuffer.load 0 got
          visited := visited
          taken := 0
          toRx := (i.toRx.accept (i.inBuffer.load 0 got)).2 } : Incoming).Safe := by
    intro visited hforward hvisited
    refine ⟨fun _ => hcontent, hlen, fun hne _ => (hndp hne).2,
      fun hp => absurd (hp.symm.trans howner) (by decide), h.reads, hforward, fun hne _ => ?_,
      (zero_add _).le.trans (potential_le hlen), h.started, hlength.le.trans hgot,
      h.size⟩
    rw [hvisited hne, (hndp hne).1, List.getLast?_singleton]
  simp only [Incoming.accept]
  split
  · rename_i hshort
    have h0 := (hrefused (.inl (hlength.trans_lt hshort))).trans hidle
    exact ⟨hfresh [] List.Pairwise.nil fun hne => absurd h0 hne, fun _ => h0⟩
  · rename_i hlong
    have hheader : ∀ {offset size}, offset + size ≤ 12 →
        offset + size ≤ (i.inBuffer.load 0 got).length := by
      intro offset size hin
      omega
    split
    · rename_i hsignature
      have h0 := (hrefused (.inr fun hs => hsignature ?_)).trans hidle
      · exact ⟨(hfresh [] List.Pairwise.nil fun hne => absurd h0 hne).read
          (hheader (show 0 + 4 ≤ 12 by decide)), fun _ => h0⟩
      · rw [← hs]
        simp only [Memory.load, ← map_take, take_range]
        rw [min_eq_left (by omega)]
    · exact ⟨(((hfresh _ (pairwise_singleton _ _) fun _ => rfl).read
        (hheader (show 0 + 4 ≤ 12 by decide))).read (hheader (show 8 + 2 ≤ 12 by decide))).read
        (hheader (show 10 + 2 ≤ 12 by decide)), hfalse⟩

/-- What a call leaves, with what it returned. -/
structure Leaves (max : ℕ) (frame : Option (List UInt8)) (i : Incoming) : Prop where
  safe : i.Safe
  carries : ∀ f, frame = some f → i.Carries max f
  /-- a call that returns nothing has no block left -/
  spent : frame = none → i.rxLength = 0

theorem Safe.leaves_none (h : i.Safe) (hidle : i.rxLength = 0) (max : ℕ) : i.Leaves max none :=
  ⟨h, fun f hf => (by cases hf), fun _ => hidle⟩

theorem Safe.receive (h : i.Safe) (max : ℕ) (landings : List Landing) :
    (i.receive max landings).2.2.Leaves max (i.receive max landings).1 := by
  induction landings generalizing i with
  | nil =>
    obtain ⟨hsafe, hcarries⟩ := h.walk max
    cases hwalk : (i.walk max).1 with
    | some frame =>
      simp only [receive, hwalk]
      exact ⟨hsafe, fun f hf => hcarries f (hwalk.trans hf), fun hn => by cases hn⟩
    | none =>
      simp only [receive, hwalk]
      exact (hsafe.post (walk_none hwalk)).leaves_none rfl max
  | cons landing rest ih =>
    obtain ⟨hsafe, hcarries⟩ := h.walk max
    cases hwalk : (i.walk max).1 with
    | some frame =>
      simp only [receive, hwalk]
      exact ⟨hsafe, fun f hf => hcarries f (hwalk.trans hf), fun hn => by cases hn⟩
    | none =>
      simp only [receive, hwalk]
      have hpost := hsafe.post (walk_none hwalk)
      obtain ⟨hreap, hidle⟩ := hpost.reap rfl landing
      split
      · exact hreap.leaves_none hidle max
      · rename_i hgot
        obtain ⟨howner, hfits⟩ := reap_landed hpost (Int.not_le.mp hgot)
        obtain ⟨haccept, hrefused⟩ := hreap.accept hidle howner hfits
        split
        · exact ih haccept
        · rename_i hno
          exact haccept.leaves_none (hrefused (Bool.eq_false_iff.mpr hno)) max

theorem Safe.receives (h : i.Safe) (maxes : List ℕ) (landings : List Landing) :
    ∀ r ∈ i.receives maxes landings, r.after.Leaves r.max r.frame := by
  induction maxes generalizing i landings with
  | nil => exact fun r hr => absurd hr not_mem_nil
  | cons max rest ih =>
    intro r hr
    have hcall := h.receive max landings
    rcases mem_cons.mp hr with rfl | hr
    · exact hcall
    · exact ih hcall.safe _ r hr

/-! ## The block is given up -/

theorem turn_keeps (i : Incoming) (max : ℕ) :
    (i.turn max).2.started = i.started ∧ (i.turn max).2.pending = i.pending ∧
      (i.turn max).2.block = i.block ∧
      (i.turn max).2.taken = i.taken + (i.turn max).1.toList.length := by
  simp only [turn]
  split
  · exact ⟨rfl, rfl, rfl, rfl⟩
  · split
    · exact ⟨rfl, rfl, rfl, rfl⟩
    · split
      · exact ⟨rfl, rfl, rfl, rfl⟩
      · split <;> exact ⟨rfl, rfl, rfl, rfl⟩

theorem walk_keeps (i : Incoming) (max : ℕ) :
    (i.walk max).2.started = i.started ∧ (i.walk max).2.pending = i.pending ∧
      (i.walk max).2.block = i.block ∧
      (i.walk max).2.taken = i.taken + (i.walk max).1.toList.length := by
  induction i using walk.induct max with
  | case1 i hstop =>
    rw [walk, dif_pos hstop]
    exact ⟨rfl, rfl, rfl, rfl⟩
  | case2 i hw frame hturn =>
    have hkeeps := i.turn_keeps max
    rw [hturn] at hkeeps
    rw [walk, dif_neg hw, hturn]
    exact hkeeps
  | case3 i hw hturn ih =>
    obtain ⟨hstarted, hpending, hblock, htaken⟩ := i.turn_keeps max
    rw [hturn] at htaken
    rw [walk, dif_neg hw, hturn]
    rw [hstarted, hpending, hblock, htaken] at ih
    exact ih

theorem reap_started (i : Incoming) (landing : Landing) :
    (i.reap landing).2.started = i.started := by
  cases landing <;> rfl

theorem accept_started (i : Incoming) (got : ℕ) : (i.accept got).2.started = i.started := by
  simp only [Incoming.accept]
  split
  · rfl
  · split <;> rfl

theorem post_started_length (i : Incoming) :
    i.post.started.length = i.started.length + if i.pending then 0 else 1 := by
  simp only [post]
  split <;> simp

/-- The call returned a frame of the block in the buffer. -/
structure Yields (i j : Incoming) : Prop where
  block : j.block = i.block
  pending : j.pending = i.pending
  started : j.started = i.started
  taken : j.taken = i.taken + 1

theorem yields_of_walk {max : ℕ} {frame : List UInt8} (h : (i.walk max).1 = some frame) :
    i.Yields (i.walk max).2 := by
  obtain ⟨hstarted, hpending, hblock, htaken⟩ := i.walk_keeps max
  rw [h] at htaken
  exact ⟨hblock, hpending, hstarted, htaken⟩

theorem walk_post_started (i : Incoming) (max : ℕ) :
    (i.walk max).2.post.started.length = i.post.started.length := by
  obtain ⟨hstarted, hpending, -, -⟩ := i.walk_keeps max
  rw [post_started_length, post_started_length, hstarted, hpending]

/-- A call returns a frame of the block in the buffer or starts a transfer. -/
theorem receive_yields_or_starts (i : Incoming) (max : ℕ) (landings : List Landing) :
    i.Yields (i.receive max landings).2.2 ∨
      i.post.started.length ≤ (i.receive max landings).2.2.started.length := by
  induction landings generalizing i with
  | nil =>
    cases hwalk : (i.walk max).1 with
    | some frame =>
      simp only [receive, hwalk]
      exact .inl (yields_of_walk hwalk)
    | none =>
      simp only [receive, hwalk]
      exact .inr (i.walk_post_started max).ge
  | cons landing rest ih =>
    cases hwalk : (i.walk max).1 with
    | some frame =>
      simp only [receive, hwalk]
      exact .inl (yields_of_walk hwalk)
    | none =>
      simp only [receive, hwalk]
      have hreap : ((i.walk max).2.post.reap landing).2.started.length = i.post.started.length := by
        rw [reap_started, i.walk_post_started max]
      refine .inr ?_
      split
      · exact hreap.ge
      · rw [← hreap, ← accept_started]
        split
        · rcases ih _ with hy | hs
          · exact (congrArg List.length hy.started).ge
          · rw [post_started_length] at hs
            exact (Nat.le_add_right _ _).trans hs
        · exact le_refl _

/-- A block in the buffer is given up within a bounded number of calls, whatever it holds. -/
theorem Safe.given_up (h : i.Safe) (hblock : i.pending = false) {maxes : List ℕ}
    (landings : List Landing) (hmany : (i.block.length + 1) * 2 ^ 17 < i.taken + maxes.length) :
    ∃ r ∈ i.receives maxes landings, i.started.length < r.after.started.length := by
  induction maxes generalizing i landings with
  | nil =>
    have := h.bounded
    rw [length_nil] at hmany
    omega
  | cons max rest ih =>
    rw [length_cons] at hmany
    rcases i.receive_yields_or_starts max landings with hy | hs
    · obtain ⟨r, hr, hlt⟩ := ih (h.receive max landings).safe (hy.pending.trans hblock)
        (i.receive max landings).2.1 (by rw [hy.block, hy.taken]; omega)
      rw [hy.started] at hlt
      exact ⟨r, mem_cons_of_mem _ hr, hlt⟩
    · rw [post_started_length, hblock] at hs
      exact ⟨_, mem_cons_self, Nat.lt_of_succ_le hs⟩

/-! ## The link -/

/-- The receiving side of a link just attached; `memory` is what the buffer happens to hold. -/
def attached (ntbInMax : UInt32) (memory : Memory) : Incoming :=
  { inBuffer := memory, ntbInMax := ntbInMax.toNat }

theorem attached_safe (ntbInMax : UInt32) (memory : Memory) : (attached ntbInMax memory).Safe := by
  refine ⟨fun h0 => absurd rfl h0, le_refl _, fun h0 => absurd rfl h0, fun _ => rfl,
    fun r hr => absurd hr not_mem_nil, List.Pairwise.nil, fun h0 => absurd rfl h0, ?_,
    fun t ht => absurd ht not_mem_nil, Nat.zero_le _, ntbInMax.toNat_lt⟩
  simp [potential, attached]

end Incoming

/-- Whatever the blocks hold and whatever lengths are reported, every call of `ncm_receive`
stays inside the block and walks it forward; a frame returned is a run of the block's bytes
that fits the caller; no transfer is started before the block is spent; and a block is given
up after a bounded number of calls. -/
theorem Incoming.receives_contained (ntbInMax : UInt32) (memory : Memory) (maxes : List ℕ)
    (landings : List Landing) :
    ∀ r ∈ (Incoming.attached ntbInMax memory).receives maxes landings,
      r.after.Leaves r.max r.frame ∧
      (r.after.rxLength ≠ 0 → ∀ (later : List ℕ) (more : List Landing),
        (r.after.block.length + 1) * 2 ^ 17 < later.length →
        ∃ s ∈ r.after.receives later more, r.after.started.length < s.after.started.length) := by
  intro r hr
  have hleaves := (Incoming.attached_safe ntbInMax memory).receives maxes landings r hr
  refine ⟨hleaves, fun hwalked later more hmany => ?_⟩
  have howner : r.after.pending = false :=
    Bool.eq_false_iff.mpr fun hp => hwalked (hleaves.safe.owner hp)
  exact hleaves.safe.given_up howner more (by omega)

/-- A block of 40 bytes whose NDP names itself as the next one and lists a frame of two
bytes, an entry outside the block and one more frame. -/
def loopingBlock : List UInt8 :=
  [78, 67, 77, 72, 12, 0, 1, 0, 0, 0, 12, 0] ++
  [0, 0, 0, 0, 24, 0, 12, 0, 36, 0, 2, 0, 255, 255, 255, 255, 38, 0, 2, 0, 0, 0, 0, 0] ++
  [1, 2, 3, 4]

def loopingIncoming : Incoming :=
  (((Incoming.attached 65536 fun _ => 0).post.reap (.landed loopingBlock 65496)).2.accept 40).2

theorem loopingIncoming_walk :
    loopingIncoming.walk 1514 = (some [1, 2], (loopingIncoming.turn 1514).2) := by
  have hturn : (loopingIncoming.turn 1514).1 = some [1, 2] := by decide +kernel
  rw [Incoming.walk, dif_neg (by decide +kernel), hturn]

theorem attached_receive_looping :
    (attached 65536 fun _ => 0).receive 1514 [.landed loopingBlock 65496] =
      (some [1, 2], [], (loopingIncoming.turn 1514).2) := by
  have hidle : (attached 65536 fun _ => 0).walk 1514 = (none, attached 65536 fun _ => 0) := by
    have hspent : (attached 65536 fun _ => 0).rxLength = 0 ∨
        (attached 65536 fun _ => 0).rxNdp = 0 := .inl rfl
    rw [Incoming.walk, dif_pos hspent]
  rw [Incoming.receive, hidle]
  rw [if_neg (by decide), if_pos (by decide +kernel)]
  exact (by rw [Incoming.receive, loopingIncoming_walk] :
    loopingIncoming.receive 1514 [] = _)

theorem Incoming.receives_contained_looping :
    (loopingIncoming.turn 1514).2.Leaves 1514 (some [1, 2]) ∧
      ∃ s ∈ (loopingIncoming.turn 1514).2.receives (List.replicate (41 * 2 ^ 17 + 1) 1514) [],
        s.after.started.length ≠ 1 := by
  obtain ⟨hleaves, hup⟩ := Incoming.receives_contained 65536 (fun _ => 0) [1514]
    [.landed loopingBlock 65496] ⟨1514, some [1, 2], (loopingIncoming.turn 1514).2⟩
    (by rw [Incoming.receives, attached_receive_looping]; exact mem_cons_self)
  obtain ⟨s, hs, hlt⟩ := hup (by decide +kernel) (List.replicate (41 * 2 ^ 17 + 1) 1514) []
    (by
      have hlength : (loopingIncoming.turn 1514).2.block.length = 40 := by decide +kernel
      rw [hlength, length_replicate]
      decide)
  have hstarted : (loopingIncoming.turn 1514).2.started.length = 1 := by decide +kernel
  exact ⟨hleaves, s, hs, (hstarted ▸ hlt).ne'⟩

end Q1n1.Ncm
