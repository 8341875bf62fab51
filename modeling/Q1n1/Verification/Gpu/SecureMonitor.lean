import Q1n1.Library.History
import Q1n1.Model.Gpu.El2

/-! # What the GPU calls can do to the outside -/

namespace Q1n1.Gpu

open World

open History (Every every_concat)

/-! ## What is meant -/

/-- The calls that may be made: init-registers with some of the permitted bits, and the
aperture call. -/
def AllowListed (r : Regs) : Prop :=
  (∃ mask, mask ≠ 0 ∧ mask &&& ~~~reqMask = 0 ∧ r = ⟨initRegs, initArginfo, mask, 0, 0, 0, 0, 0⟩) ∨
  r = ⟨cpAperture, cpApertureArginfo, cpApertureCb0, cpApertureFill, cpApertureFill,
    cpApertureFill, 0, 0⟩

def Regs.resumed (call : Regs) (session : UInt64) : Regs :=
  { call with x0 := interrupted, x6 := session }

/-- The registers of a call, or of one of its resumes. -/
def Regs.Continues (call r : Regs) : Prop := r = call ∨ ∃ session, r = call.resumed session

/-- The monitor has just interrupted a call and `r` takes it up again. -/
structure Resumes (before : List Effect) (r : Regs) (call : Regs) : Prop where
  allowed : AllowListed call
  interrupted : ∃ earlier last reply, before = earlier ++ [.smc last (some reply)] ∧
    call.Continues last ∧ reply.x0 = interrupted ∧ r = call.resumed reply.x6

/-- `r` may be issued now. -/
def Due (before : List Effect) (r : Regs) : Prop := AllowListed r ∨ ∃ call, Resumes before r call

def Justified (before : List Effect) (e : Effect) : Prop :=
  ∀ r reply, e = .smc r reply → Due before r

def Effect.isSmc : Effect → Bool
  | .smc .. => true
  | _ => false

def smcCount (effects : List Effect) : ℕ := effects.countP Effect.isSmc

def stores (effects : List Effect) : List (UInt64 × UInt32) :=
  effects.filterMap fun
    | .store32 phys value => some (phys, value)
    | _ => none

/-- An aligned word of the arena. -/
structure InArena (w : World) (phys : UInt64) : Prop where
  aligned : phys.toNat % 4 = 0
  first : w.state.arenaBase.toNat ≤ phys.toNat
  last : phys.toNat + 4 ≤ w.state.arenaBase.toNat + w.state.arenaSize.toNat

/-- The bootinfo fields show the arena. -/
structure Published (p : Platform) (w : World) : Prop where
  base : p.hasBootBase = true → w.bootBase = w.state.arenaBase
  size : p.hasBootSize = true → w.bootSize = w.state.arenaSize

@[simp] theorem update_effects (w : World) (f : State → State) : (w.update f).effects = w.effects :=
  rfl

@[simp] theorem publish_effects (p : Platform) (w : World) : (publish p w).effects = w.effects :=
  rfl

/-! ## The calls into the monitor -/

theorem smcAllowed_regs {fid x1 x2 x3 : UInt64} (h : smcAllowed fid x1 x2 x3 = true) :
    AllowListed (smcRegs fid x1 x2 x3) := by
  rw [smcAllowed] at h
  split at h
  · rename_i hfid
    simp only [Bool.and_eq_true, decide_eq_true_eq] at h
    obtain ⟨⟨⟨rfl, hmask⟩, hbits⟩, rfl⟩ := h
    subst hfid
    exact .inl ⟨x2, hmask, hbits, rfl⟩
  · split at h
    · rename_i hfid
      simp only [Bool.and_eq_true, decide_eq_true_eq] at h
      obtain ⟨⟨rfl, rfl⟩, rfl⟩ := h
      subst hfid
      exact .inr rfl
    · cases h

/-- What a stretch of code that only talks to the monitor does. -/
structure Talks (budget : ℕ) (w w' : World) : Prop where
  justified : Every Justified w.effects → Every Justified w'.effects
  count : smcCount w'.effects ≤ smcCount w.effects + budget
  stores : stores w'.effects = stores w.effects
  base : w'.state.arenaBase = w.state.arenaBase
  size : w'.state.arenaSize = w.state.arenaSize
  bootBase : w'.bootBase = w.bootBase
  bootSize : w'.bootSize = w.bootSize

/-- Only counters and results of the state record differ. -/
structure Noted (w w' : World) : Prop where
  effects : w'.effects = w.effects
  base : w'.state.arenaBase = w.state.arenaBase
  size : w'.state.arenaSize = w.state.arenaSize
  bootBase : w'.bootBase = w.bootBase
  bootSize : w'.bootSize = w.bootSize

variable {w w' : World}

theorem Noted.talks (budget : ℕ) (h : Noted w w' := by exact ⟨rfl, rfl, rfl, rfl, rfl⟩) :
    Talks budget w w' :=
  ⟨fun hw => h.effects ▸ hw, by rw [h.effects]; omega, by rw [h.effects], h.base, h.size,
    h.bootBase, h.bootSize⟩

theorem Talks.trans {a b : ℕ} {w'' : World} (h : Talks a w w') (h' : Talks b w' w'') :
    Talks (a + b) w w'' := by
  refine ⟨fun hw => h'.justified (h.justified hw), ?_, h'.stores.trans h.stores,
    h'.base.trans h.base, h'.size.trans h.size, h'.bootBase.trans h.bootBase,
    h'.bootSize.trans h.bootSize⟩
  have := h.count
  have := h'.count
  omega

theorem Talks.weaken {a b : ℕ} (h : Talks a w w') (hab : a ≤ b) : Talks b w w' :=
  { h with count := Nat.le_trans h.count (Nat.add_le_add_left hab _) }

theorem issue_talks {r : Regs} {reply : Option Regs} (h : Due w.effects r)
    (hissue : w.issue r = (reply, w')) : Talks 1 w w' := by
  obtain rfl : (w.issue r).2 = w' := congrArg Prod.snd hissue
  refine ⟨fun hw => every_concat.mpr ⟨hw, ?_⟩, ?_, ?_, rfl, rfl, rfl, rfl⟩
  · intro r' reply he
    cases he
    exact h
  · simp [issue, emit, smcCount, Effect.isSmc]
  · simp [issue, emit, Gpu.stores]

theorem emit_delay_talks (w : World) (us : UInt64) : Talks 0 w (w.emit (.delay us)) := by
  refine ⟨fun hw => every_concat.mpr ⟨hw, ?_⟩, ?_, ?_, rfl, rfl, rfl, rfl⟩
  · intro r reply he
    cases he
  · simp [emit, smcCount, Effect.isSmc]
  · simp [emit, Gpu.stores]

theorem issue_effects {r : Regs} {reply : Option Regs} (h : w.issue r = (reply, w')) :
    w'.effects = w.effects ++ [.smc r reply] := by
  cases h
  rfl

theorem Regs.Continues.resume {call r : Regs} (h : call.Continues r) (session : UInt64) :
    { r with x0 := interrupted, x6 := session } = call.resumed session := by
  rcases h with rfl | ⟨_, rfl⟩
  · rfl
  · rfl

variable {p : Platform}

theorem smcLoop_talks {call r : Regs} (hcall : AllowListed call) (hr : call.Continues r)
    (hdue : Due w.effects r) (resumes busy : ℕ) :
    Talks (1 + ((maxResumes - resumes) + (busyRetries - busy))) w
      (smcLoop p call r resumes busy w).2 := by
  -- The measure that makes the loop end is also the number of SMCs it may still issue.
  fun_induction smcLoop p call r resumes busy w with
  | case1 r resumes busy w w' hissue =>
    exact (issue_talks hdue hissue).trans (Noted.talks _)
  | case2 r resumes busy w reply w' hissue w₁ _ w₂ _ =>
    exact (issue_talks hdue hissue).trans (Noted.talks _)
  | case3 r resumes busy w reply w' hissue w₁ hinterrupted w₂ hmore ih =>
    have hissued := issue_talks hdue hissue
    have hnoted : Noted w' w₂ := ⟨rfl, rfl, rfl, rfl, rfl⟩
    have hresumes : Due w₂.effects { r with x0 := interrupted, x6 := reply.x6 } :=
      .inr ⟨call, hcall, w.effects, r, reply, hnoted.effects.trans (issue_effects hissue), hr,
        hinterrupted, hr.resume reply.x6⟩
    have hagain := ih (.inr ⟨reply.x6, hr.resume reply.x6⟩) hresumes
    exact ((hissued.trans (hnoted.talks 0)).trans hagain).weaken (by omega)
  | case4 r resumes busy w reply w' hissue w₁ _ _ =>
    exact (issue_talks hdue hissue).trans (Noted.talks _)
  | case5 r resumes busy w reply w' hissue w₁ _ _ _ w₂ _ =>
    exact (issue_talks hdue hissue).trans (Noted.talks _)
  | case6 r resumes busy w reply w' hissue w₁ _ _ _ w₂ hmore ih =>
    have hissued := issue_talks hdue hissue
    have hnoted : Noted w' w₂ := ⟨rfl, rfl, rfl, rfl, rfl⟩
    have hdelay : Talks 0 w₂ (if p.hasDelay then w₂.emit (.delay busyWaitUs) else w₂) := by
      split
      · exact emit_delay_talks w₂ busyWaitUs
      · exact Noted.talks _
    have hagain := ih (.inl rfl) (.inl hcall)
    exact (((hissued.trans (hnoted.talks 0)).trans hdelay).trans hagain).weaken (by omega)
  | case7 r resumes busy w reply w' hissue w₁ _ _ _ =>
    exact (issue_talks hdue hissue).trans (Noted.talks _)

/-- At most so many SMCs are issued for one call. -/
def smcLimit : ℕ := 1 + (maxResumes + busyRetries)

theorem smc_talks (p : Platform) (fid x1 x2 x3 : UInt64) (w : World) :
    Talks smcLimit w (smc p fid x1 x2 x3 w).2 := by
  rw [smc]
  split
  · rename_i hallowed
    have hcall := smcAllowed_regs hallowed
    split
    · have hloop (w₁ : World) := smcLoop_talks (w := w₁) (p := p) hcall (.inl rfl) (.inl hcall)
      refine (Talks.trans (Noted.talks 0) (hloop _ 0 0)).weaken ?_
      rw [smcLimit]
      omega
    · exact Noted.talks _
  · exact Noted.talks _

/-! ## The other operations -/

/-- What any call does: it may change the arena, and store to the one there was. -/
structure Confined (p : Platform) (w w' : World) : Prop where
  justified : Every Justified w.effects → Every Justified w'.effects
  count : smcCount w'.effects ≤ smcCount w.effects + smcLimit
  stores : ∃ new, stores w'.effects = stores w.effects ++ new ∧ ∀ s ∈ new, InArena w s.1
  published : Published p w → Published p w'

theorem Talks.confined (h : Talks smcLimit w w') : Confined p w w' := by
  refine ⟨h.justified, h.count, ⟨[], by rw [h.stores]; simp, by simp⟩, fun hw => ⟨?_, ?_⟩⟩
  · intro hbase
    rw [h.bootBase, h.base, hw.base hbase]
  · intro hsize
    rw [h.bootSize, h.size, hw.size hsize]

theorem publish_published (p : Platform) (w : World) : Published p (publish p w) := by
  constructor
  · intro hbase
    simp [publish, hbase]
  · intro hsize
    simp [publish, hsize]

theorem publish_confined (h : w'.effects = w.effects) : Confined p w (publish p w') :=
  ⟨fun hw => by rw [publish, h]; exact hw, by simp [publish, h],
    ⟨[], by simp [publish, h], by simp⟩, fun _ => publish_published p w'⟩

theorem Noted.confined (h : Noted w w' := by exact ⟨rfl, rfl, rfl, rfl, rfl⟩) : Confined p w w' :=
  (h.talks smcLimit).confined

theorem adopt_confined (p : Platform) (w : World) (base size : UInt64) (attr : UInt32) :
    Confined p w (w.adopt p base size attr) := by
  rw [adopt]
  split
  · refine ⟨fun hw => every_concat.mpr ⟨hw, ?_⟩, ?_, ⟨[], ?_, by simp⟩,
      fun _ => publish_published p _⟩
    · intro r reply he
      cases he
    · simp [publish, emit, smcCount, Effect.isSmc]
    · simp [publish, emit, Gpu.stores]
  · exact publish_confined rfl

theorem Noted.trans_confined {w₁ : World} (h : Noted w w₁) (h' : Confined p w₁ w') :
    Confined p w w' := by
  obtain ⟨new, hstores, hnew⟩ := h'.stores
  refine ⟨fun hw => h'.justified (h.effects ▸ hw), h.effects ▸ h'.count,
    ⟨new, h.effects ▸ hstores, fun s hs => ?_⟩, fun hw => h'.published ⟨?_, ?_⟩⟩
  · have hs := hnew s hs
    exact ⟨hs.aligned, h.base ▸ hs.first, h.base ▸ h.size ▸ hs.last⟩
  · intro hbase
    rw [h.bootBase, h.base, hw.base hbase]
  · intro hsize
    rw [h.bootSize, h.size, hw.size hsize]

theorem Confined.trans_noted {w₁ : World} (h : Confined p w w₁) 
    (h' : Noted w₁ w' := by exact ⟨rfl, rfl, rfl, rfl, rfl⟩) : Confined p w w' := by
  refine ⟨fun hw => h'.effects ▸ h.justified hw, h'.effects ▸ h.count, h'.effects ▸ h.stores,
    fun hw => ⟨?_, ?_⟩⟩
  · intro hbase
    rw [h'.bootBase, h'.base, (h.published hw).base hbase]
  · intro hsize
    rw [h'.bootSize, h'.size, (h.published hw).size hsize]

theorem claim_confined (p : Platform) (size limit align : UInt64) (w : World) :
    Confined p w (claim p size limit align w).2 := by
  have hnoted : Noted w (w.update fun s => { s with claims := s.claims + 1 }) :=
    ⟨rfl, rfl, rfl, rfl, rfl⟩
  rw [claim]
  generalize w.update _ = w₁ at hnoted
  split
  · exact hnoted.confined
  split
  · exact hnoted.confined
  split
  · exact hnoted.trans_confined (adopt_confined ..)
  split
  · exact hnoted.confined
  · exact hnoted.trans_confined (adopt_confined ..)

theorem release_confined (p : Platform) (a1 : UInt64) (w : World) :
    Confined p w (release p a1 w).2 := by
  rw [release]
  split
  · exact Noted.confined
  · exact publish_confined rfl

theorem inArena_of_checks {phys : UInt64} (hfour : ¬w.state.arenaSize < 4)
    (haligned : ¬phys &&& 3 ≠ 0) (hfirst : ¬phys < w.state.arenaBase)
    (hlast : ¬w.state.arenaSize - 4 < phys - w.state.arenaBase) : InArena w phys := by
  have haligned : (phys &&& 3).toNat = 0 := by
    rw [not_not.mp haligned]
    rfl
  rw [UInt64.toNat_and, show (3 : UInt64).toNat = 2 ^ 2 - 1 from rfl,
    Nat.and_two_pow_sub_one_eq_mod] at haligned
  rw [UInt64.lt_iff_toNat_lt] at hfour hfirst hlast
  rw [UInt64.toNat_sub_of_le _ _ (UInt64.le_iff_toNat_le.mpr (Nat.not_lt.mp hfour)),
    UInt64.toNat_sub_of_le _ _ (UInt64.le_iff_toNat_le.mpr (Nat.not_lt.mp hfirst))] at hlast
  have hval : (4 : UInt64).toNat = 4 := rfl
  exact ⟨haligned, by omega, by omega⟩

theorem store32_confined (p : Platform) (a1 a2 : UInt64) (w : World) :
    Confined p w (store32 p a1 a2 w).2 := by
  rw [store32]
  split
  · exact Noted.confined
  · rename_i hok
    simp only [Bool.or_eq_true, not_or, decide_eq_true_eq, Bool.not_eq_true] at hok
    obtain ⟨⟨⟨⟨⟨⟨-, -⟩, hfour⟩, haligned⟩, hfirst⟩, hlast⟩, -⟩ := hok
    refine ⟨fun hw => every_concat.mpr ⟨hw, ?_⟩, ?_, ⟨[(a1, a2.toUInt32)], ?_, ?_⟩,
      fun hw => ⟨hw.base, hw.size⟩⟩
    · intro r reply he
      cases he
    · simp [emit, smcCount, Effect.isSmc]
    · simp [emit, Gpu.stores]
    · intro s hs
      obtain rfl := List.mem_singleton.mp hs
      exact inArena_of_checks hfour haligned hfirst hlast

theorem call_confined (p : Platform) (c : Call) (w : World) : Confined p w (call p c w).2 := by
  rw [call]
  split
  · exact Noted.confined
  split
  · exact (claim_confined p c.a1 c.a2 c.a3 w).trans_noted
  split
  · exact (smc_talks p c.a1 c.a2 c.a3 c.a4 w).confined.trans_noted
  split
  · exact release_confined p c.a1 w
  split
  · exact store32_confined p c.a1 c.a2 w
  · exact Noted.confined

theorem start_effects (p : Platform) (bootBase bootSize bootFlags : UInt64)
    (replies : ℕ → Option Regs) : (start p bootBase bootSize bootFlags replies).effects = [] := by
  rw [start, init, publish_effects]
  split <;> rfl

theorem run_justified (hw : Every Justified w.effects) (calls : List Call) :
    Every Justified (run p w calls).effects := by
  induction calls generalizing w with
  | nil => exact hw
  | cons c calls ih => exact ih ((call_confined p c w).justified hw)

theorem run_published (hw : Published p w) (calls : List Call) : Published p (run p w calls) := by
  induction calls generalizing w with
  | nil => exact hw
  | cons c calls ih => exact ih ((call_confined p c w).published hw)

/-- Whatever was called before and whatever the monitor answers: every SMC is an allowed call or
takes up the one that was just interrupted, a call issues a bounded number of them, and it
stores only to aligned words of the arena that is published when it is made. -/
theorem run_call_confined (p : Platform) (bootBase bootSize bootFlags : UInt64)
    (replies : ℕ → Option Regs) (calls : List Call) (c : Call) :
    let w := run p (start p bootBase bootSize bootFlags replies) calls
    let w' := (call p c w).2
    Every Justified w'.effects ∧ smcCount w'.effects ≤ smcCount w.effects + smcLimit ∧
      (∃ new, stores w'.effects = stores w.effects ++ new ∧ ∀ s ∈ new, InArena w s.1) ∧
      Published p w := by
  intro w w'
  have hstart : Every Justified (start p bootBase bootSize bootFlags replies).effects := by
    rw [start_effects]
    exact History.every_nil
  have hcall := call_confined p c w
  exact ⟨hcall.justified (run_justified hstart calls), hcall.count, hcall.stores,
    run_published (publish_published p _) calls⟩

end Q1n1.Gpu
