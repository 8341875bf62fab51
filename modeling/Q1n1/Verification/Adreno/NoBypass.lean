import Q1n1.Model.Adreno.Streams

/-! # No stream of the GPU bypasses translation

An SMMUv2 bank with `SCTLR.M` clear passes addresses through. The tools keep every valid entry
of theirs either faulting or on a bank that is on, after each single register write. -/

namespace Q1n1.Adreno

open List

/-! ## Entries and banks -/

def Valid (regs : Regs) (s : Stream) : Prop := regs .smr s.smr &&& smrValid ≠ 0

def On (regs : Regs) (cb : ℕ) : Prop := regs .cbSctlr cb &&& sctlrM ≠ 0

/-- The entry leads the stream to its bank, which is on. -/
structure Routed (regs : Regs) (s : Stream) : Prop where
  smr : regs .smr s.smr = s.wantSmr
  s2cr : regs .s2cr s.smr = s.wantS2cr
  on : On regs s.cb

def streams : List Stream := [gpuStream, gmuStream, lpacStream]

/-- A valid entry faults or leads to a bank that is on; the GPU's second stream is on CB0 only
while the first one is. -/
structure Guarded (regs : Regs) : Prop where
  entry : ∀ s ∈ streams, Valid regs s →
    regs .s2cr s.smr = s2crTypeFault <<< 16 ∨ regs .s2cr s.smr = s.wantS2cr ∧ On regs s.cb
  lpac : Valid regs lpacStream → Routed regs gpuStream

theorem setReg_self (regs : Regs) (r : Reg) (n : ℕ) (v : Word) : setReg regs r n v r n = v :=
  if_pos ⟨rfl, rfl⟩

variable {r : Reg} {n : ℕ}

theorem setReg_of_reg_ne {regs : Regs} {r' : Reg} {n' : ℕ} {v : Word} (h : r' ≠ r) :
    setReg regs r n v r' n' = regs r' n' :=
  if_neg fun hand => h hand.1

theorem setReg_of_index_ne {regs : Regs} {r' : Reg} {n' : ℕ} {v : Word} (h : n' ≠ n) :
    setReg regs r n v r' n' = regs r' n' :=
  if_neg fun hand => h hand.2

theorem smr_inj {s s' : Stream} (hs : s ∈ streams) (hs' : s' ∈ streams) (h : s.smr = s'.smr) :
    s = s' := by
  have hall : ∀ s ∈ streams, ∀ s' ∈ streams, s.smr = s'.smr → s = s' := by decide
  exact hall s hs s' hs' h

/-! ## What the hardware holds -/

variable {hw : Hardware}

theorem and_eq_of_xor_and {a b mask : Word} (h : (a ^^^ b) &&& mask = 0) :
    a &&& mask = b &&& mask := by
  apply BitVec.eq_of_getLsbD_eq
  intro i _
  have hbit := congrArg (BitVec.getLsbD · i) h
  simp only [BitVec.getLsbD_and, BitVec.getLsbD_xor] at hbit ⊢
  cases ha : a.getLsbD i <;> cases hb : b.getLsbD i <;> simp_all

theorem Hardware.latch_eq (hw : Hardware) (hr : r.volatile = false) (hfixed : cbReadbackFixed r = 0)
    (n : ℕ) (old v : Word) : hw.latch r n old v = v := by
  have hholds := and_eq_of_xor_and (hw.latch_holds r n old v hr)
  rw [hfixed, show ~~~(0 : Word) = BitVec.allOnes 32 by decide] at hholds
  simpa only [BitVec.and_allOnes] using hholds

theorem and_sctlrM_eq {a b : Word} (h : (a ^^^ b) &&& ~~~cbReadbackFixed .cbSctlr = 0) :
    a &&& sctlrM = b &&& sctlrM := by
  have hmask : ~~~cbReadbackFixed .cbSctlr &&& sctlrM = sctlrM := by decide
  have hbits := congrArg (· &&& sctlrM) (and_eq_of_xor_and h)
  simpa only [BitVec.and_assoc, hmask] using hbits

def Hardware.wrote (hw : Hardware) (regs : Regs) (r : Reg) (v : Word) (n : ℕ) : Regs :=
  setReg regs r n (hw.latch r n (regs r n) v)

variable {regs : Regs} {s : Stream}

theorem wrote_s2cr (regs : Regs) (s : Stream) (v : Word) :
    hw.wrote regs .s2cr v s.smr .s2cr s.smr = v := by
  rw [Hardware.wrote, setReg_self, hw.latch_eq rfl rfl]

theorem wrote_smr (regs : Regs) (s : Stream) (v : Word) :
    hw.wrote regs .smr v s.smr .smr s.smr = v := by
  rw [Hardware.wrote, setReg_self, hw.latch_eq rfl rfl]

theorem wrote_sctlr (regs : Regs) (cb : ℕ) : On (hw.wrote regs .cbSctlr cbSctlrValue cb) cb := by
  rw [On, Hardware.wrote, setReg_self, and_sctlrM_eq (hw.latch_holds _ _ _ _ rfl)]
  decide

theorem wrote_other_index {n' : ℕ} (h : n' ≠ n) (v : Word) :
    hw.wrote regs r v n r n' = regs r n' := setReg_of_index_ne h

theorem wrote_other_reg {r' : Reg} {v : Word} {n' : ℕ} (h : r' ≠ r := by decide) :
    hw.wrote regs r v n r' n' = regs r' n' := setReg_of_reg_ne h

theorem Routed.wrote (h : Routed regs s) (hne : s.smr ≠ n) (hr : r ≠ .cbSctlr) (v : Word) :
    Routed (hw.wrote regs r v n) s := by
  refine ⟨(setReg_of_index_ne hne).trans h.smr, (setReg_of_index_ne hne).trans h.s2cr, ?_⟩
  rw [On, wrote_other_reg hr.symm]
  exact h.on

/-! ## Writes that keep the guard -/

/-- The GPU's second stream is off where it would be alone without `s`. -/
def Alone (s : Stream) (regs : Regs) : Prop := s = gpuStream → ¬Valid regs lpacStream

def Idle (regs : Regs) (cb : ℕ) : Prop := ∀ s ∈ streams, s.cb = cb → ¬Valid regs s

section

variable (h : Guarded regs)
include h

theorem Guarded.of_eq {regs' : Regs} (hsmr : ∀ n, regs' .smr n = regs .smr n)
    (hs2cr : ∀ n, regs' .s2cr n = regs .s2cr n)
    (hon : ∀ s ∈ streams, Valid regs s → On regs s.cb → On regs' s.cb) : Guarded regs' := by
  constructor
  · intro s hs hvalid
    rw [Valid, hsmr] at hvalid
    rw [hs2cr]
    rcases h.entry s hs hvalid with hfault | ⟨hwant, hson⟩
    · exact .inl hfault
    · exact .inr ⟨hwant, hon s hs hvalid hson⟩
  · intro hvalid
    rw [Valid, hsmr] at hvalid
    obtain ⟨hsmr', hs2cr', hson⟩ := h.lpac hvalid
    refine ⟨by rw [hsmr, hsmr'], by rw [hs2cr, hs2cr'], ?_⟩
    exact hon lpacStream (by decide) hvalid hson

theorem Guarded.wrote_bank {cb : ℕ} (hidle : Idle regs cb) (hsmr : r ≠ .smr) (hs2cr : r ≠ .s2cr)
    (v : Word) :
    Guarded (hw.wrote regs r v cb) ∧ Idle (hw.wrote regs r v cb) cb := by
  constructor
  · apply h.of_eq (fun _ => wrote_other_reg hsmr.symm)
      (fun _ => wrote_other_reg hs2cr.symm)
    intro s hs hvalid hon
    have hcb : s.cb ≠ cb := fun heq => hidle s hs heq hvalid
    rwa [On, Hardware.wrote, setReg_of_index_ne hcb]
  · intro s hs hcb hvalid
    rw [Valid, wrote_other_reg hsmr.symm] at hvalid
    exact hidle s hs hcb hvalid

theorem wrote_bank_sctlr {cb : ℕ} (hidle : Idle regs cb) (v : Word) :
    Guarded (hw.wrote regs .cbSctlr v cb) ∧ Idle (hw.wrote regs .cbSctlr v cb) cb :=
  h.wrote_bank hidle (by decide) (by decide) v

/-- A register that is none of the entries' or banks' switches may be written. -/
theorem Guarded.wrote_other (hsmr : r ≠ .smr) (hs2cr : r ≠ .s2cr) (hsctlr : r ≠ .cbSctlr)
    (v : Word) (n : ℕ) : Guarded (hw.wrote regs r v n) := by
  apply h.of_eq (fun _ => wrote_other_reg hsmr.symm)
    (fun _ => wrote_other_reg hs2cr.symm)
  intro s _ _ hon
  rwa [On, wrote_other_reg hsctlr.symm]

section

variable (hs : s ∈ streams)
include hs

theorem Guarded.fault (halone : Alone s regs) :
    Guarded (hw.wrote regs .s2cr (s2crTypeFault <<< 16) s.smr) := by
  constructor
  · intro s' hs' hvalid
    rw [Valid, wrote_other_reg] at hvalid
    by_cases hsame : s'.smr = s.smr
    · exact .inl (by rw [hsame, wrote_s2cr])
    · rw [wrote_other_index hsame, On, wrote_other_reg]
      exact h.entry s' hs' hvalid
  · intro hvalid
    rw [Valid, wrote_other_reg] at hvalid
    refine (h.lpac hvalid).wrote ?_ (by decide) _
    intro heq
    exact halone (smr_inj hs (by decide) heq.symm) hvalid

theorem Guarded.invalidate (halone : Alone s regs) :
    Guarded (hw.wrote regs .smr 0 s.smr) ∧ ¬Valid (hw.wrote regs .smr 0 s.smr) s := by
  have hinvalid : ¬Valid (hw.wrote regs .smr 0 s.smr) s := by
    rw [Valid, wrote_smr]
    decide
  have hold {s' : Stream} (hs' : s' ∈ streams) (hvalid : Valid (hw.wrote regs .smr 0 s.smr) s') :
      s'.smr ≠ s.smr ∧ Valid regs s' := by
    have hne : s'.smr ≠ s.smr := by
      intro heq
      rw [smr_inj hs' hs heq] at hvalid
      exact hinvalid hvalid
    rw [Valid, wrote_other_index hne] at hvalid
    exact ⟨hne, hvalid⟩
  refine ⟨⟨?_, ?_⟩, hinvalid⟩
  · intro s' hs' hvalid
    rw [wrote_other_reg, On, wrote_other_reg]
    exact h.entry s' hs' (hold hs' hvalid).2
  · intro hvalid
    obtain ⟨-, hvalid⟩ := hold (by decide) hvalid
    refine (h.lpac hvalid).wrote ?_ (by decide) _
    intro heq
    exact halone (smr_inj hs (by decide) heq.symm) hvalid

theorem Guarded.point (hon : On regs s.cb) : Guarded (hw.wrote regs .s2cr s.wantS2cr s.smr) := by
  constructor
  · intro s' hs' hvalid
    rw [Valid, wrote_other_reg] at hvalid
    by_cases hsame : s'.smr = s.smr
    · cases smr_inj hs' hs hsame
      refine .inr ⟨wrote_s2cr regs s _, ?_⟩
      rwa [On, wrote_other_reg]
    · rw [wrote_other_index hsame, On, wrote_other_reg]
      exact h.entry s' hs' hvalid
  · intro hvalid
    rw [Valid, wrote_other_reg] at hvalid
    obtain ⟨hsmr, hs2cr, hgpu⟩ := h.lpac hvalid
    refine ⟨by rw [wrote_other_reg, hsmr], ?_, ?_⟩
    · by_cases hsame : gpuStream.smr = s.smr
      · cases smr_inj (by decide) hs hsame
        rw [wrote_s2cr]
      · rw [wrote_other_index hsame, hs2cr]
    · rwa [On, wrote_other_reg]

/-- An entry that points at its bank is made valid; the GPU's second stream comes last. -/
theorem Guarded.validate (hon : On regs s.cb) (hs2cr : regs .s2cr s.smr = s.wantS2cr)
    (hlast : s = lpacStream → Routed regs gpuStream) :
    Guarded (hw.wrote regs .smr s.wantSmr s.smr) ∧
      Routed (hw.wrote regs .smr s.wantSmr s.smr) s := by
  refine ⟨⟨?_, ?_⟩, ?_⟩
  · intro s' hs' hvalid
    rw [wrote_other_reg, On, wrote_other_reg]
    by_cases hsame : s'.smr = s.smr
    · cases smr_inj hs' hs hsame
      exact .inr ⟨hs2cr, hon⟩
    · rw [Valid, wrote_other_index hsame] at hvalid
      exact h.entry s' hs' hvalid
  · intro hvalid
    have hgpu : Routed regs gpuStream := by
      by_cases hsame : lpacStream.smr = s.smr
      · exact hlast (smr_inj hs (by decide) hsame.symm)
      · rw [Valid, wrote_other_index hsame] at hvalid
        exact h.lpac hvalid
    refine ⟨?_, by rw [wrote_other_reg, hgpu.s2cr], ?_⟩
    · by_cases hsame : gpuStream.smr = s.smr
      · cases smr_inj (by decide) hs hsame
        rw [wrote_smr]
      · rw [wrote_other_index hsame, hgpu.smr]
    · rw [On, wrote_other_reg]
      exact hgpu.on
  · refine ⟨wrote_smr regs s _, by rw [wrote_other_reg, hs2cr], ?_⟩
    rwa [On, wrote_other_reg]

end

end

/-! ## Commands that keep the guard -/

/-- A step either leaves the registers alone or is a write that leaves them guarded. -/
def Step (w w' : World) : Prop :=
  w'.regs = w.regs ∧ w'.moments = w.moments ∨ Guarded w'.regs ∧ w'.moments = w.moments ++ [w'.regs]

/-- From guarded registers with `A`, `m` takes such steps only and ends with `B`. -/
def Keeps {α : Type} (A : Regs → Prop) (m : Op α) (B : α → Regs → Prop) : Prop :=
  Cut.Does Step (fun w => Guarded w.regs ∧ A w.regs) m fun a w => Guarded w.regs ∧ B a w.regs

/-- From guarded registers, whatever else they hold. -/
abbrev KeepsGuard {α : Type} (m : Op α) : Prop := Keeps (fun _ => True) m fun _ _ => True

section

variable {α β : Type} {A A' : Regs → Prop} {B B' : α → Regs → Prop} {C : β → Regs → Prop} {m : Op α}

theorem Keeps.bind {f : α → Op β} (hm : Keeps A m B) (hf : ∀ a, Keeps (B a) (f a) C) :
    Keeps A (m >>= f) C :=
  Cut.Does.bind hm hf

theorem Keeps.pre (h : Keeps A m B) (hA : ∀ regs, Guarded regs → A' regs → A regs) : Keeps A' m B :=
  Cut.Does.pre h fun _ hw => ⟨hw.1, hA _ hw.1 hw.2⟩

theorem Keeps.post (h : Keeps A m B) (hB : ∀ a regs, B a regs → B' a regs) : Keeps A m B' :=
  Cut.Does.post h fun a _ hw => ⟨hw.1, hB a _ hw.2⟩

theorem keeps_pure {a : α} (h : ∀ regs, A regs → B a regs) : Keeps A (pure a) B :=
  Cut.does_pure fun _ hw => ⟨hw.1, h _ hw.2⟩

theorem keeps_same {a : α} : Keeps A (pure a) fun _ => A := keeps_pure fun _ h => h

theorem keeps_ite {c : Prop} [Decidable c] {m₁ m₂ : Op α} (h₁ : c → Keeps A m₁ B)
    (h₂ : ¬c → Keeps A m₂ B) : Keeps A (if c then m₁ else m₂) B :=
  Cut.does_ite h₁ h₂

theorem keeps_onlyIf {c : Bool} {m : Op Unit} {D : Regs → Prop}
    (h₁ : c = true → Keeps A m fun _ => D) (h₂ : c = false → ∀ regs, A regs → D regs) :
    Keeps A (onlyIf c m) fun _ => D :=
  keeps_ite h₁ fun hc => keeps_pure (h₂ (by simpa using hc))

theorem keeps_named (h : ∀ regs, Guarded regs → A regs → Keeps (· = regs) m B) : Keeps A m B := by
  intro w hw
  exact h w.regs hw.1 hw.2 w ⟨hw.1, rfl⟩

theorem keeps_fact {p : Prop} (h : p → Keeps A m B) : Keeps (fun regs => p ∧ A regs) m B := by
  intro w hw
  exact h hw.2.1 w ⟨hw.1, hw.2.2⟩

theorem keeps_raise (reason : Stop) : Keeps A (raise reason : Op α) B := by
  intro w hw
  refine ⟨.single (.inl ⟨rfl, rfl⟩), ?_⟩
  intro a ha
  cases ha

theorem keeps_unless {c : Prop} [Decidable c] {reason : Stop} (h : ¬c → Keeps A m B) :
    Keeps A (if c then raise reason else m) B :=
  keeps_ite (fun _ => keeps_raise reason) h

theorem keeps_check {c : Prop} [Decidable c] (reason : Stop) :
    Keeps A (if c then raise reason else pure ()) fun _ => A :=
  keeps_unless fun _ => keeps_same

theorem keeps_rdVolatile : Keeps A rdVolatile fun _ => A := by
  intro w hw
  cases hstatus : w.status with
  | nil =>
    have heq : rdVolatile w = (none, w) := by
      simp [rdVolatile, Cut.bind_apply, hstatus]
    rw [heq]
    exact ⟨.refl, fun a ha => by cases ha⟩
  | cons v rest =>
    have heq : rdVolatile w = (some v, { w with status := rest }) := by
      simp [rdVolatile, Cut.bind_apply, hstatus]
    rw [heq]
    exact ⟨.single (.inl ⟨rfl, rfl⟩), fun _ _ => hw⟩

theorem keeps_rd_volatile (hr : r.volatile = true) (n : ℕ) : Keeps A (rd r n) fun _ => A := by
  rw [rd, if_pos hr]
  exact keeps_rdVolatile.bind fun a => keeps_same

theorem keeps_rd (hr : r.volatile = false) (n : ℕ) :
    Keeps (· = regs) (rd r n) fun v regs' => v = regs r n ∧ regs' = regs := by
  rw [rd, if_neg (by simp [hr])]
  apply Cut.does_gets
  intro w hw
  exact ⟨hw.1, by rw [hw.2], hw.2⟩

theorem keeps_read {r : Reg} : Keeps A (rd r n) fun _ => A := by
  cases hr : r.volatile with
  | true => exact keeps_rd_volatile hr n
  | false =>
    refine keeps_named fun regs _ h => (keeps_rd hr n).post fun v regs' hv => ?_
    rw [hv.2]
    exact h

theorem keeps_regs : Keeps (· = regs) (Cut.gets fun w => w.regs) fun v regs' =>
    v = regs ∧ regs' = regs := by
  apply Cut.does_gets
  intro w hw
  exact ⟨hw.1, hw.2, hw.2⟩

theorem keeps_wr {v : Word} {D : Regs → Prop}
    (h : ∀ regs, Guarded regs → A regs → Guarded (hw.wrote regs r v n) ∧ D (hw.wrote regs r v n)) :
    Keeps A (wr hw r v n) fun _ => D := by
  intro w hA
  cases hwrites : w.writes with
  | zero =>
    have heq : wr hw r v n w = (none, w) := by
      simp [wr, Cut.bind_apply, hwrites]
    rw [heq]
    exact ⟨.refl, fun a ha => by cases ha⟩
  | succ writes =>
    have heq : wr hw r v n w = (some (), w.write r n (hw.latch r n (w.regs r n) v) writes) := by
      simp [wr, Cut.bind_apply, hwrites]
    rw [heq]
    obtain ⟨hguarded, hD⟩ := h w.regs hA.1 hA.2
    exact ⟨.single (.inr ⟨hguarded, rfl⟩), fun _ _ => ⟨hguarded, hD⟩⟩

end

/-! ## The pieces -/

variable {A : Regs → Prop}

theorem pollTlb_keeps (n : ℕ) (first : Bool) : Keeps A (pollTlb n first) fun _ => A := by
  induction n generalizing first with
  | zero => exact keeps_raise _
  | succ n ih =>
    refine keeps_rdVolatile.bind fun v => keeps_ite (fun _ => keeps_same) fun _ => ?_
    exact keeps_unless fun _ => ih false

variable (cb : ℕ)

theorem smmuTlbi_keeps
    (hA : ∀ regs r v n, r ≠ .smr → r ≠ .s2cr → r ≠ .cbSctlr → A regs → A (hw.wrote regs r v n)) :
    Keeps A (smmuTlbi hw cb) fun _ => A := by
  have hwr (r : Reg) (v : Word) (hsmr : r ≠ .smr) (hs2cr : r ≠ .s2cr) (hsctlr : r ≠ .cbSctlr) :
      Keeps A (wr hw r v cb) fun _ => A :=
    keeps_wr fun regs hg h =>
      ⟨hg.wrote_other hsmr hs2cr hsctlr v cb, hA _ r v cb hsmr hs2cr hsctlr h⟩
  exact (hwr .cbTlbiasid _ (by decide) (by decide) (by decide)).bind fun _ =>
    (hwr .cbTlbsync _ (by decide) (by decide) (by decide)).bind fun _ => pollTlb_keeps 20 true

theorem takeOff_keeps (hs : s ∈ streams) :
    Keeps (Alone s) (takeOff hw s) fun _ regs => ¬Valid regs s ∧ Alone s regs := by
  have hfault : Keeps (Alone s) (wr hw .s2cr (s2crTypeFault <<< 16) s.smr) fun _ => Alone s := by
    refine keeps_wr fun regs hg h => ⟨hg.fault hs h, ?_⟩
    intro heq hvalid
    rw [Valid, wrote_other_reg] at hvalid
    exact h heq hvalid
  refine hfault.bind fun _ => keeps_wr fun regs hg h => ?_
  obtain ⟨hguarded, hinvalid⟩ := hg.invalidate hs h
  refine ⟨hguarded, hinvalid, ?_⟩
  intro heq hvalid
  have hne : lpacStream.smr ≠ s.smr := by
    rw [heq]
    decide
  rw [Valid, wrote_other_index hne] at hvalid
  exact h heq hvalid

theorem putOn_keeps (hs : s ∈ streams) :
    Keeps (fun regs => On regs s.cb ∧ (s = lpacStream → Routed regs gpuStream)) (putOn hw s)
      fun _ regs => Routed regs s := by
  have hpoint : Keeps (fun regs => On regs s.cb ∧ (s = lpacStream → Routed regs gpuStream))
      (wr hw .s2cr s.wantS2cr s.smr) fun _ regs => On regs s.cb ∧
        regs .s2cr s.smr = s.wantS2cr ∧ (s = lpacStream → Routed regs gpuStream) := by
    refine keeps_wr fun regs hg h => ⟨hg.point hs h.1, ?_, wrote_s2cr regs s _, ?_⟩
    · rw [On, wrote_other_reg]
      exact h.1
    · intro heq
      refine (h.2 heq).wrote ?_ (by decide) _
      rw [heq]
      decide
  exact hpoint.bind fun _ => keeps_wr fun regs hg h => hg.validate hs h.1 h.2.1 h.2.2

theorem smmuReadCb_keeps : Keeps (· = regs) (smmuReadCb cb) fun current regs' =>
      current .cbSctlr = regs .cbSctlr cb ∧ regs' = regs := by
  refine keeps_regs.bind fun v => keeps_fact fun hv => ?_
  refine (keeps_rd_volatile rfl cb).bind fun fsr => keeps_pure ?_
  intro regs' hregs
  rw [hv]
  exact ⟨rfl, hregs⟩

theorem on_of_cbDiff {current : Reg → Word} {tables : PageTables} {cb : ℕ} {wide : Bool}
    (h : cbDiff current (smmuCbExpected tables cb wide) = []) :
    current .cbSctlr &&& sctlrM ≠ 0 := by
  simp only [cbDiff, map_eq_nil_iff, filter_eq_nil_iff] at h
  have hsctlr := h (.cbSctlr, cbSctlrValue) (by simp [smmuCbExpected])
  simp only [ne_eq, decide_not, Bool.not_eq_true, Bool.not_eq_false', decide_eq_true_eq] at hsctlr
  rw [and_sctlrM_eq hsctlr]
  decide

/-- A bank without entries is written register by register, and is on at the end. -/
theorem wrBank_keeps (front : List (Reg × Word)) (hfront : ∀ w ∈ front, w.1 ≠ .smr ∧ w.1 ≠ .s2cr) :
    Keeps (fun regs => Idle regs cb) (wrBank hw cb (front ++ [(.cbSctlr, cbSctlrValue)]))
      fun _ regs => Idle regs cb ∧ On regs cb := by
  induction front with
  | nil =>
    have hon : Keeps (fun regs => Idle regs cb) (wr hw .cbSctlr cbSctlrValue cb)
        fun _ regs => Idle regs cb ∧ On regs cb := by
      refine keeps_wr fun regs hg h => ?_
      obtain ⟨hguarded, hidle⟩ := wrote_bank_sctlr hg h cbSctlrValue
      exact ⟨hguarded, hidle, wrote_sctlr regs cb⟩
    exact hon.bind fun _ => keeps_same
  | cons w front ih =>
    obtain ⟨hsmr, hs2cr⟩ := hfront w mem_cons_self
    have hfirst : Keeps (fun regs => Idle regs cb) (wr hw w.1 w.2 cb) fun _ regs => Idle regs cb :=
      keeps_wr fun regs hg h => hg.wrote_bank h hsmr hs2cr w.2
    exact hfirst.bind fun _ => ih fun v hv => hfront v (mem_cons_of_mem w hv)

theorem tlbi_keeps_idle :
    Keeps (fun regs => Idle regs cb) (smmuTlbi hw cb) fun _ regs => Idle regs cb := by
  refine smmuTlbi_keeps cb fun regs r v n hsmr _ _ h s hs hcb hvalid => ?_
  rw [Valid, wrote_other_reg hsmr.symm] at hvalid
  exact h s hs hcb hvalid

theorem tlbi_keeps_on :
    Keeps (fun regs => On regs cb) (smmuTlbi hw cb) fun _ regs => On regs cb := by
  refine smmuTlbi_keeps cb fun regs r v n _ _ hsctlr h => ?_
  rwa [On, wrote_other_reg hsctlr.symm]

theorem tlbi_keeps_routed (s : Stream) :
    Keeps (fun regs => Routed regs s) (smmuTlbi hw cb) fun _ regs => Routed regs s := by
  refine smmuTlbi_keeps cb fun regs r v n hsmr hs2cr hsctlr h => ⟨?_, ?_, ?_⟩
  · rw [wrote_other_reg hsmr.symm, h.smr]
  · rw [wrote_other_reg hs2cr.symm, h.s2cr]
  · rw [On, wrote_other_reg hsctlr.symm]
    exact h.on

/-- The streams that lead to a bank first. -/
def leaders : List Stream := [gpuStream, gmuStream]

theorem leaders_streams (hs : s ∈ leaders) : s ∈ streams ∧ s ≠ lpacStream := by
  have hall : ∀ s ∈ leaders, s ∈ streams ∧ s ≠ lpacStream := by decide
  exact hall s hs

theorem idle_of_leader (hs : s ∈ leaders) (hinvalid : ¬Valid regs s)
    (halone : Alone s regs) : Idle regs s.cb := by
  have hall : ∀ s ∈ leaders, ∀ s' ∈ streams, s'.cb = s.cb →
      s' = s ∨ s = gpuStream ∧ s' = lpacStream := by decide
  intro s' hs' hcb
  rcases hall s hs s' hs' hcb with rfl | ⟨rfl, rfl⟩
  · exact hinvalid
  · exact halone rfl

/-- `smmu_program` takes the stream off before the bank goes off. It never gets that far while
the GPU's second stream is on the bank: then the bank is on and, unless it is left alone, not
as expected, which stops the command. -/
theorem smmuProgram_keeps (tables : PageTables) (hs : s ∈ leaders) (wide : Bool) :
    Keeps (fun _ => True) (smmuProgram hw tables s wide) fun _ regs => Routed regs s := by
  obtain ⟨hstream, hlast⟩ := leaders_streams hs
  refine keeps_named fun regs hg _ => ?_
  refine (smmuReadCb_keeps s.cb).bind fun current => keeps_fact fun hcurrent => ?_
  refine (keeps_rd rfl s.smr).bind fun smr => keeps_fact fun hsmr => ?_
  refine (keeps_rd rfl s.smr).bind fun s2cr => keeps_fact fun hs2cr => ?_
  subst hsmr hs2cr
  refine keeps_ite (fun hdone => keeps_pure ?_) fun hnotDone => ?_
  · intro regs' hregs
    rw [hregs]
    refine ⟨hdone.2.1, hdone.2.2, ?_⟩
    rw [On, ← hcurrent]
    exact on_of_cbDiff hdone.1
  refine keeps_unless fun hours => keeps_unless fun _ => ?_
  have halone : Alone s regs := by
    intro heq hvalid
    obtain ⟨hrsmr, hrs2cr, hron⟩ := hg.lpac hvalid
    rw [← heq] at hrsmr hrs2cr hron
    by_cases hdiff : cbDiff current (smmuCbExpected tables s.cb wide) = []
    · exact hnotDone ⟨hdiff, hrsmr, hrs2cr⟩
    · refine hours ⟨?_, hdiff⟩
      rw [hcurrent]
      exact hron
  have hoff : Keeps (· = regs) (onlyIf (regs .smr s.smr &&& smrValid ≠ 0) do
      takeOff hw s
      smmuTlbi hw s.cb) fun _ regs => Idle regs s.cb := by
    refine keeps_onlyIf (fun _ => ?_) fun hinvalid => ?_
    · have htake : Keeps (· = regs) (takeOff hw s) fun _ regs => Idle regs s.cb := by
        refine ((takeOff_keeps hstream).pre fun regs' _ hregs => ?_).post fun _ regs' h => ?_
        · rw [hregs]
          exact halone
        · exact idle_of_leader hs h.1 h.2
      exact htake.bind fun _ => tlbi_keeps_idle s.cb
    · intro regs' hregs
      rw [hregs]
      exact idle_of_leader hs (by simpa [Valid] using hinvalid) halone
  refine hoff.bind fun _ => ?_
  have hbank : Keeps (fun regs => Idle regs s.cb) (wrBank hw s.cb (bankWrites tables s.cb wide))
      fun _ regs => On regs s.cb :=
    (wrBank_keeps s.cb (bankWrites tables s.cb wide).dropLast (by simp [bankWrites])).post
      fun _ _ h => h.2
  refine hbank.bind fun _ => (tlbi_keeps_on s.cb).bind fun _ => ?_
  refine keeps_named fun regs' _ hon => (smmuReadCb_keeps s.cb).bind fun readback => ?_
  refine keeps_fact fun _ => keeps_unless fun _ => ?_
  have hput : Keeps (· = regs') (putOn hw s) fun _ regs => Routed regs s := by
    refine (putOn_keeps hstream).pre fun regs'' _ hregs => ?_
    rw [hregs]
    exact ⟨hon, fun heq => absurd heq hlast⟩
  exact hput.bind fun _ => keeps_same

theorem smmuUnroute_keeps :
    Keeps (fun _ => True) (smmuUnroute hw lpacStream) fun _ regs => ¬Valid regs lpacStream := by
  refine keeps_named fun regs _ _ => (keeps_rd rfl _).bind fun smr => keeps_fact fun hsmr => ?_
  refine keeps_ite (fun hinvalid => keeps_pure ?_) fun _ => keeps_unless fun _ => ?_
  · intro regs' hregs
    rw [hregs, Valid, ← hsmr]
    exact not_not.mpr hinvalid
  · have htake : Keeps (· = regs) (takeOff hw lpacStream) fun _ regs => ¬Valid regs lpacStream :=
      ((takeOff_keeps (by decide)).pre fun _ _ _ heq => absurd heq (by decide)).post
        fun _ _ h => h.1
    exact htake.bind fun _ => keeps_same

theorem smmuRoute_keeps :
    Keeps (fun regs => Routed regs gpuStream) (smmuRoute hw lpacStream) fun _ _ => True := by
  refine keeps_read.bind fun smr => keeps_read.bind fun s2cr => ?_
  refine keeps_ite (fun _ => keeps_pure fun _ _ => trivial) fun _ => keeps_unless fun _ => ?_
  have hput : Keeps (fun regs => Routed regs gpuStream) (putOn hw lpacStream)
      fun _ regs => Routed regs lpacStream :=
    (putOn_keeps (by decide)).pre fun _ _ h => ⟨h.on, fun _ => h⟩
  exact hput.bind fun _ => keeps_pure fun _ _ => trivial

theorem smmuDisable_keeps (hs : s ∈ leaders) :
    Keeps (Alone s) (smmuDisable hw s) fun _ _ => True := by
  refine keeps_read.bind fun smr => keeps_unless fun _ => ?_
  have hoff : Keeps (fun regs => Idle regs s.cb) (wr hw .cbSctlr 0 s.cb) fun _ _ => True :=
    keeps_wr fun regs hg h => ⟨(wrote_bank_sctlr hg h 0).1, trivial⟩
  have htake : Keeps (Alone s) (takeOff hw s) fun _ regs => Idle regs s.cb :=
    (takeOff_keeps (leaders_streams hs).1).post fun _ _ h => idle_of_leader hs h.1 h.2
  exact htake.bind fun _ => hoff.bind fun _ =>
    smmuTlbi_keeps s.cb fun _ _ _ _ _ _ _ _ => trivial

theorem disableIfOn_keeps (hs : s ∈ leaders) :
    Keeps (Alone s) (disableIfOn hw s) fun _ _ => True := by
  refine keeps_read.bind fun smr => keeps_read.bind fun sctlr => ?_
  exact keeps_ite (fun _ => smmuDisable_keeps hs) fun _ => keeps_pure fun _ _ => trivial

theorem smmuGlobals_keeps : Keeps A smmuGlobals fun _ => A := by
  refine keeps_read.bind fun scr0 => keeps_read.bind fun idr0 =>
    keeps_read.bind fun idr1 => ?_
  exact keeps_unless fun _ => keeps_unless fun _ =>
    keeps_same

theorem ensureUsfcfg_keeps : KeepsGuard (ensureUsfcfg hw) := by
  refine keeps_read.bind fun scr0 => keeps_ite (fun _ => ?_) fun _ => keeps_same
  exact keeps_wr fun regs hg _ =>
    ⟨hg.wrote_other (by decide) (by decide) (by decide) _ _, trivial⟩

theorem keeps_gets {α : Type} (f : World → α) : Keeps A (Cut.gets f) fun _ => A :=
  Cut.does_gets fun _ h => h

theorem smmuVerify_keeps (groups : ℕ) (expect : List (ℕ × ℕ)) :
    KeepsGuard (smmuVerify groups expect) := by
  refine (keeps_gets _).bind fun regs => ?_
  split
  · exact keeps_raise _
  · split
    · exact keeps_raise _
    · exact keeps_check _

theorem sidsReachingMemory_keeps (groups : ℕ) (sids : List ℕ) :
    Keeps A (sidsReachingMemory groups sids) fun _ => A :=
  (keeps_gets _).bind fun _ => keeps_same

/-! ## The commands -/

theorem gmuSmmuVerify_keeps (o : GmuSmmu) (groups : ℕ) : KeepsGuard (gmuSmmuVerify hw o groups) :=
  ensureUsfcfg_keeps.bind fun _ => (smmuVerify_keeps _ _).bind fun _ =>
    keeps_read.bind fun _ => keeps_same

theorem gmuSmmuTables_keeps (o : GmuSmmu) (groups : ℕ) (tables : PageTables) :
    KeepsGuard (gmuSmmuTables hw o groups tables) := by
  refine keeps_ite (fun _ => keeps_unless fun _ => ?_) fun _ => ?_
  · refine keeps_named fun regs _ _ => (smmuReadCb_keeps _).bind fun current => ?_
    exact keeps_unless fun _ =>
      (gmuSmmuVerify_keeps o groups).pre fun _ _ _ => trivial
  · split
    · exact keeps_raise _
    · exact (smmuProgram_keeps tables (by decide) false).bind fun _ =>
        (gmuSmmuVerify_keeps o groups).pre fun _ _ _ => trivial

theorem cmdGmuSmmu_keeps (undo : Bool) (o : GmuSmmu) : KeepsGuard (cmdGmuSmmu hw undo o) := by
  unfold cmdGmuSmmu
  generalize buildTables o.base .gmu false = built
  refine keeps_unless fun _ => smmuGlobals_keeps.bind fun globals => ?_
  refine keeps_ite (fun _ => keeps_unless fun _ => ?_) fun _ => ?_
  · exact (smmuDisable_keeps (by decide)).pre fun _ _ _ heq => absurd heq (by decide)
  · cases built with
    | error why => exact keeps_raise _
    | ok tables => exact gmuSmmuTables_keeps o globals.2 tables

theorem cpFenceC1_keeps (o : CpFence) (tables : PageTables) :
    KeepsGuard (cpFenceC1 hw o tables) := by
  refine smmuGlobals_keeps.bind fun globals => ?_
  refine keeps_named fun regs _ _ => (smmuReadCb_keeps _).bind fun current => ?_
  have hunroute : KeepsGuard (do
      let _ ← smmuUnroute hw lpacStream) :=
    smmuUnroute_keeps.bind fun _ => keeps_pure fun _ _ => trivial
  have hifChanged := keeps_onlyIf
    (c := cbDiff current (smmuCbExpected tables gpuStream.cb o.wide) ≠ [])
    (fun _ => hunroute) fun _ _ _ => trivial
  refine (hifChanged.pre fun _ _ _ => trivial).bind fun _ => ?_
  split
  · exact keeps_raise _
  · rename_i changed _
    refine (smmuProgram_keeps tables (by decide) o.wide).bind fun programmed => ?_
    refine (keeps_onlyIf (fun _ => tlbi_keeps_routed _ gpuStream) fun _ _ h => h).bind fun _ => ?_
    exact smmuRoute_keeps.bind fun _ => ensureUsfcfg_keeps.bind fun _ => smmuVerify_keeps _ _

theorem vaWide_keeps (o : CpFence) : KeepsGuard (vaWide o) := by
  refine keeps_ite (fun _ => keeps_read.bind fun idr2 => ?_) fun _ => keeps_same
  refine keeps_unless fun _ => keeps_ite (fun _ => ?_) fun _ =>
    keeps_same
  exact keeps_read.bind fun tcr => keeps_check _

theorem cmdCpFence_keeps (o : CpFence) : KeepsGuard (cmdCpFence hw o) := by
  unfold cmdCpFence
  generalize buildTables o.base .gpu o.probe = built
  refine keeps_unless fun _ => (vaWide_keeps o).bind fun _ => ?_
  refine keeps_unless fun _ => keeps_ite (fun _ => keeps_same) fun _ => ?_
  refine keeps_unless fun _ => keeps_unless fun _ => ?_
  refine keeps_ite (fun _ => keeps_same) fun _ => ?_
  cases built with
  | error why => exact keeps_raise _
  | ok tables => exact cpFenceC1_keeps o tables

theorem cmdQuiesce_keeps (proven : Bool) : KeepsGuard (cmdQuiesce hw proven) := by
  refine keeps_unless fun _ => smmuGlobals_keeps.bind fun globals => ?_
  have hgpu : Keeps (fun regs => ¬Valid regs lpacStream) (disableIfOn hw gpuStream)
      fun _ _ => True :=
    (disableIfOn_keeps (by decide)).pre fun _ _ h _ => h
  have hgmu : KeepsGuard (disableIfOn hw gmuStream) :=
    (disableIfOn_keeps (by decide)).pre fun _ _ _ heq => absurd heq (by decide)
  refine smmuUnroute_keeps.bind fun _ => hgpu.bind fun _ => hgmu.bind fun _ => ?_
  exact ensureUsfcfg_keeps.bind fun _ => (sidsReachingMemory_keeps _ _).bind fun live =>
    keeps_check _

theorem Command.run_keeps (c : Command) : KeepsGuard (c.run hw) := by
  cases c with
  | gmuSmmu o =>
    rw [Command.run]
    exact cmdGmuSmmu_keeps false o
  | gmuSmmuUndo o =>
    rw [Command.run]
    exact cmdGmuSmmu_keeps true o
  | cpFence o =>
    rw [Command.run]
    exact cmdCpFence_keeps o
  | quiesce proven =>
    rw [Command.run]
    exact cmdQuiesce_keeps proven

/-! ## Sessions -/

def GuardedSoFar (w : World) : Prop := Guarded w.regs ∧ ∀ regs ∈ w.moments, Guarded regs

theorem Step.guarded {w w' : World} (h : Step w w') (hw : GuardedSoFar w) : GuardedSoFar w' := by
  rcases h with ⟨hregs, hmoments⟩ | ⟨hregs, hmoments⟩
  · rwa [GuardedSoFar, hregs, hmoments]
  · refine ⟨hregs, ?_⟩
    rw [hmoments]
    exact forall_mem_append.mpr ⟨hw.2, forall_mem_singleton.mpr hregs⟩

theorem invoke_guarded (h : Guarded regs) (i : Invocation) : GuardedSoFar (invoke hw regs i) := by
  have hkeeps : KeepsGuard (i.command.run hw) := i.command.run_keeps
  obtain ⟨hsteps, -⟩ := hkeeps
    { regs, writes := i.writes, status := i.status, moments := [], stopped := none } ⟨h, trivial⟩
  refine Cut.steps_keep (I := GuardedSoFar) ?_ hsteps ⟨h, by simp⟩
  intro w w' hstep
  exact hstep.guarded

theorem moments_guarded (h : Guarded regs) (session : List Invocation) :
    ∀ regs' ∈ moments hw regs session, Guarded regs' := by
  induction session generalizing regs with
  | nil => simpa [moments] using h
  | cons i session ih =>
    obtain ⟨hnext, hmoments⟩ : GuardedSoFar (invoke hw regs i) := invoke_guarded h i
    intro regs' hmem
    rcases mem_append.mp hmem with hmem | hmem
    · rcases mem_cons.mp hmem with rfl | hmem
      · exact h
      · exact hmoments regs' hmem
    · exact ih hnext regs' hmem

/-- A valid entry of type translate that names a bank with `SCTLR.M` clear. -/
def Bypasses (regs : Regs) (s : Stream) : Prop :=
  regs .smr s.smr &&& smrValid ≠ 0 ∧ s2crType (regs .s2cr s.smr) = s2crTypeTrans ∧
    regs .cbSctlr (regs .s2cr s.smr &&& 0xff).toNat &&& sctlrM = 0

theorem Guarded.not_bypasses (h : Guarded regs) (hs : s ∈ streams) : ¬Bypasses regs s := by
  rintro ⟨hvalid, htype, hoff⟩
  have hbank : ∀ s ∈ streams, (s.wantS2cr &&& 0xff).toNat = s.cb := by decide
  rcases h.entry s hs hvalid with hfault | ⟨hwant, hon⟩
  · rw [hfault] at htype
    revert htype
    decide
  · rw [hwant, hbank s hs] at hoff
    exact hon hoff

/-- From registers in which the tools' entries are invalid, no stream of the GPU bypasses
translation at any moment of any session. -/
theorem moments_no_bypass (hw : Hardware) (regs : Regs)
    (hinvalid : ∀ s ∈ [gpuStream, gmuStream, lpacStream], regs .smr s.smr &&& smrValid = 0)
    (session : List Invocation) :
    ∀ moment ∈ moments hw regs session,
      ∀ s ∈ [gpuStream, gmuStream, lpacStream], ¬Bypasses moment s := by
  have hguarded : Guarded regs := by
    constructor
    · intro s hs hvalid
      exact absurd (hinvalid s hs) hvalid
    · intro hvalid
      exact absurd (hinvalid lpacStream (by decide)) hvalid
  intro moment hmem s hs
  exact (moments_guarded hguarded session moment hmem).not_bypasses hs

/-- Hardware that holds every bit as written. -/
def plainHardware : Hardware where
  latch := fun _ _ _ written => written
  latch_holds := by simp

/-- An SMMU of 25 banks and 8 entries after a reset. -/
def resetRegs : Regs := fun r _ =>
  match r with
  | .idr0 => 8
  | .idr1 => 0x40000019
  | _ => 0

/-- `cp-fence --sqe-probe fault` on an arena at 2 GiB. -/
def probeFence : CpFence where
  proven := true
  sqeOn := false
  bootToken := 1
  cpToken := 0
  hwinitToken := 0
  sqeProbe := 0
  x290 := true
  base := 0x80000000
  written := some true
  wide := false
  probe := true

/-- The GPU's streams go on and off again; the second `cp-fence` is cut in the middle. -/
def fenceSession : List Invocation :=
  [⟨.cpFence probeFence, 100, List.replicate 8 (0, false)⟩,
    ⟨.quiesce true, 100, List.replicate 8 (0, false)⟩,
    ⟨.cpFence probeFence, 7, List.replicate 8 (0, false)⟩]

theorem moments_no_bypass_fenceSession :
    (moments plainHardware resetRegs fenceSession).length = 39 ∧
      ∀ moment ∈ moments plainHardware resetRegs fenceSession,
        ∀ s ∈ [gpuStream, gmuStream, lpacStream], ¬Bypasses moment s :=
  ⟨by decide +kernel, moments_no_bypass plainHardware resetRegs (by decide) fenceSession⟩

end Q1n1.Adreno
