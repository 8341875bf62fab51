import Q1n1.Model.NvmeHash.Sha256
import Mathlib.Tactic.IntervalCases

/-! # Both block functions compute the compression of FIPS 180-4 -/

namespace Q1n1.NvmeHash

open List Function

open Sha256 (Word Hash)
open Arm (Instr Regs Vec)

theorem k_eq_roundConstants : k = Sha256.roundConstants := by decide +kernel

theorem k256_eq_roundConstants : k256 = Sha256.roundConstants := by decide +kernel

theorem init_h (s : State) : (init s).h = Sha256.initial := by
  show (⟨_, _, _, _, _, _, _, _⟩ : Hash) = _
  decide +kernel

/-! ## The portable transform -/

theorem ror_eq_rotateRight (x : Word) {n : ℕ} (h : n < 32) : ror x n = x.rotateRight n := by
  rw [ror, BitVec.rotateRight_def, Nat.mod_eq_of_lt h]

variable (p : List UInt8)

theorem inputWord_eq_blockWord (i : ℕ) : inputWord p i = Sha256.blockWord p i := by
  simp only [inputWord, Sha256.blockWord, Sha256.wordBe, mul_comm i 4]
  generalize (p.getD (4 * i) 0).toBitVec = b₀
  generalize (p.getD (4 * i + 1) 0).toBitVec = b₁
  generalize (p.getD (4 * i + 2) 0).toBitVec = b₂
  generalize (p.getD (4 * i + 3) 0).toBitVec = b₃
  ext j hj
  simp only [BitVec.getElem_or, BitVec.getElem_shiftLeft, BitVec.getElem_setWidth]
  grind

/-- A list of words holds the start of a block's schedule. -/
def Scheduled (block : List UInt8) (w : List Word) : Prop :=
  16 ≤ w.length ∧ ∀ t < w.length, w.getD t 0 = Sha256.schedule block t

theorem scheduled_input : Scheduled p ((range 16).map (inputWord p)) := by
  refine ⟨by simp, fun t ht => ?_⟩
  have ht : t < 16 := by simpa using ht
  simp [ht, inputWord_eq_blockWord, Sha256.schedule_of_lt p ht]

variable {block : List UInt8} {w : List Word}

section

variable (h : Scheduled block w)
include h

theorem Scheduled.nextWord : nextWord w = Sha256.schedule block w.length := by
  obtain ⟨n, hn⟩ := Nat.exists_eq_add_of_le' h.1
  simp only [NvmeHash.nextWord]
  rw [h.2 _ (by omega), h.2 _ (by omega), h.2 _ (by omega), h.2 _ (by omega), hn,
    Sha256.schedule_add]
  simp only [ror_eq_rotateRight _ (show 7 < 32 by decide),
    ror_eq_rotateRight _ (show 18 < 32 by decide), ror_eq_rotateRight _ (show 17 < 32 by decide),
    ror_eq_rotateRight _ (show 19 < 32 by decide)]
  show Sha256.schedule block n + Sha256.smallSigma0 (Sha256.schedule block (n + 1))
    + Sha256.schedule block (n + 9) + Sha256.smallSigma1 (Sha256.schedule block (n + 14)) = _
  ac_rfl

theorem Scheduled.snoc : Scheduled block (w ++ [NvmeHash.nextWord w]) := by
  refine ⟨by simpa using Nat.le_succ_of_le h.1, fun t ht => ?_⟩
  by_cases hlt : t < w.length
  · rw [getD_append _ _ _ _ hlt]
    exact h.2 t hlt
  · have ht : t = w.length := by simp at ht; omega
    subst ht
    rw [getD_append_right _ _ _ _ (le_refl _), Nat.sub_self]
    exact h.nextWord

theorem Scheduled.extend (n : ℕ) :
    Scheduled block (NvmeHash.extend n w) ∧ (NvmeHash.extend n w).length = w.length + n := by
  induction n generalizing w with
  | zero => exact ⟨h, rfl⟩
  | succ n ih =>
    obtain ⟨hs, hl⟩ := ih h.snoc
    refine ⟨hs, hl.trans ?_⟩
    simp
    omega

omit h in
theorem transformRound_eq_round (s : Hash) (k w : Word) :
    transformRound s k w = Sha256.round s (k + w) := by
  simp only [transformRound, ror_eq_rotateRight _ (show 6 < 32 by decide),
    ror_eq_rotateRight _ (show 11 < 32 by decide), ror_eq_rotateRight _ (show 25 < 32 by decide),
    ror_eq_rotateRight _ (show 2 < 32 by decide), ror_eq_rotateRight _ (show 13 < 32 by decide),
    ror_eq_rotateRight _ (show 22 < 32 by decide)]
  simp only [Sha256.round, Sha256.bigSigma0, Sha256.bigSigma1, Sha256.ch, Sha256.maj,
    BitVec.add_assoc]

theorem transformRounds_eq_rounds (s : Hash) (n i : ℕ) (hn : i + n ≤ w.length) :
    transformRounds w n i (Sha256.rounds block s i) = Sha256.rounds block s (i + n) := by
  induction n generalizing i with
  | zero => rfl
  | succ n ih =>
    rw [transformRounds, transformRound_eq_round, h.2 i (by omega), k_eq_roundConstants,
      ← Sha256.rounds_succ, ih (i + 1) (by omega)]
    congr 1
    omega

end

theorem Hash.add_comm (s t : Hash) : s.add t = t.add s := by
  simp only [Hash.add, BitVec.add_comm s.a, BitVec.add_comm s.b, BitVec.add_comm s.c,
    BitVec.add_comm s.d, BitVec.add_comm s.e, BitVec.add_comm s.f, BitVec.add_comm s.g,
    BitVec.add_comm s.h]

theorem transform_eq_compress (h : Hash) (p : List UInt8) :
    transform h p = Sha256.compress h p := by
  obtain ⟨hs, hl⟩ := (scheduled_input p).extend 48
  have hrounds := transformRounds_eq_rounds hs h 64 0 (by simp [hl])
  rw [transform, Hash.add_comm, Sha256.compress]
  simpa using congrArg (·.add h) hrounds

theorem transformBlocks_eq_absorb (n : ℕ) (h : Hash) (p : List UInt8) :
    transformBlocks n h p = Sha256.absorb n h p := by
  induction n generalizing h p with
  | zero => rfl
  | succ n ih => rw [transformBlocks, ih, transform_eq_compress, Sha256.absorb]

/-! ## The block loop with the SHA-256 instructions -/

/-- The rounds with a new quarter of the schedule change only the state, the scratch
registers and the quarter they replace. -/
theorem run_roundsS (v : Regs) (k w0 w1 w2 w3 : ℕ) (h0 : 4 ≤ w0) (h1 : 4 ≤ w1)
    (h2 : 4 ≤ w2) (h3 : 4 ≤ w3) (h02 : w2 ≠ w0) (h03 : w3 ≠ w0) :
    let v' := Arm.run v (roundsS k w0 w1 w2 w3)
    v' 0 = (Arm.sha256hash (v 0) (v 1) ((v w0).add (v k))).1 ∧
    v' 1 = (Arm.sha256hash (v 0) (v 1) ((v w0).add (v k))).2 ∧
    v' w0 = Arm.sha256su1 (Arm.sha256su0 (v w0) (v w1)) (v w2) (v w3) ∧
    ∀ r, 4 ≤ r → r ≠ w0 → v' r = v r := by
  simp (disch := omega) only [roundsS, Arm.run_cons, Arm.run_nil, Instr.exec, Instr.dest,
    Instr.value, update_self, update_of_ne, Arm.sha256h, Arm.sha256h2, ne_eq]
  refine ⟨trivial, trivial, trivial, fun r hr hne => ?_⟩
  simp (disch := omega) only [update_of_ne]

theorem run_rounds (v : Regs) (k w : ℕ) :
    let v' := Arm.run v (rounds k w)
    v' 0 = (Arm.sha256hash (v 0) (v 1) ((v w).add (v k))).1 ∧
    v' 1 = (Arm.sha256hash (v 0) (v 1) ((v w).add (v k))).2 ∧
    ∀ r, 4 ≤ r → v' r = v r := by
  simp (disch := omega) only [rounds, Arm.run_cons, Arm.run_nil, Instr.exec, Instr.dest,
    Instr.value, update_self, update_of_ne, Arm.sha256h, Arm.sha256h2]
  refine ⟨trivial, trivial, fun r hr => ?_⟩
  simp (disch := omega) only [update_of_ne]

/-- The vector of the constants of rounds `4 * i` to `4 * i + 3`. -/
def constantQuad (i : ℕ) : Vec := Arm.quad (fun t => Sha256.roundConstants.getD t 0) (4 * i)

/-- The registers before the `j`-th group of four rounds: the working variables, the up to
four quarters of the schedule still to be used, and the constants. -/
structure Midway (block : List UInt8) (s : Hash) (j : ℕ) (v : Regs) : Prop where
  state : (v 0, v 1) = Arm.vecsOf (Sha256.rounds block s (4 * j))
  words : ∀ n, j ≤ n → n < j + 4 → n < 16 → v (4 + n % 4) = Arm.quad (Sha256.schedule block) (4 * n)
  constants : ∀ i < 16, v (16 + i) = constantQuad i

variable {v : Regs} {s : Hash}

theorem Midway.hash {j : ℕ} (h : Midway block s j v) (hj : j < 16) :
    Arm.sha256hash (v 0) (v 1) ((v (4 + j % 4)).add (v (16 + j))) =
      Arm.vecsOf (Sha256.rounds block s (4 * (j + 1))) := by
  have h0 : v 0 = (Arm.vecsOf (Sha256.rounds block s (4 * j))).1 := congrArg Prod.fst h.state
  have h1 : v 1 = (Arm.vecsOf (Sha256.rounds block s (4 * j))).2 := congrArg Prod.snd h.state
  rw [h0, h1, h.words j (le_refl _) (by omega) hj, h.constants j hj, Arm.sha256hash_eq_rounds]
  simp only [Arm.quad, constantQuad, Vec.add, foldl_cons, foldl_nil,
    BitVec.add_comm (Sha256.schedule _ _), ← Sha256.rounds_succ]
  rfl

def scheduleGroup (j : ℕ) : List Instr :=
  roundsS (16 + j) (4 + j % 4) (4 + (j + 1) % 4) (4 + (j + 2) % 4) (4 + (j + 3) % 4)

theorem Midway.scheduleGroup {j : ℕ} (h : Midway block s j v) (hj : j < 12) :
    Midway block s (j + 1) (Arm.run v (scheduleGroup j)) := by
  obtain ⟨e0, e1, ew, er⟩ := run_roundsS v (16 + j) (4 + j % 4) (4 + (j + 1) % 4)
    (4 + (j + 2) % 4) (4 + (j + 3) % 4) (by omega) (by omega) (by omega) (by omega) (by omega)
    (by omega)
  have hhash := h.hash (by omega)
  refine ⟨?_, fun n hn hn4 h16 => ?_, fun i hi => ?_⟩
  · exact Prod.ext (e0.trans (congrArg Prod.fst hhash)) (e1.trans (congrArg Prod.snd hhash))
  · rcases lt_or_ge n (j + 4) with hlt | hge
    · exact (er _ (by omega) (by omega)).trans (h.words n (by omega) hlt h16)
    · -- The new quarter takes the place of the one just used.
      obtain rfl : n = j + 4 := by omega
      have hreg : 4 + (j + 4) % 4 = 4 + j % 4 := by omega
      have hnew := Arm.sha256su1_su0_schedule block (4 * j)
      rw [hreg]
      refine ew.trans ?_
      rw [h.words j (by omega) (by omega) (by omega),
        h.words (j + 1) (by omega) (by omega) (by omega),
        h.words (j + 2) (by omega) (by omega) (by omega),
        h.words (j + 3) (by omega) (by omega) (by omega)]
      simpa only [mul_add, Nat.reduceMul] using hnew
  · exact (er _ (by omega) (by omega)).trans (h.constants i hi)

def lastGroup (j : ℕ) : List Instr := rounds (16 + j) (4 + j % 4)

theorem Midway.lastGroup {j : ℕ} (h : Midway block s j v) (hj : 12 ≤ j) (hj' : j < 16) :
    Midway block s (j + 1) (Arm.run v (lastGroup j)) := by
  obtain ⟨e0, e1, er⟩ := run_rounds v (16 + j) (4 + j % 4)
  have hhash := h.hash hj'
  refine ⟨?_, fun n hn hn4 h16 => ?_, fun i hi => ?_⟩
  · exact Prod.ext (e0.trans (congrArg Prod.fst hhash)) (e1.trans (congrArg Prod.snd hhash))
  · exact (er _ (by omega)).trans (h.words n (by omega) (by omega) h16)
  · exact (er _ (by omega)).trans (h.constants i hi)

theorem Midway.scheduleGroups (h : Midway block s 0 v) (n : ℕ) (hn : n ≤ 12) :
    Midway block s n (Arm.run v ((range n).flatMap NvmeHash.scheduleGroup)) := by
  induction n with
  | zero => exact h
  | succ n ih =>
    rw [range_succ, flatMap_append, Arm.run_append, flatMap_singleton]
    exact (ih (by omega)).scheduleGroup (by omega)

theorem Midway.lastGroups (h : Midway block s 12 v) (n : ℕ) (hn : n ≤ 4) : Midway block s (12 + n)
      (Arm.run v ((range n).flatMap fun i => NvmeHash.lastGroup (12 + i))) := by
  induction n with
  | zero => exact h
  | succ n ih =>
    rw [range_succ, flatMap_append, Arm.run_append, flatMap_singleton]
    exact (ih (by omega)).lastGroup (by omega) (by omega)

theorem reverseBytes_wordLe (i : ℕ) : Arm.reverseBytes (wordLe p i) = Sha256.blockWord p i := by
  simp only [Arm.reverseBytes, wordLe, Sha256.blockWord, Sha256.wordBe]
  generalize (p.getD (4 * i) 0).toBitVec = b₀
  generalize (p.getD (4 * i + 1) 0).toBitVec = b₁
  generalize (p.getD (4 * i + 2) 0).toBitVec = b₂
  generalize (p.getD (4 * i + 3) 0).toBitVec = b₃
  ext j hj
  grind

theorem blockProgram_eq : blockProgram = [.rev32 4 4, .rev32 5 5, .rev32 6 6, .rev32 7 7] ++
      (range 12).flatMap scheduleGroup ++
      (range 4).flatMap fun i => lastGroup (12 + i) := rfl

/-- The registers between two blocks: the hash value and the constants. -/
structure Between (h : Hash) (v : Regs) : Prop where
  state : (v 0, v 1) = Arm.vecsOf h
  constants : ∀ i < 16, v (16 + i) = constantQuad i

theorem Between.midway {h : Hash} (hv : Between h v) (p : List UInt8) : Midway p h 0
      (Arm.run (loadBlock v p) [.rev32 4 4, .rev32 5 5, .rev32 6 6, .rev32 7 7]) := by
  simp (disch := omega) only [Arm.run_cons, Arm.run_nil, Instr.exec, Instr.dest, Instr.value,
    update_of_ne]
  refine ⟨?_, fun n _ hn _ => ?_, fun i hi => ?_⟩
  · simp (disch := omega) only [update_of_ne]
    exact hv.state
  · have hword : ∀ m < 4, (loadBlock v p (4 + m)).map Arm.reverseBytes =
        Arm.quad (Sha256.schedule p) (4 * m) := by
      intro m hm
      rw [loadBlock, if_pos (by omega), Nat.add_sub_cancel_left]
      simp only [Arm.quad, Vec.map, reverseBytes_wordLe]
      rw [Sha256.schedule_of_lt, Sha256.schedule_of_lt, Sha256.schedule_of_lt,
        Sha256.schedule_of_lt] <;> omega
    interval_cases n
    · exact hword 0 (by decide)
    · exact hword 1 (by decide)
    · exact hword 2 (by decide)
    · exact hword 3 (by decide)
  · simp (disch := omega) only [update_of_ne]
    rw [loadBlock, if_neg (by omega)]
    exact hv.constants i hi

theorem vecsOf_inj {x y : Vec} (h : (x, y) = Arm.vecsOf s) : Arm.hashOf x y = s := by
  rw [show x = (Arm.vecsOf s).1 from congrArg Prod.fst h,
    show y = (Arm.vecsOf s).2 from congrArg Prod.snd h]
  rfl

theorem Between.blockTurn {h : Hash} (hv : Between h v) (p : List UInt8) :
    (blockTurn v h p).2 = Sha256.compress h p ∧
      Between (Sha256.compress h p) (blockTurn v h p).1 := by
  have hend : Midway p h 16 (Arm.run (loadBlock v p) blockProgram) := by
    rw [blockProgram_eq, Arm.run_append, Arm.run_append]
    exact ((hv.midway p).scheduleGroups 12 (by decide)).lastGroups 4 (by decide)
  have hstate : ((NvmeHash.blockTurn v h p).1 0, (NvmeHash.blockTurn v h p).1 1) =
      Arm.vecsOf (Sha256.compress h p) := by
    have h0 := congrArg Prod.fst hend.state
    have h1 := congrArg Prod.snd hend.state
    simp only at h0 h1
    simp (disch := omega) only [NvmeHash.blockTurn, loadHash, Arm.run_cons, Arm.run_nil,
      Instr.exec, Instr.dest, Instr.value, update_self, update_of_ne, h0, h1]
    rfl
  refine ⟨vecsOf_inj hstate, hstate, fun i hi => ?_⟩
  simp (disch := omega) only [NvmeHash.blockTurn, loadHash, Arm.run_cons, Arm.run_nil,
    Instr.exec, Instr.dest, Instr.value, update_of_ne]
  exact hend.constants i hi

theorem blockLoop_eq_absorb (n : ℕ) {h : Hash} (hv : Between h v) (p : List UInt8) :
    blockLoop n v h p = Sha256.absorb n h p := by
  induction n generalizing v h p with
  | zero => rfl
  | succ n ih =>
    obtain ⟨hh, hv'⟩ := hv.blockTurn (p.take 64)
    rw [← hh] at hv'
    show blockLoop n (blockTurn v h (p.take 64)).1 (blockTurn v h (p.take 64)).2 _ = _
    rw [ih hv', hh, Sha256.absorb]

theorem sha2Blocks_eq_absorb (v : Regs) (h : Hash) (p : List UInt8) (n : ℕ) :
    sha2Blocks v h p n = Sha256.absorb n h p := by
  refine blockLoop_eq_absorb n ⟨rfl, fun i hi => ?_⟩ p
  simp (disch := omega) only [loadHash, update_of_ne]
  rw [loadConstants, if_pos (by omega), Nat.add_sub_cancel_left, k256_eq_roundConstants]
  rfl

end Q1n1.NvmeHash
