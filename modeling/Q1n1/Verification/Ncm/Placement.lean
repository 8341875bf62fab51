import Q1n1.Verification.Ncm.RoundTrip
import Mathlib.Data.Nat.ModEq

/-! # Where datagrams and NDPs are placed

A device names a divisor and a remainder for the offset of each datagram and an alignment for
the NDP. `ncm_queue` and `ncm_flush` keep to both. `frame_ntb` aligns the datagram as the NDP
ought to be and the NDP to four bytes, so its blocks comply only by chance. -/

namespace Q1n1.Ncm

/-- Each datagram starts at the remainder modulo the divisor, and the NDP at a multiple of the
alignment, going by the bytes of the block. -/
structure LaidOut (p : Params) (block : List UInt8) : Prop where
  datagram : ∀ e ∈ blockTable block, e.1 ≡ p.outRemainder [MOD p.outDivisor]
  ndp : p.outAlignment ∣ blockNdp block

theorem datagramOffset_modEq {p : Params} (h : 0 < p.outDivisor) (at_ : ℕ) :
    datagramOffset p at_ ≡ p.outRemainder [MOD p.outDivisor] := by
  have hd : (if p.outDivisor = 0 then 4 else p.outDivisor) = p.outDivisor := if_neg h.ne'
  rw [datagramOffset, hd]
  generalize p.outDivisor = d at *
  generalize p.outRemainder = r
  have hlt : at_ % d < d := Nat.mod_lt _ h
  have hsum : at_ + (r % d + d - at_ % d) = r % d + d * (at_ / d + 1) := by
    have := Nat.div_add_mod at_ d
    rw [Nat.mul_add]
    omega
  rw [Nat.ModEq, Nat.add_mod_mod, hsum, Nat.add_mul_mod_self_left, Nat.mod_mod]

theorem andNot_two_pow_sub_one (y k : ℕ) : andNot y (2 ^ k - 1) = y - y % 2 ^ k := by
  rw [andNot, Nat.and_two_pow_sub_one_eq_mod]

theorem IsNtb.laidOut_iff {m : Memory} {total ndp : ℕ} {table : List (ℕ × ℕ)}
    (h : IsNtb m total ndp table) (p : Params) :
    LaidOut p (m.load 0 total) ↔
      (∀ e ∈ table, e.1 ≡ p.outRemainder [MOD p.outDivisor]) ∧ p.outAlignment ∣ ndp := by
  obtain ⟨hndp, htable⟩ := h.block
  constructor
  · intro hl
    exact ⟨htable ▸ hl.datagram, hndp ▸ hl.ndp⟩
  · intro hl
    exact ⟨htable.symm ▸ hl.1, hndp.symm ▸ hl.2⟩

/-! ## A block of one frame -/

def singleIndex (alignment : ℕ) : ℕ := if alignment = 4 then 12 else max alignment 16

theorem singleIndex_dvd {k : ℕ} (hk : 2 ≤ k) : 2 ^ k ∣ singleIndex (2 ^ k) := by
  rw [singleIndex]
  rcases (by omega : k = 2 ∨ k = 3 ∨ 4 ≤ k) with rfl | rfl | h
  · decide
  · decide
  · have hle : 16 ≤ 2 ^ k := Nat.pow_le_pow_right (by decide : 0 < 2) h
    rw [if_neg (by omega), max_eq_left hle]

/-- What must hold of the parameters and of the frame for its block to comply. -/
structure SingleComplies (p : Params) (shortEnd : Bool) (length : ℕ) : Prop where
  datagram : singleIndex p.outAlignment ≡ p.outRemainder [MOD p.outDivisor]
  ndp : p.outAlignment ∣ (length + 3) / 4 * 4 +
    if shortEnd ∧ (singleIndex p.outAlignment + (length + 3) / 4 * 4 + 16) % 512 = 0 then 4 else 0

/-- A block complies unless it is of one frame that does not let it. -/
def Emitted.Placed (p : Params) (e : Emitted) : Prop :=
  LaidOut p e.block ↔
    ∀ shortEnd frame, e.origin = .single shortEnd frame → SingleComplies p shortEnd frame.length

section Aligned

variable {p : Params} {k : ℕ} (hk : 2 ≤ k) (ha : p.outAlignment = 2 ^ k)

include hk ha

theorem batchNdp_dvd (end_ : ℕ) : p.outAlignment ∣ batchNdp p end_ := by
  have hle : ¬2 ^ k < 4 := not_lt.mpr (Nat.pow_le_pow_right (by decide : 0 < 2) hk)
  rw [batchNdp, ha, if_neg hle, andNot_two_pow_sub_one]
  exact Nat.dvd_sub_mod _

theorem frameIndex_eq : frameIndex p = singleIndex p.outAlignment := by
  rw [frameIndex, singleIndex, ha, andNot_two_pow_sub_one]
  rcases (by omega : k = 2 ∨ k = 3 ∨ 4 ≤ k) with rfl | rfl | h
  · rfl
  · rfl
  · have hle : 16 ≤ 2 ^ k := Nat.pow_le_pow_right (by decide : 0 < 2) h
    rw [if_neg (by omega), max_eq_left hle, show 12 + 2 ^ k - 1 = 2 ^ k + 11 by omega,
      Nat.add_mod_left, Nat.mod_eq_of_lt (by omega)]
    omega

theorem frameNdp_eq (length : ℕ) (shortEnd : Bool) :
    frameNdp p length shortEnd = singleIndex p.outAlignment + ((length + 3) / 4 * 4 +
      if shortEnd ∧ (singleIndex p.outAlignment + (length + 3) / 4 * 4 + 16) % 512 = 0
      then 4 else 0) := by
  have hd : 4 ∣ singleIndex p.outAlignment := ha ▸ (Nat.pow_dvd_pow 2 hk).trans (singleIndex_dvd hk)
  have hndp : andNot (frameIndex p + length + 3) 3 =
      singleIndex p.outAlignment + (length + 3) / 4 * 4 := by
    rw [frameIndex_eq hk ha, show 3 = 2 ^ 2 - 1 from rfl, andNot_two_pow_sub_one]
    omega
  rw [frameNdp, hndp]
  split <;> rfl

theorem singleComplies_iff (shortEnd : Bool) (length : ℕ) :
    frameIndex p ≡ p.outRemainder [MOD p.outDivisor] ∧
      p.outAlignment ∣ frameNdp p length shortEnd ↔ SingleComplies p shortEnd length := by
  have hd : p.outAlignment ∣ singleIndex p.outAlignment := by
    rw [ha]
    exact singleIndex_dvd hk
  rw [frameIndex_eq hk ha, frameNdp_eq hk ha, Nat.dvd_add_right hd]
  exact ⟨fun h => ⟨h.1, h.2⟩, fun h => ⟨h.datagram, h.ndp⟩⟩

/-! ## Runs -/

theorem singleBlock_placed {frame : List UInt8} {shortEnd : Bool} (hpos : 0 < frame.length)
    (htotal : frameTotal p frame.length shortEnd < 65536) (sequence : ℕ) (out : Memory)
    (done : Bool) : (singleBlock p sequence out shortEnd frame done).Placed p := by
  have halign : 0 < p.outAlignment := ha ▸ Nat.two_pow_pos k
  have hlaid := (frameNtb_isNtb halign hpos htotal sequence out).laidOut_iff p
  simp only [List.mem_singleton, forall_eq] at hlaid
  refine (hlaid.trans (singleComplies_iff hk ha shortEnd frame.length)).trans ⟨?_, ?_⟩
  · intro h shortEnd' frame' he
    obtain ⟨rfl, rfl⟩ := Origin.single.inj he
    exact h
  · exact fun h => h shortEnd frame rfl

theorem batchBlock_placed {b : Batch} {frames : List (List UInt8)} (h : b.Holds p frames)
    (hne : b.entries ≠ []) (hsize : b.size < 65536)
    (he : ∀ e ∈ b.entries, e.1 ≡ p.outRemainder [MOD p.outDivisor]) (sequence : ℕ)
    (done : Bool) : (batchBlock p sequence b frames done).Placed p := by
  obtain ⟨hend, htotal⟩ := h.fits hne
  have ht : Tiled 12 b.end_ b.entries := hend ▸ h.tiled
  have hntb : IsNtb (batchNtb p sequence b.buffer b.entries b.end_) _ _ _ :=
    batchNtb_isNtb ht (htotal.trans_lt hsize) sequence
  refine ⟨fun _ shortEnd frame ho => by simp [batchBlock] at ho, fun _ => ?_⟩
  exact (hntb.laidOut_iff p).mpr ⟨he, batchNdp_dvd hk ha b.end_⟩

/-- What holds of the placement in every block and in the batch after every step. -/
structure Traffic.Placed (p : Params) (t : Traffic) : Prop where
  params : t.p = p
  entries : ∀ b, t.batch = some b → ∀ e ∈ b.entries, e.1 ≡ p.outRemainder [MOD p.outDivisor]
  emitted : ∀ e ∈ t.emitted, e.Placed p

theorem Traffic.Placed.step {limit : Origin → ℕ} {maxDatagrams : ℕ} {t t' : Traffic}
    (hd : 0 < p.outDivisor) (hi : t.Inv limit maxDatagrams) (h : t.Placed p) (hs : Step t t') :
    t'.Placed p := by
  obtain ⟨rfl, hentries, hemitted⟩ := h
  cases hs with
  | single sequence out shortEnd frame done hpos hmax hfit =>
    refine ⟨rfl, hentries, History.forall_concat hemitted ?_⟩
    exact singleBlock_placed hk ha hpos (hfit.trans_lt hi.outMax) sequence out done
  | add b frame hb hpos hmax hroom =>
    refine ⟨rfl, ?_, hemitted⟩
    intro b' hb'
    obtain rfl := Option.some_inj.mp hb'
    exact History.forall_concat (hentries b hb) (datagramOffset_modEq hd _)
  | flush b sequence buffer done hb hne =>
    refine ⟨rfl, ?_, ?_⟩
    · intro b' hb' e he
      obtain rfl := Option.some_inj.mp hb'
      simp at he
    · obtain ⟨hh, -, hsize, -⟩ := hi.batch b hb
      apply History.forall_concat hemitted
      exact batchBlock_placed hk ha hh hne hsize (hentries b hb) sequence done

theorem Traffic.Placed.steps {limit : Origin → ℕ} {maxDatagrams : ℕ} {t t' : Traffic}
    (hd : 0 < p.outDivisor) (hi : t.Inv limit maxDatagrams) (h : t.Placed p) (hs : Steps t t') :
    t'.Placed p := by
  induction hs with
  | refl => exact h
  | tail hpre hstep ih => exact ih.step hk ha hd (hi.steps hpre) hstep

end Aligned

theorem openParams_outDivisor_pos (answer : List UInt8) :
    0 < (openParams (some answer)).outDivisor := by
  simp only [openParams]
  split <;> omega

theorem openLink_placed (answer : List UInt8) (m : Buffers) (again : Bool) :
    ((({ link := openLink answer m again } : Session)).traffic).Placed
      (openParams (some answer)) := by
  refine ⟨rfl, ?_, fun e he => absurd he List.not_mem_nil⟩
  intro b hb
  cases again with
  | false => exact absurd hb (by simp [Session.traffic, Link.traffic, openLink, Link.attachBatch])
  | true =>
    obtain rfl := attachBatch_some hb
    simp

/-- Every block of a run is laid out as the device wants it exactly when the parameters and
the lengths of the frames sent at once let `frame_ntb` comply. What goes through the batch
always complies. -/
theorem run_laidOut_iff (answer : List UInt8) (m : Buffers) (again : Bool) (calls : List Call)
    (k : ℕ) (hk : 2 ≤ k) (ha : (openParams (some answer)).outAlignment = 2 ^ k) :
    let s := Session.run { link := openLink answer m again } calls
    (∀ e ∈ s.link.emitted, LaidOut (openParams (some answer)) e.block) ↔
      ∀ e ∈ s.link.emitted, ∀ shortEnd frame, e.origin = .single shortEnd frame →
        SingleComplies (openParams (some answer)) shortEnd frame.length := by
  intro s
  have hplaced : s.traffic.Placed (openParams (some answer)) :=
    (openLink_placed answer m again).steps hk ha (openParams_outDivisor_pos answer)
      (openLink_inv answer m again) (run_steps _ calls)
  exact forall₂_congr fun e he => hplaced.emitted e he

/-- Over a device that asks for no remainder, everything complies. -/
theorem run_laidOut_iff_threeFrames : (openParams (some (deviceAnswer 0))).outAlignment = 2 ^ 2 ∧
      ∀ e ∈ (Session.run { link := openLink (deviceAnswer 0) {} true } threeFrames).link.emitted,
        LaidOut (openParams (some (deviceAnswer 0))) e.block := by
  have hp : openParams (some (deviceAnswer 0)) = { ntbOutMax := 4096 } := by decide +kernel
  have ha : (openParams (some (deviceAnswer 0))).outAlignment = 2 ^ 2 :=
    congrArg Params.outAlignment hp
  refine ⟨ha, (run_laidOut_iff (deviceAnswer 0) {} true threeFrames 2 le_rfl ha).mpr ?_⟩
  intro e he shortEnd frame ho
  rw [hp]
  have hindex : singleIndex 4 = 12 := rfl
  refine ⟨by decide, ?_⟩
  dsimp only
  split <;> omega

/-- A device that wants datagrams two bytes past a multiple of four gets the one `ncm_send`
sends at offset 12. -/
theorem threeFrames_not_laidOut : (openParams (some (deviceAnswer 2))).outAlignment = 2 ^ 2 ∧
      ¬∀ e ∈ (Session.run { link := openLink (deviceAnswer 2) {} true } threeFrames).link.emitted,
        LaidOut (openParams (some (deviceAnswer 2))) e.block := by
  have hp : openParams (some (deviceAnswer 2)) = { ntbOutMax := 4096, outRemainder := 2 } := by
    decide +kernel
  have hbad : ∃ e ∈ (Session.run { link := openLink (deviceAnswer 2) {} true }
      threeFrames).link.emitted, e.origin = .single false [5, 6] ∧
        blockTable e.block = [(12, 2)] := by
    decide +kernel
  refine ⟨congrArg Params.outAlignment hp, fun h => ?_⟩
  obtain ⟨e, he, -, htable⟩ := hbad
  have hd := (h e he).datagram (12, 2) (by simp [htable])
  rw [hp] at hd
  exact absurd hd (by decide)

end Q1n1.Ncm
