import Q1n1.Library.History
import Q1n1.Verification.Ncm.Receiving
import Q1n1.Verification.Ncm.Sending

/-! # What is sent is what is received -/

namespace Q1n1.Ncm

open List

/-- The batch holds these frames, and there is room for the NDP behind them. -/
structure Batch.Holds (b : Batch) (p : Params) (frames : List (List UInt8)) : Prop where
  tiled : Tiled 12 b.filled b.entries
  frames : datagrams b.buffer b.entries = frames
  small : ∀ e ∈ b.entries, e.2 ≤ maxFrame
  count : b.entries.length ≤ batchDatagrams
  limit : b.maxDatagrams = 0 ∨ b.entries.length ≤ b.maxDatagrams
  fits : b.entries ≠ [] → b.filled = b.end_ ∧ batchTotal p b.end_ b.entries.length ≤ b.size

variable {b : Batch} {p : Params}

theorem Batch.Holds.length {frames : List (List UInt8)} (h : b.Holds p frames) :
    frames.length = b.entries.length := by
  rw [← h.frames, datagrams, length_map]

theorem Batch.holds_nil (p : Params) (he : b.entries = []) (hend : b.end_ = 0) : b.Holds p [] := by
  refine ⟨?_, by rw [he]; rfl, by simp [he], by simp [he], by simp [he], by simp [he]⟩
  rw [he, Batch.filled, if_pos hend]
  exact le_rfl

theorem Batch.room_iff {length : ℕ} : b.room p length = true ↔ b.entries.length < batchDatagrams ∧
      batchTotal p (b.nextIndex p + length) (b.entries.length + 1) ≤ b.size ∧
      (b.maxDatagrams = 0 ∨ b.entries.length < b.maxDatagrams) := by
  simp [Batch.room, batchTotal, and_assoc]

theorem Batch.Holds.add {frames : List (List UInt8)} (h : b.Holds p frames) {frame : List UInt8}
    (hpos : 0 < frame.length) (hmax : frame.length ≤ maxFrame)
    (hroom : b.room p frame.length = true) :
    (b.add p frame).Holds p (frames ++ [frame]) := by
  obtain ⟨hcount, hsize, hlimit⟩ := Batch.room_iff.mp hroom
  have hnext : b.filled ≤ b.nextIndex p := le_datagramOffset p _
  have hfilled : (b.add p frame).filled = (b.add p frame).end_ := if_neg (by
    have := hpos
    simp only [Batch.add]
    omega)
  refine ⟨?_, ?_, ?_, ?_, ?_, fun _ => ⟨hfilled, ?_⟩⟩
  · rw [hfilled]
    exact h.tiled.append hnext hpos
  · have hold : datagrams (b.buffer.store (b.nextIndex p) frame) b.entries =
        datagrams b.buffer b.entries :=
      h.tiled.datagrams_congr fun a n _ hn => Memory.load_store_of_disjoint _ (by omega)
    rw [← h.frames, ← hold]
    simp [datagrams, Batch.add]
  · exact History.forall_concat h.small hmax
  · simpa [Batch.add] using Nat.succ_le_of_lt hcount
  · simpa [Batch.add] using hlimit.imp_right Nat.succ_le_of_lt
  · simpa [Batch.add] using hsize

/-! ## Blocks -/

def Origin.direct : Origin → List (List UInt8)
  | .single _ frame => [frame]
  | .batch _ => []

def Origin.batched : Origin → List (List UInt8)
  | .single _ _ => []
  | .batch frames => frames

def Origin.frames : Origin → List (List UInt8)
  | .single _ frame => [frame]
  | .batch frames => frames

/-- A block that was handed over: it reads back as its frames, and keeps the limits. -/
structure Emitted.Sent (e : Emitted) (limit : Origin → ℕ) (maxDatagrams : ℕ) : Prop where
  received : Received maxFrame e.block e.origin.frames
  fits : e.block.length ≤ limit e.origin
  count : e.origin.frames.length ≤ batchDatagrams
  limited : maxDatagrams = 0 ∨ e.origin.frames.length ≤ maxDatagrams

variable {limit : Origin → ℕ}

theorem singleBlock_sent {frame : List UInt8} {shortEnd : Bool} (ha : 0 < p.outAlignment)
    (hpos : 0 < frame.length) (hmax : frame.length ≤ maxFrame)
    (htotal : frameTotal p frame.length shortEnd < 65536)
    (hfit : frameTotal p frame.length shortEnd ≤ limit (.single shortEnd frame))
    (maxDatagrams sequence : ℕ) (out : Memory) (done : Bool) :
    (singleBlock p sequence out shortEnd frame done).Sent limit maxDatagrams := by
  refine ⟨⟨_, _, _, _, frameNtb_isNtb ha hpos htotal sequence out, ?_, rfl,
    (frameNtb_datagrams sequence out).symm⟩, ?_, ?_, ?_⟩
  · intro e he
    rw [mem_singleton.mp he]
    exact hmax
  · simpa [singleBlock] using hfit
  · exact (by decide : 1 ≤ batchDatagrams)
  · show maxDatagrams = 0 ∨ 1 ≤ maxDatagrams
    omega

theorem batchBlock_sent {frames : List (List UInt8)} (h : b.Holds p frames) (hne : b.entries ≠ [])
    (hsize : b.size < 65536) (hfit : b.size ≤ limit (.batch frames)) (sequence : ℕ)
    (done : Bool) : (batchBlock p sequence b frames done).Sent limit b.maxDatagrams := by
  obtain ⟨hend, htotal⟩ := h.fits hne
  have ht : Tiled 12 b.end_ b.entries := hend ▸ h.tiled
  refine ⟨⟨_, _, _, _, batchNtb_isNtb ht (by omega) sequence, h.small, rfl, ?_⟩, ?_, ?_, ?_⟩
  · rw [batchNtb_datagrams ht, h.frames]
    rfl
  · simp only [batchBlock, Memory.load_length]
    omega
  · exact h.length.trans_le h.count
  · exact h.limit.imp_right h.length.trans_le

/-! ## Runs -/

/-- What holds of the traffic of a link after every step. -/
structure Traffic.Inv (limit : Origin → ℕ) (maxDatagrams : ℕ) (t : Traffic) : Prop where
  alignment : 0 < t.p.outAlignment
  outMax : t.p.ntbOutMax < 65536
  single : ∀ shortEnd frame, t.p.ntbOutMax ≤ limit (.single shortEnd frame)
  batch : ∀ b, t.batch = some b → b.Holds t.p t.queued ∧ b.maxDatagrams = maxDatagrams ∧
    b.size < 65536 ∧ ∀ frames, b.size ≤ limit (.batch frames)
  emitted : ∀ e ∈ t.emitted, e.Sent limit maxDatagrams
  direct : t.tally.direct = (t.emitted.filter (·.done)).flatMap (·.origin.direct)
  batched : t.tally.batched = t.flushed.flatMap Prod.snd ++ t.queued
  flushed : (t.emitted.filter (·.done)).flatMap (·.origin.batched) =
    (t.flushed.filter Prod.fst).flatMap Prod.snd
  accepted : t.tally.overtook = false → (∀ f ∈ t.flushed, f.1 = true) →
    t.tally.accepted = (t.emitted.filter (·.done)).flatMap (·.origin.frames) ++ t.queued

variable {maxDatagrams : ℕ}

theorem Traffic.Inv.step {t t' : Traffic} (h : t.Inv limit maxDatagrams) (hs : Step t t') :
    t'.Inv limit maxDatagrams := by
  cases hs with
  | single sequence out shortEnd frame done hpos hmax hfit =>
    have hsent : (singleBlock t.p sequence out shortEnd frame done).Sent limit maxDatagrams :=
      singleBlock_sent h.alignment hpos hmax (hfit.trans_lt h.outMax)
        (hfit.trans (h.single _ _)) _ _ _ _
    have hemitted := History.forall_concat h.emitted hsent
    cases done with
    | false =>
      refine ⟨h.alignment, h.outMax, h.single, h.batch, hemitted, ?_, h.batched, ?_, ?_⟩ <;>
        rw [filter_append]
      · simpa [singleBlock] using h.direct
      · simpa [singleBlock] using h.flushed
      · simpa [singleBlock] using h.accepted
    | true =>
      refine ⟨h.alignment, h.outMax, h.single, h.batch, hemitted, ?_, h.batched, ?_, ?_⟩
      · simp [Tally.sent, h.direct, singleBlock, Origin.direct]
      · simpa [singleBlock, Origin.batched] using h.flushed
      · intro hturn hdone
        simp only [if_true, Tally.sent, Bool.or_eq_false_iff, Bool.not_eq_false',
          List.isEmpty_iff] at hturn
        simp [Tally.sent, h.accepted hturn.1 hdone, hturn.2, singleBlock, Origin.frames]
  | add b frame hb hpos hmax hroom =>
    obtain ⟨hh, hbounds⟩ := h.batch b hb
    refine ⟨h.alignment, h.outMax, h.single, ?_, h.emitted, h.direct, ?_, h.flushed, ?_⟩
    · intro b' hb'
      obtain rfl := Option.some_inj.mp hb'
      exact ⟨hh.add hpos hmax hroom, hbounds⟩
    · simp [Tally.queued, h.batched]
    · intro hturn hdone
      simp [Tally.queued, h.accepted hturn hdone]
  | flush b sequence buffer done hb hne =>
    obtain ⟨hh, hlimit, hsize, hbound⟩ := h.batch b hb
    refine ⟨h.alignment, h.outMax, h.single, ?_, ?_, ?_, by simp [h.batched], ?_, ?_⟩
    · intro b' hb'
      obtain rfl := Option.some_inj.mp hb'
      exact ⟨Batch.holds_nil _ rfl rfl, hlimit, hsize, hbound⟩
    · have hsent := hlimit ▸ batchBlock_sent hh hne hsize (hbound _) sequence done
      exact History.forall_concat h.emitted hsent
    · cases done <;> simp [h.direct, batchBlock, Origin.direct]
    · cases done <;> simpa [batchBlock, Origin.batched] using h.flushed
    · intro hturn hdone
      have hall := h.accepted hturn fun f hf => hdone f (by simp [hf])
      obtain rfl : done = true := hdone (done, t.queued) (by simp)
      simp [hall, batchBlock, Origin.frames]

theorem Traffic.Inv.steps {t t' : Traffic} (h : t.Inv limit maxDatagrams) (hs : Steps t t') :
    t'.Inv limit maxDatagrams := by
  induction hs with
  | refl => exact h
  | tail _ hstep ih => exact ih.step hstep

/-- The longest block each path may send: what `ncm_open` and `ncm_attach_batch` settled on. -/
def blockLimit (answer : List UInt8) (m : Buffers) : Origin → ℕ
  | .single _ _ => (openParams (some answer)).ntbOutMax
  | .batch _ => min m.batchBytes (min (ntbOutMaxSize answer) 0xffff)

theorem openParams_ntbOutMax_le (answer : List UInt8) :
    (openParams (some answer)).ntbOutMax ≤ outBufferBytes := by
  simp only [openParams]
  split <;> omega

theorem openParams_outAlignment_pos (answer : List UInt8) :
    0 < (openParams (some answer)).outAlignment := by
  simp only [openParams]
  split <;> omega

theorem attachBatch_some {n : Link} {buffer : Memory} {size : ℕ} {answer : List UInt8}
    (h : (n.attachBatch buffer size (some answer)).batch = some b) :
    b = { buffer := buffer, size := min size (min (ntbOutMaxSize answer) 0xffff),
          maxDatagrams := ntbOutMaxDatagrams answer } := by
  simp only [Link.attachBatch] at h
  split_ifs at h
  exact (Option.some_inj.mp h).symm

theorem openLink_inv (answer : List UInt8) (m : Buffers) (again : Bool) :
    (({ link := openLink answer m again } : Session).traffic).Inv (blockLimit answer m)
      (ntbOutMaxDatagrams answer) := by
  refine ⟨openParams_outAlignment_pos answer,
    (openParams_ntbOutMax_le answer).trans_lt (by decide), fun _ _ => le_rfl, ?_,
    fun e he => absurd he (not_mem_nil), rfl, rfl, rfl, fun _ _ => rfl⟩
  intro b hb
  cases again with
  | false => exact absurd hb (by simp [Session.traffic, Link.traffic, openLink, Link.attachBatch])
  | true =>
    obtain rfl := attachBatch_some hb
    exact ⟨Batch.holds_nil _ rfl rfl, rfl, by simp only; omega, fun _ => le_rfl⟩

/-- What the bytes of a block must say: it is within its limits, and its header, datagrams
and NDP do not overlap. -/
structure Emitted.Sound (e : Emitted) (limit : Origin → ℕ) (answer : List UInt8) : Prop where
  ntb : IsNtb (blockMemory e.block) e.block.length (blockNdp e.block) (blockTable e.block)
  fits : e.block.length ≤ limit e.origin
  short : e.block.length ≤ 65535
  device : ntbOutMaxSize answer ≠ 0 → e.block.length ≤ ntbOutMaxSize answer
  count : (blockTable e.block).length ≤ batchDatagrams
  limited : ntbOutMaxDatagrams answer ≠ 0 → (blockTable e.block).length ≤ ntbOutMaxDatagrams answer

theorem blockLimit_le (answer : List UInt8) (m : Buffers) (o : Origin)
    (h : ntbOutMaxSize answer ≠ 0) : blockLimit answer m o ≤ ntbOutMaxSize answer := by
  cases o with
  | single shortEnd frame =>
    simp only [blockLimit, openParams]
    split <;> omega
  | batch frames =>
    simp only [blockLimit]
    omega

theorem Emitted.Sent.sound {e : Emitted} {answer : List UInt8} {m : Buffers}
    (h : e.Sent (blockLimit answer m) (ntbOutMaxDatagrams answer)) :
    e.Sound (blockLimit answer m) answer := by
  obtain ⟨m', total, ndp, table, hn, -, hblock, hframes⟩ := h.received
  obtain ⟨hndp, htable⟩ := hn.block
  rw [← hblock] at hndp htable
  have hlen : e.block.length = total := by rw [hblock, Memory.load_length]
  have hcount : (blockTable e.block).length = e.origin.frames.length := by
    rw [htable, hframes, datagrams, length_map]
  refine ⟨?_, h.fits, ?_, fun hs => h.fits.trans (blockLimit_le answer m _ hs),
    hcount.trans_le h.count, fun hs => hcount.trans_le (h.limited.resolve_left hs)⟩
  · rw [hndp, htable, hlen, blockMemory, hblock]
    exact (hn.copy fun _ => 0).1
  · exact Nat.le_of_lt_succ (hlen ▸ hn.total_lt)

def receiver (buffer : Memory) (emitted : List Emitted) : Rx :=
  { inBuffer := buffer, incoming := emitted.map Emitted.block }

theorem receiver_due {max : ℕ} {emitted : List Emitted}
    (h : ∀ e ∈ emitted, e.Sent limit maxDatagrams) (hmax : maxFrame ≤ max) (buffer : Memory) :
    (receiver buffer emitted).Due max (emitted.flatMap (·.origin.frames)) := by
  refine ⟨[], emitted.map (·.origin.frames), Or.inl ⟨rfl, rfl⟩, ?_, ?_⟩
  · rw [receiver, forall₂_map_left_iff, forall₂_map_right_iff, forall₂_same]
    intro e he
    obtain ⟨m, total, ndp, table, hn, hsmall, hrest⟩ := (h e he).received
    exact ⟨m, total, ndp, table, hn, fun d hd => (hsmall d hd).trans hmax, hrest⟩
  · rw [nil_append, flatMap_def]

section

variable (answer : List UInt8) (m : Buffers) (again : Bool) (calls : List Call)

theorem run_inv : (Session.run { link := openLink answer m again } calls).traffic.Inv
    (blockLimit answer m) (ntbOutMaxDatagrams answer) :=
  (openLink_inv answer m again).steps (run_steps _ calls)

theorem run_received {arrived : List Emitted} (max : ℕ) (hmax : maxFrame ≤ max) (buffer : Memory)
    (k : ℕ) (harrived : arrived.Sublist
      (Session.run { link := openLink answer m again } calls).link.emitted) :
    Rx.receiveMany max k (receiver buffer arrived) =
      ((arrived.flatMap (·.origin.frames)).map some).take k ++
        replicate (k - (arrived.flatMap (·.origin.frames)).length) none := by
  have hemitted := (run_inv answer m again calls).emitted
  exact (receiver_due (fun e he => hemitted e (harrived.mem he)) hmax buffer).receiveMany k

end

/-- The answer of a device that wants its datagrams at a remainder modulo four. -/
def deviceAnswer (remainder : ℕ) : List UInt8 :=
  List.replicate 16 0 ++ Bytes.putLe 4 8192 ++ Bytes.putLe 2 4 ++ Bytes.putLe 2 remainder ++
    Bytes.putLe 2 4 ++ Bytes.putLe 2 0

/-- Two frames in one block, and one in another. -/
def threeFrames : List Call :=
  [.queue [1, 2, 3] true, .queue [4] true, .flush true, .send [5, 6] true]

end Q1n1.Ncm
