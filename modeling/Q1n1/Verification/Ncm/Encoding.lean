import Q1n1.Verification.Ncm.Ntb

/-! # What the encoders write

`frame_ntb` and `ncm_flush` each leave a well-formed block behind, whatever the buffer held
and whatever parameters the device has. -/

namespace Q1n1.Ncm

open Memory

theorem le_andNot (x m : ℕ) : x ≤ andNot (x + m) m := by
  have := Nat.and_le_right (n := x + m) (m := m)
  rw [andNot]
  omega

variable (p : Params)

theorem le_frameIndex (h : 0 < p.outAlignment) : 12 ≤ frameIndex p := by
  rw [frameIndex, Nat.add_sub_assoc h]
  exact le_andNot _ _

theorem le_frameNdp (length : ℕ) (shortEnd : Bool) :
    frameIndex p + length ≤ frameNdp p length shortEnd := by
  have h := le_andNot (frameIndex p + length) 3
  rw [frameNdp]
  split <;> omega

theorem le_batchNdp (end_ : ℕ) : end_ ≤ batchNdp p end_ := by
  rw [batchNdp, Nat.add_sub_assoc (by split <;> omega)]
  exact le_andNot _ _

theorem le_datagramOffset (at_ : ℕ) : at_ ≤ datagramOffset p at_ :=
  Nat.le_add_right _ _

variable (m : Memory) (sequence : ℕ)

theorem putHeader_load {off n : ℕ} (total ndp : ℕ) (h : 12 ≤ off) :
    (putHeader m sequence total ndp).load off n = m.load off n := by
  have hs : 0 + nthSignature.length = 4 := rfl
  simp (disch := omega) only [putHeader, load_put16, load_store_of_disjoint]

theorem putHeader_signature (total ndp : ℕ) :
    (putHeader m sequence total ndp).load 0 4 = nthSignature := by
  simp (disch := omega) only [putHeader, load_put16]
  exact load_store_self m 0 nthSignature

theorem putHeader_total {total : ℕ} (ndp : ℕ) (h : total < 65536) :
    le16 (putHeader m sequence total ndp) 8 = total := by
  rw [putHeader, le16_put16_of_disjoint _ _ (by omega), le16_put16 _ _ h]

variable {ndp : ℕ}

theorem putHeader_ndp (total : ℕ) (h : ndp < 65536) :
    le16 (putHeader m sequence total ndp) 10 = ndp := by
  rw [putHeader, le16_put16 _ _ h]

theorem header_fields {m m' : Memory} {sequence total : ℕ} (htotal : total < 65536)
    (hndp : ndp < 65536)
    (h : ∀ a n, a + n ≤ 12 → m'.load a n = (putHeader m sequence total ndp).load a n) :
    m'.load 0 4 = nthSignature ∧ le16 m' 8 = total ∧ le16 m' 10 = ndp := by
  refine ⟨?_, ?_, ?_⟩
  · rw [h _ _ (by omega), putHeader_signature]
  · rw [le16_congr (h _ _ (by omega)), putHeader_total _ _ _ htotal]
  · rw [le16_congr (h _ _ (by omega)), putHeader_ndp _ _ _ hndp]

/-! ## One frame -/

def putSingle (m : Memory) (ndp index length : ℕ) : Memory :=
  put16 (put16 (put16 (put16 (put16 (put16 (m.store ndp ndpSignature) (ndp + 4) 16) (ndp + 6) 0)
    (ndp + 8) index) (ndp + 10) length) (ndp + 12) 0) (ndp + 14) 0

theorem putSingle_load {off n : ℕ} (index length : ℕ) (h : off + n ≤ ndp) :
    (putSingle m ndp index length).load off n = m.load off n := by
  simp (disch := omega) only [putSingle, load_put16, load_store_of_disjoint]

theorem putSingle_magic (ndp index length : ℕ) :
    (putSingle m ndp index length).load ndp 4 = ndpSignature := by
  simp (disch := omega) only [putSingle, load_put16]
  exact load_store_self m ndp ndpSignature

theorem putSingle_words {index length : ℕ} (hi : index < 65536) (hl : length < 65536) :
    le16 (putSingle m ndp index length) (ndp + 4) = 16 ∧
      le16 (putSingle m ndp index length) (ndp + 6) = 0 ∧
      readEntries (putSingle m ndp index length) (ndp + 8) 2 = [(index, length), (0, 0)] := by
  simp (disch := omega) [putSingle, readEntries, le16_put16, le16_put16_of_disjoint, add_assoc]

theorem frameNtb_eq (sequence : ℕ) (out : Memory) (frame : List UInt8) (shortEnd : Bool) :
    frameNtb p sequence out frame shortEnd =
      putSingle ((putHeader (memset out 0 (frameTotal p frame.length shortEnd)) sequence
        (frameTotal p frame.length shortEnd) (frameNdp p frame.length shortEnd)).store
          (frameIndex p) frame)
        (frameNdp p frame.length shortEnd) (frameIndex p) frame.length := rfl

section Frame

variable {p : Params} {frame : List UInt8} {shortEnd : Bool}

theorem frameNtb_datagrams (out : Memory) :
    datagrams (frameNtb p sequence out frame shortEnd) [(frameIndex p, frame.length)] =
      [frame] := by
  have h := le_frameNdp p frame.length shortEnd
  simp only [datagrams, List.map_cons, List.map_nil, frameNtb_eq]
  rw [putSingle_load _ _ _ h, load_store_self]

theorem frameNtb_isNtb (ha : 0 < p.outAlignment) (hpos : 0 < frame.length)
    (htotal : frameTotal p frame.length shortEnd < 65536) (sequence : ℕ) (out : Memory) :
    IsNtb (frameNtb p sequence out frame shortEnd) (frameTotal p frame.length shortEnd)
      (frameNdp p frame.length shortEnd) [(frameIndex p, frame.length)] := by
  have h₁ := le_frameIndex p ha
  have h₂ := le_frameNdp p frame.length shortEnd
  have h₃ : frameTotal p frame.length shortEnd = frameNdp p frame.length shortEnd + 16 := rfl
  rw [frameNtb_eq]
  generalize hm : memset out 0 (frameTotal p frame.length shortEnd) = m
  have hh (a n : ℕ) (hb : a + n ≤ 12) :
      (putSingle ((putHeader m sequence (frameTotal p frame.length shortEnd)
        (frameNdp p frame.length shortEnd)).store (frameIndex p) frame)
        (frameNdp p frame.length shortEnd) (frameIndex p) frame.length).load a n =
      (putHeader m sequence (frameTotal p frame.length shortEnd)
        (frameNdp p frame.length shortEnd)).load a n := by
    rw [putSingle_load _ _ _ (by omega), load_store_of_disjoint _ (by omega)]
  obtain ⟨hs, ht, hn⟩ := header_fields htotal (by omega) hh
  obtain ⟨hl, hx, he⟩ := putSingle_words _ (by omega : frameIndex p < 65536)
    (by omega : frame.length < 65536)
  exact ⟨hs, ht, hn, putSingle_magic _ _ _ _, hl, hx, he, ⟨h₁, hpos, h₂⟩, h₃⟩

end Frame

/-! ## A batch -/

def putTable (m : Memory) (ndp : ℕ) (entries : List (ℕ × ℕ)) : Memory :=
  putEntries (put16 ((memset m ndp (8 + 4 * (entries.length + 1))).store ndp ndpSignature)
    (ndp + 4) (8 + 4 * (entries.length + 1))) (ndp + 8) entries

theorem putTable_load {off n : ℕ} (entries : List (ℕ × ℕ)) (h : off + n ≤ ndp) :
    (putTable m ndp entries).load off n = m.load off n := by
  rw [putTable, load_putEntries _ _ (by omega), load_put16 _ _ (by omega),
    load_store_of_disjoint _ (by omega), load_memset _ (by omega)]

theorem putTable_magic (ndp : ℕ) (entries : List (ℕ × ℕ)) :
    (putTable m ndp entries).load ndp 4 = ndpSignature := by
  rw [putTable, load_putEntries _ _ (by omega), load_put16 _ _ (by omega)]
  exact load_store_self _ ndp ndpSignature

theorem putTable_length (ndp : ℕ) {entries : List (ℕ × ℕ)}
    (h : 8 + 4 * (entries.length + 1) < 65536) :
    le16 (putTable m ndp entries) (ndp + 4) = 8 + 4 * (entries.length + 1) := by
  rw [putTable, le16_congr (load_putEntries _ _ (by omega)), le16_put16 _ _ h]

theorem putTable_clear (ndp at_ : ℕ) (entries : List (ℕ × ℕ)) (h : at_ = ndp + 6 ∨
      ndp + 8 + 4 * entries.length ≤ at_ ∧ at_ + 2 ≤ ndp + 8 + 4 * (entries.length + 1)) :
    le16 (putTable m ndp entries) at_ = 0 := by
  have hs : ndpSignature.length = 4 := rfl
  rw [putTable, le16_congr (load_putEntries _ _ (by omega)),
    le16_put16_of_disjoint _ _ (by omega), le16_store _ (by omega),
    le16_memset _ (by omega) (by omega)]

theorem putTable_entries (ndp : ℕ) {entries : List (ℕ × ℕ)}
    (h : ∀ e ∈ entries, e.1 < 65536 ∧ e.2 < 65536) :
    readEntries (putTable m ndp entries) (ndp + 8) (entries.length + 1) = entries ++ [(0, 0)] := by
  rw [readEntries_succ, putTable_clear m ndp _ entries (by omega),
    putTable_clear m ndp _ entries (by omega), putTable, readEntries_putEntries _ _ h]

theorem batchNtb_eq (sequence : ℕ) (buffer : Memory) (entries : List (ℕ × ℕ)) (end_ : ℕ) :
    batchNtb p sequence buffer entries end_ = putTable (putHeader (memset buffer 0 12) sequence
        (batchNdp p end_ + (8 + 4 * (entries.length + 1))) (batchNdp p end_))
        (batchNdp p end_) entries := rfl

section Batch

variable {p : Params} {buffer : Memory} {entries : List (ℕ × ℕ)} {end_ : ℕ}

theorem batchNtb_datagrams (ht : Tiled 12 end_ entries) (sequence : ℕ) :
    datagrams (batchNtb p sequence buffer entries end_) entries = datagrams buffer entries := by
  have h := le_batchNdp p end_
  apply ht.datagrams_congr
  intro a n ha hn
  rw [batchNtb_eq, putTable_load _ _ (by omega), putHeader_load _ _ _ _ ha,
    load_memset _ (by omega)]

theorem batchNtb_isNtb (ht : Tiled 12 end_ entries)
    (htotal : batchTotal p end_ entries.length < 65536) (sequence : ℕ) :
    IsNtb (batchNtb p sequence buffer entries end_) (batchTotal p end_ entries.length)
      (batchNdp p end_) entries := by
  have h₁ := ht.le
  have h₂ := le_batchNdp p end_
  have h₃ : batchTotal p end_ entries.length = batchNdp p end_ + 8 + 4 * (entries.length + 1) := rfl
  have he (e : ℕ × ℕ) (h : e ∈ entries) : e.1 < 65536 ∧ e.2 < 65536 := by
    have := ht.mem h
    omega
  rw [batchNtb_eq, ← add_assoc, ← h₃]
  obtain ⟨hs, hl, hn⟩ := header_fields htotal (by omega) fun a n (hb : a + n ≤ 12) =>
    putTable_load (putHeader (memset buffer 0 12) sequence (batchTotal p end_ entries.length)
      (batchNdp p end_)) entries (by omega : a + n ≤ batchNdp p end_)
  exact ⟨hs, hl, hn, putTable_magic _ _ _, putTable_length _ _ (by omega),
    putTable_clear _ _ _ _ (by omega), putTable_entries _ _ he, ht.mono h₂, h₃⟩

end Batch

end Q1n1.Ncm
