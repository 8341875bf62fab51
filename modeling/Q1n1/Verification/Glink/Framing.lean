import Q1n1.Verification.Glink.Polling

/-! # Frames in a byte stream

A reader needs nothing but the framing rules to take a stream of padded frames apart. -/

namespace Q1n1.Glink

open Bytes List

/-! ## What the length of a frame depends on -/

variable {h h' : List UInt8}

theorem frameSpan_congr (hcmd : headerCmd h = headerCmd h') (hp2 : headerP2 h = headerP2 h')
    (hsize : isData h = true → get32 (h.drop 8) = get32 (h'.drop 8)) :
    frameSpan h = frameSpan h' := by
  cases hd : isData h with
  | true =>
    have hd' : isData h' = true := by rwa [isData_congr hcmd] at hd
    rw [frameSpan_of_isData hd, frameSpan_of_isData hd', hsize hd]
  | false =>
    unfold isData at hd
    unfold frameSpan
    rw [← hcmd, ← hp2]
    cases hc : Command.ofCode? (headerCmd h) with
    | none => rfl
    | some cmd => cases cmd <;> simp_all

theorem frameSpan_mod {n : ℕ} (hs : frameSpan h = some n) : n % 8 = 0 := by
  unfold frameSpan at hs
  split at hs
  · cases hs
  · split at hs
    · cases hs
    · cases hs
      simp
  · cases hs
    omega
  · cases hs
    exact align8_mod _
  · cases hs
    exact align8_mod _
  · cases hs
    rfl

variable {fifo : ℕ}

theorem frameLength_of_span {avail n : ℕ} (hs : frameSpan h = some n) (hlt : n < fifo)
    (hle : n ≤ avail) (hdata : isData h = true → 16 ≤ avail) :
    frameLength fifo h avail = .whole n := by
  unfold frameLength
  rw [if_neg, hs]
  · simp [Nat.not_le.mpr hlt, Nat.not_lt.mpr hle]
  · rintro ⟨hd, hlt⟩
    exact absurd (hdata hd) (by omega)

/-- Two streams that begin alike have the same first frame. -/
structure SameStart (h h' : List UInt8) : Prop where
  cmd : headerCmd h = headerCmd h'
  p1 : headerP1 h = headerP1 h'
  p2 : headerP2 h = headerP2 h'
  size : isData h = true → get32 (h.drop 8) = get32 (h'.drop 8)

theorem SameStart.span (hs : SameStart h h') : frameSpan h = frameSpan h' :=
  frameSpan_congr hs.cmd hs.p2 hs.size

theorem SameStart.isData (hs : SameStart h h') : isData h = isData h' :=
  isData_congr hs.cmd

theorem SameStart.frameBytes (hs : SameStart h h') (n : ℕ) : frameBytes h n = frameBytes h' n := by
  unfold Glink.frameBytes
  rw [← hs.isData]
  split
  · rw [hs.size ‹_›]
  · rfl

variable {frame : List UInt8}

theorem sameStart_take (rest : List UInt8) (h8 : 8 ≤ frame.length)
    (hdata : isData frame = true → 16 ≤ frame.length) :
    SameStart ((frame ++ rest).take 16) frame := by
  have htake : ((frame ++ rest).take 16).take 8 = frame.take 8 := by
    rw [take_take, show min 8 16 = 8 from rfl, take_append_of_le_length h8]
  obtain ⟨hcmd, hp1, hp2⟩ := header_fields_of_take htake
  refine ⟨hcmd, hp1, hp2, fun hd => ?_⟩
  have h16 := hdata (by rwa [isData_congr hcmd] at hd)
  rw [take_append_of_le_length h16, drop_take]
  exact getLe_take (by omega) _

/-! ## Streams of padded frames -/

/-- A frame whose header tells how long it is. -/
structure WellFramed (fifo : ℕ) (frame : List UInt8) : Prop where
  span : frameSpan frame = some (align8 frame.length)
  fits : align8 frame.length < fifo
  bytes : frameBytes frame (align8 frame.length) = frame.length

theorem WellFramed.length_ge (h : WellFramed fifo frame) :
    8 ≤ frame.length ∧ (isData frame = true → 16 ≤ frame.length) := by
  have hspan := frameSpan_ge h.span
  have hbytes := h.bytes
  unfold frameBytes at hbytes
  split at hbytes
  · exact ⟨by omega, fun _ => by omega⟩
  · exact ⟨by omega, fun hd => absurd hd ‹_›⟩

/-- The bytes are these frames, each padded to a multiple of eight. -/
inductive Encodes (fifo : ℕ) : List UInt8 → List (List UInt8) → Prop where
  | nil : Encodes fifo [] []
  | cons {frame pad rest : List UInt8} {frames : List (List UInt8)} (hframe : WellFramed fifo frame)
      (hpad : frame.length + pad.length = align8 frame.length)
      (hrest : Encodes fifo rest frames) : Encodes fifo (frame ++ (pad ++ rest)) (frame :: frames)

variable {bytes : List UInt8} {frames : List (List UInt8)}

theorem Encodes.append {bytes' : List UInt8} {frames' : List (List UInt8)}
    (h : Encodes fifo bytes frames) (h' : Encodes fifo bytes' frames') :
    Encodes fifo (bytes ++ bytes') (frames ++ frames') := by
  induction h with
  | nil => exact h'
  | cons hframe hpad _ ih =>
    rw [append_assoc, append_assoc]
    exact .cons hframe hpad ih

theorem encodes_single {pad : List UInt8} (hframe : WellFramed fifo frame)
    (hpad : frame.length + pad.length = align8 frame.length) :
    Encodes fifo (frame ++ pad) [frame] := by
  simpa using Encodes.cons hframe hpad .nil

theorem WellFramed.frameLength (h : WellFramed fifo frame) (rest : List UInt8)
    (hle : align8 frame.length ≤ (frame ++ rest).length) :
    frameLength fifo ((frame ++ rest).take 16) (frame ++ rest).length =
        .whole (align8 frame.length) ∧
      frameBytes ((frame ++ rest).take 16) (align8 frame.length) = frame.length := by
  obtain ⟨h8, h16⟩ := h.length_ge
  have hs := sameStart_take rest h8 h16
  refine ⟨frameLength_of_span (hs.span.trans h.span) h.fits hle fun hd => ?_,
    (hs.frameBytes _).trans h.bytes⟩
  rw [hs.isData] at hd
  exact (h16 hd).trans (by simp)

theorem readFrames_succ {bound n : ℕ} (h8 : 8 ≤ bytes.length)
    (hw : frameLength fifo (bytes.take 16) bytes.length = .whole n) :
    readFrames fifo (bound + 1) bytes = (readFrames fifo bound (bytes.drop n)).map
        (bytes.take (frameBytes (bytes.take 16) n) :: ·) := by
  cases bytes with
  | nil => simp at h8
  | cons b bs => rw [readFrames, if_neg (Nat.not_lt.mpr h8), hw]

theorem Encodes.readFrames (h : Encodes fifo bytes frames) {bound : ℕ}
    (hbound : bytes.length ≤ bound) : readFrames fifo bound bytes = some frames := by
  induction h generalizing bound with
  | nil =>
    unfold Glink.readFrames
    rfl
  | @cons frame pad rest frames hframe hpad _ ih =>
    obtain ⟨h8, _⟩ := hframe.length_ge
    simp only [length_append] at hbound
    obtain ⟨hw, hbytes⟩ := hframe.frameLength (pad ++ rest)
      (by simp only [length_append]; omega)
    obtain ⟨bound, rfl⟩ : ∃ b, bound = b + 1 := ⟨bound - 1, by omega⟩
    rw [readFrames_succ (by simp only [length_append]; omega) hw, hbytes,
      take_left' rfl, ← hpad, ← append_assoc,
      drop_left' (by rw [length_append]), ih (by omega)]
    rfl

variable {rest : List UInt8}

theorem WellFramed.start_eq {n : ℕ} {more : List UInt8} (h : WellFramed fifo frame)
    (h8 : 8 ≤ bytes.length) (hspan : frameSpan (bytes.take 16) = some n)
    (h16 : isData (bytes.take 16) = true → 16 ≤ bytes.length)
    (hall : bytes ++ rest = frame ++ more) :
    n = align8 frame.length ∧ Glink.frameBytes (bytes.take 16) n = frame.length := by
  have hcmd : headerCmd (bytes.take 16) = headerCmd bytes :=
    (header_fields_of_take (by rw [take_take]; rfl)).1
  have hdata : isData bytes = true → 16 ≤ bytes.length := by
    rw [← isData_congr hcmd]
    exact h16
  have hs := sameStart_take [] h8 hdata
  have hs' := sameStart_take rest h8 hdata
  obtain ⟨hf8, hf16⟩ := h.length_ge
  have hs'' := sameStart_take more hf8 hf16
  rw [append_nil] at hs
  rw [hall] at hs'
  have hn : n = align8 frame.length := by
    have hboth := hspan.symm.trans (hs.span.trans (hs'.span.symm.trans (hs''.span.trans h.span)))
    exact Option.some.inj hboth
  refine ⟨hn, ?_⟩
  rw [hs.frameBytes, ← hs'.frameBytes, hs''.frameBytes, hn]
  exact h.bytes

theorem Encodes.split {bound : ℕ} {taken : List (List UInt8)}
    (h : Encodes fifo (bytes ++ rest) frames)
    (hr : Glink.readFrames fifo bound bytes = some taken) :
    ∃ left, frames = taken ++ left ∧ Encodes fifo rest left := by
  induction bound generalizing bytes frames taken with
  | zero =>
    cases bytes with
    | nil =>
      cases hr
      exact ⟨frames, rfl, h⟩
    | cons b bs => cases hr
  | succ bound ih =>
    cases bytes with
    | nil =>
      cases hr
      exact ⟨frames, rfl, h⟩
    | cons b bs =>
      generalize hbytes : b :: bs = bytes at *
      have hne : bytes ≠ [] := by simp [← hbytes]
      have h8 : 8 ≤ bytes.length := by
        by_contra hlt
        rw [← hbytes] at hlt hr
        rw [Glink.readFrames, if_pos (by omega)] at hr
        cases hr
      cases hw : Glink.frameLength fifo (bytes.take 16) bytes.length with
      | bad =>
        rw [← hbytes] at hw hr h8
        rw [Glink.readFrames, if_neg (by omega), hw] at hr
        cases hr
      | incomplete =>
        rw [← hbytes] at hw hr h8
        rw [Glink.readFrames, if_neg (by omega), hw] at hr
        cases hr
      | whole n =>
        rw [readFrames_succ h8 hw, Option.map_eq_some_iff] at hr
        obtain ⟨taken', hr, rfl⟩ := hr
        obtain ⟨hspan, _, hle, h16⟩ := frameLength_whole hw
        generalize hall : bytes ++ rest = all at h
        cases h with
        | nil => exact absurd (append_eq_nil_iff.mp hall).1 hne
        | @cons frame pad rest' frames' hframe hpad hrest =>
          obtain ⟨hn, hfb⟩ := hframe.start_eq h8 hspan h16 hall
          have htake : bytes.take frame.length = frame := by
            rw [← take_append_of_le_length (show frame.length ≤ bytes.length by omega), hall,
              take_left' rfl]
          have hdrop : bytes.drop n ++ rest = rest' := by
            rw [← drop_append_of_le_length hle, hall, hn, ← hpad, ← append_assoc,
              drop_left' (by rw [length_append])]
          obtain ⟨left, rfl, hleft⟩ := ih (hdrop ▸ hrest) hr
          exact ⟨left, by rw [hfb, htake]; rfl, hleft⟩

theorem frameSpan_header (cmd : Command) (p1 p2 : ℕ) (rest : List UInt8) :
    frameSpan (header cmd p1 p2 ++ rest) =
      match cmd with
      | .open => if p2 % 2 ^ 32 % 65536 = 0 then none else some (8 + align8 (p2 % 2 ^ 32 % 65536))
      | .intent => some (8 + 8 * (p2 % 2 ^ 32))
      | .txData | .txDataCont => some (align8 (16 + get32 rest))
      | _ => some 8 := by
  have hdrop : (header cmd p1 p2 ++ rest).drop 8 = rest := drop_left' (header_length _ _ _)
  unfold frameSpan
  rw [headerCmd_header, headerP2_header, hdrop, Command.ofCode?_code]
  cases cmd <;> rfl

theorem isData_header (cmd : Command) (p1 p2 : ℕ) (rest : List UInt8) :
    isData (header cmd p1 p2 ++ rest) = (cmd == .txData || cmd == .txDataCont) :=
  isData_eq_of_headerCmd (headerCmd_header _ _ _ _)

theorem wellFramed_header {cmd : Command} {p1 p2 : ℕ}
    (hdata : (cmd == .txData || cmd == .txDataCont) = false)
    (hspan : frameSpan (header cmd p1 p2 ++ rest) = some (8 + rest.length))
    (hfits : 8 + rest.length + 8 ≤ fifo) : WellFramed fifo (header cmd p1 p2 ++ rest) := by
  have hlength : (header cmd p1 p2 ++ rest).length = 8 + rest.length := by simp
  have halign : align8 (header cmd p1 p2 ++ rest).length = 8 + rest.length := by
    rw [hlength, align8_of_mod (frameSpan_mod hspan)]
  constructor
  · rw [halign, hspan]
  · omega
  · rw [frameBytes, isData_header, hdata, halign, hlength]
    rfl

theorem Allowed.wellFramed {g : Link} {hdr data : List UInt8} (h : Allowed g hdr data)
    (hfifo : fifo ≤ 2 ^ 20) (hfits : (hdr ++ data).length + 16 ≤ fifo) :
    WellFramed fifo (hdr ++ data) := by
  simp only [length_append] at hfits
  cases h with
  | short cmd p1 p2 hshort =>
    rw [header_length] at hfits
    refine wellFramed_header ?_ ?_ (by simp at hfits ⊢; omega)
    · cases cmd <;> simp_all [Command.isShort]
    · rw [frameSpan_header]
      cases cmd <;> simp_all [Command.isShort]
  | close c =>
    rw [header_length] at hfits
    refine wellFramed_header rfl ?_ (by simp at hfits ⊢; omega)
    rw [frameSpan_header]
    rfl
  | «open» c =>
    rw [append_nil]
    set n := min (nameBytes - 1) (g.s.ch c).name.length with hn
    have hn31 : n ≤ 31 := min_le_left _ _
    have halign := le_align8 (n + 1)
    have hframe : openFrame (g.s.ch c) = header .open (g.s.ch c).lcid (n + 1) ++
        ((g.s.ch c).name.take n ++ replicate (align8 (n + 1) - n) 0) := by
      rw [openFrame, ← hn, append_assoc]
    have hrest : ((g.s.ch c).name.take n ++
        replicate (align8 (n + 1) - n) (0 : UInt8)).length = align8 (n + 1) := by
      rw [length_append, length_take, length_replicate]
      omega
    rw [hframe, length_append, header_length, hrest] at hfits
    rw [hframe]
    refine wellFramed_header rfl ?_ (by rw [hrest]; simp at hfits; omega)
    rw [frameSpan_header, hrest]
    have hmod : (n + 1) % 2 ^ 32 % 65536 = n + 1 := by omega
    simp only [hmod]
    rw [if_neg (by omega)]
  | intent lcid size id =>
    rw [append_nil, append_assoc]
    simp [put32] at hfits
    refine wellFramed_header rfl ?_ (by simp [put32]; omega)
    rw [frameSpan_header]
    simp [put32]
  | data w _ hsending hlength =>
    rw [dataHeader, append_assoc, append_assoc]
    simp only [dataHeader, length_append, header_length, put32, putLe_length] at hfits
    have hlen : (header .txData (g.s.ch w.c).lcid w.id ++
        (put32 data.length ++ (put32 0 ++ data))).length = 16 + data.length := by
      simp [put32]
      omega
    have hget : get32 (put32 data.length ++ (put32 0 ++ data)) = data.length := by
      unfold get32 put32
      exact getLe_putLe_of_lt (by omega) _
    constructor
    · rw [frameSpan_header, hget, hlen]
    · have := align8_lt (16 + data.length)
      rw [hlen]
      omega
    · rw [frameBytes, isData_header, if_pos (by rfl), drop_left' (header_length _ _ _), hget, hlen]

end Q1n1.Glink
