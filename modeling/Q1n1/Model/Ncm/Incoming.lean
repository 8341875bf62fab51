import Q1n1.Model.Ncm.Receive

/-! # The receive buffer of one NCM link

`platform/uefi/ncm.c`: `ncm_receive` over `xhci_post` and `xhci_reap`, with every read of the
buffer on record. The controller may land any bytes and report any residue. -/

namespace Q1n1.Ncm

/-- A read of the buffer: where, how much, and the length of the block in it. -/
structure BlockRead where
  offset : ℕ
  size : ℕ
  received : ℕ

/-- The receiving side with its transfer. -/
structure Incoming extends Rx where
  ntbInMax : ℕ := inBufferBytes
  /-- `pending` of the endpoint: the controller owns the buffer. -/
  pending : Bool := false
  -- The rest only records what happened.
  /-- the block in the buffer, of the length reported -/
  block : List UInt8 := []
  reads : List BlockRead := []
  /-- the NDPs of the block visited so far -/
  visited : List ℕ := []
  /-- the frames of the block returned so far -/
  taken : ℕ := 0
  /-- for each transfer started, the turns the block then in the buffer could still make -/
  started : List ℕ := []

def Incoming.read (i : Incoming) (offset size : ℕ) : Incoming :=
  { i with reads := i.reads ++ [⟨offset, size, i.block.length⟩] }

def Incoming.leave (i : Incoming) : Incoming :=
  let next := nextNdp i.inBuffer i.rxNdp i.rxLength
  { i.read (i.rxNdp + 6) 2 with
    rxNdp := next
    rxEntry := 0
    rxLength := if next = 0 then 0 else i.rxLength
    visited := if next = 0 then i.visited else i.visited ++ [next] }

/-- One turn of the loop over the block: a frame, or nothing yet. -/
def Incoming.turn (i : Incoming) (max : ℕ) : Option (List UInt8) × Incoming :=
  let ndpLength := le16 i.inBuffer (i.rxNdp + 4)
  let entry := i.rxNdp + 8 + i.rxEntry * 4
  let j := i.read (i.rxNdp + 4) 2
  if i.rxLength < i.rxNdp + ndpLength ∨ i.rxNdp + ndpLength < entry + 4 then (none, j.leave)
  else
    let index := le16 i.inBuffer entry
    let length := le16 i.inBuffer (entry + 2)
    let j := { (j.read entry 2).read (entry + 2) 2 with rxEntry := i.rxEntry + 1 }
    if index = 0 ∧ length = 0 then (none, j.leave)
    else if length = 0 ∨ i.rxLength < index + length then
      (none, { j with toRx := j.toRx.badEntry })
    else if max < length then (none, { j with toRx := j.toRx.oversize })
    else
      (some (i.inBuffer.load index length),
        { j.read index length with toRx := j.toRx.took length, taken := i.taken + 1 })

def Incoming.potential (i : Incoming) : ℕ :=
  if i.rxLength = 0 ∨ i.rxNdp = 0 then 0
  else (i.rxLength - i.rxNdp) * 2 ^ 17 + (2 ^ 16 - 4 * i.rxEntry) + 1

theorem Incoming.leave_potential (i : Incoming) (h : ¬(i.rxLength = 0 ∨ i.rxNdp = 0)) :
    i.leave.potential < i.potential := by
  simp only [Incoming.potential, Incoming.leave, nextNdp]
  rw [if_neg h]
  by_cases hnext : i.rxNdp < le16 i.inBuffer (i.rxNdp + 6) ∧
      le16 i.inBuffer (i.rxNdp + 6) + 8 ≤ i.rxLength
  · simp only [if_pos hnext]
    rw [if_neg (show ¬le16 i.inBuffer (i.rxNdp + 6) = 0 by omega), if_neg (by omega)]
    omega
  · simp only [if_neg hnext, if_true, true_or]
    omega

theorem Incoming.turn_potential (i : Incoming) (max : ℕ) (h : ¬(i.rxLength = 0 ∨ i.rxNdp = 0)) :
    (i.turn max).2.potential < i.potential := by
  have hlength := le16_lt i.inBuffer (i.rxNdp + 4)
  have hleave : ∀ j : Incoming, j.rxLength = i.rxLength → j.rxNdp = i.rxNdp →
      i.rxEntry ≤ j.rxEntry → j.leave.potential < i.potential := by
    intro j hl hn he
    refine lt_of_lt_of_le (j.leave_potential (by rw [hl, hn]; exact h)) ?_
    simp only [Incoming.potential, hl, hn, if_neg h]
    omega
  simp only [Incoming.turn]
  split
  · exact hleave _ rfl rfl (le_refl _)
  · rename_i hguard
    have hspent : ∀ j : Incoming, j.rxLength = i.rxLength → j.rxNdp = i.rxNdp →
        j.rxEntry = i.rxEntry + 1 → j.potential < i.potential := by
      intro j hl hn he
      simp only [Incoming.potential, hl, hn, he, if_neg h]
      omega
    split
    · exact hleave _ rfl rfl (Nat.le_succ _)
    · split
      · exact hspent _ rfl rfl rfl
      · split <;> exact hspent _ rfl rfl rfl

/-- The loop: the next datagram of the block in the buffer, of at most `max` bytes. -/
def Incoming.walk (i : Incoming) (max : ℕ) : Option (List UInt8) × Incoming :=
  if _h : i.rxLength = 0 ∨ i.rxNdp = 0 then (none, i)
  else
    match (i.turn max).1 with
    | some frame => (some frame, (i.turn max).2)
    | none => (i.turn max).2.walk max
termination_by i.potential
decreasing_by exact i.turn_potential max _h

/-! ## Transfers -/

/-- What `xhci_reap` finds of the pending transfer; the bytes are what the controller has
written since the last look. -/
inductive Landing where
  | nothing (bytes : List UInt8)
  | failed (bytes : List UInt8)
  /-- with the residue reported -/
  | landed (bytes : List UInt8) (residue : ℕ)

/-- The block is spent: the walk is cleared and `xhci_post` starts the next transfer, unless
one is outstanding. -/
def Incoming.post (i : Incoming) : Incoming :=
  { i with
    rxLength := 0
    rxNdp := 0
    rxEntry := 0
    pending := true
    started := if i.pending then i.started else i.started ++ [i.potential] }

/-- The controller writes no further than the transfer's length. -/
def Incoming.land (i : Incoming) (bytes : List UInt8) : Incoming :=
  { i with inBuffer := i.inBuffer.store 0 (bytes.take i.ntbInMax) }

/-- `length - (status & 0xffffff)` as a signed 32-bit number. -/
def moved (length residue : ℕ) : Int :=
  let m : ℕ := (length + 2 ^ 32 - residue % 2 ^ 24) % 2 ^ 32
  if m < 2 ^ 31 then (m : Int) else (m : Int) - 2 ^ 32

def Incoming.reap (i : Incoming) : Landing → Int × Incoming
  | .nothing bytes => (0, i.land bytes)
  | .failed bytes => (-1, { i.land bytes with pending := false })
  | .landed bytes residue => (moved i.ntbInMax residue, { i.land bytes with pending := false })

/-- What the rest of `ncm_receive` makes of a transfer of `got` bytes: whether there is a
block to walk. -/
def Incoming.accept (i : Incoming) (got : ℕ) : Bool × Incoming :=
  let block := i.inBuffer.load 0 got
  let i := { i with block, visited := [], taken := 0 }
  let a := i.toRx.accept block
  if got < 12 then (false, { i with toRx := a.2 })
  else
    let i := i.read 0 4
    if block.take 4 ≠ nthSignature then (false, { i with toRx := a.2 })
    else
      let i := (i.read 8 2).read 10 2
      (a.1, { i with toRx := a.2, visited := [le16 i.inBuffer 10] })

/-- `ncm_receive` with these landings to come. -/
def Incoming.receive (i : Incoming) (max : ℕ) :
    List Landing → Option (List UInt8) × List Landing × Incoming
  | [] =>
    match (i.walk max).1 with
    | some frame => (some frame, [], (i.walk max).2)
    | none => (none, [], (i.walk max).2.post)
  | landing :: rest =>
    match (i.walk max).1 with
    | some frame => (some frame, landing :: rest, (i.walk max).2)
    | none =>
      let r := (i.walk max).2.post.reap landing
      if r.1 ≤ 0 then (none, rest, r.2)
      else
        let a := r.2.accept r.1.toNat
        if a.1 then receive a.2 max rest else (none, rest, a.2)

/-- What a call was asked for, gave, and left. -/
structure Reception where
  max : ℕ
  frame : Option (List UInt8)
  after : Incoming

def Incoming.receives : List ℕ → List Landing → Incoming → List Reception
  | [], _, _ => []
  | max :: rest, landings, i =>
    let r := i.receive max landings
    ⟨max, r.1, r.2.2⟩ :: receives rest r.2.1 r.2.2

end Q1n1.Ncm
