import Q1n1.Model.Ncm.Block

/-! # Receiving frames over one NCM link

`platform/uefi/ncm.c`: `ncm_receive`. A received block is handed back a datagram at a
time, so the walk over it survives between calls. -/

namespace Q1n1.Ncm

structure RxStats where
  blocksIn : ℕ := 0
  framesIn : ℕ := 0
  bytesIn : ℕ := 0
  malformed : ℕ := 0
  oversize : ℕ := 0
  badSignature : ℕ := 0
  badNdp : ℕ := 0
  badEntry : ℕ := 0

/-- The receiving side; `incoming` holds the transfers that are still to land. -/
structure Rx where
  inBuffer : Memory := fun _ => 0
  rxLength : ℕ := 0
  rxNdp : ℕ := 0
  rxEntry : ℕ := 0
  stats : RxStats := {}
  incoming : List (List UInt8) := []

/-- The next NDP of a block, or 0. The walk only moves forward. -/
def nextNdp (block : Memory) (ndp length : ℕ) : ℕ :=
  let next := le16 block (ndp + 6)
  if ndp < next ∧ next + 8 ≤ length then next else 0

def Rx.leaveNdp (r : Rx) : Rx :=
  let next := nextNdp r.inBuffer r.rxNdp r.rxLength
  { r with
    rxNdp := next
    rxEntry := 0
    rxLength := if next = 0 then 0 else r.rxLength }

def Rx.badEntry (r : Rx) : Rx :=
  { r with stats := { r.stats with
      malformed := r.stats.malformed + 1
      badEntry := r.stats.badEntry + 1 } }

def Rx.oversize (r : Rx) : Rx :=
  { r with stats := { r.stats with oversize := r.stats.oversize + 1 } }

def Rx.took (r : Rx) (length : ℕ) : Rx :=
  { r with stats := { r.stats with
      framesIn := r.stats.framesIn + 1
      bytesIn := r.stats.bytesIn + length } }

def Rx.walk (r : Rx) (max : ℕ) : Option (List UInt8) × Rx :=
  if r.rxLength = 0 ∨ r.rxNdp = 0 then (none, r)
  else
    let ndpLength := le16 r.inBuffer (r.rxNdp + 4)
    let entry := r.rxNdp + 8 + r.rxEntry * 4
    if r.rxLength < r.rxNdp + ndpLength ∨ r.rxNdp + ndpLength < entry + 4 then
      if nextNdp r.inBuffer r.rxNdp r.rxLength = 0 then (none, r.leaveNdp) else r.leaveNdp.walk max
    else
      let index := le16 r.inBuffer entry
      let length := le16 r.inBuffer (entry + 2)
      let r' := { r with rxEntry := r.rxEntry + 1 }
      if index = 0 ∧ length = 0 then
        if nextNdp r.inBuffer r.rxNdp r.rxLength = 0 then (none, r'.leaveNdp)
        else r'.leaveNdp.walk max
      else if length = 0 ∨ r.rxLength < index + length then r'.badEntry.walk max
      else if max < length then r'.oversize.walk max
      else (some (r.inBuffer.load index length), r'.took length)
termination_by (r.rxLength - r.rxNdp, le16 r.inBuffer (r.rxNdp + 4) - 4 * r.rxEntry)
decreasing_by
  all_goals
    simp only [Rx.leaveNdp, Rx.badEntry, Rx.oversize, Prod.lex_def]
    grind [nextNdp]

/-- A transfer of `block` has landed: whether it is a block, and the walk over it. -/
def Rx.accept (r : Rx) (block : List UInt8) : Bool × Rx :=
  let m := r.inBuffer.store 0 block
  let r := { r with inBuffer := m }
  if block.length < 12 ∨ m.load 0 4 ≠ nthSignature then
    (false, { r with stats := { r.stats with
      malformed := r.stats.malformed + 1
      badSignature := r.stats.badSignature + 1 } })
  else
    let declared := le16 m 8
    let length := if declared ≠ 0 ∧ declared ≤ block.length then declared else block.length
    let r := { r with
      rxLength := length
      rxNdp := le16 m 10
      rxEntry := 0
      stats := { r.stats with blocksIn := r.stats.blocksIn + 1 } }
    if length < le16 m 10 + 8 then
      (false, { r with
        rxLength := 0
        rxNdp := 0
        stats := { r.stats with
          malformed := r.stats.malformed + 1
          badNdp := r.stats.badNdp + 1 } })
    else (true, r)

/-- `ncm_receive` with these transfers to land. -/
def Rx.receiveFrom (max : ℕ) : List (List UInt8) → Rx → Option (List UInt8) × Rx
  | [], r =>
    match r.walk max with
    | (some frame, r) => (some frame, r)
    | (none, r) => (none, { r with rxLength := 0, rxNdp := 0, rxEntry := 0 })
  | block :: rest, r =>
    match r.walk max with
    | (some frame, r) => (some frame, r)
    | (none, r) =>
      let a := { r with rxLength := 0, rxNdp := 0, rxEntry := 0, incoming := rest }.accept block
      if block.length = 0 then
        (none, { r with rxLength := 0, rxNdp := 0, rxEntry := 0, incoming := rest })
      else if a.1 then receiveFrom max rest a.2 else (none, a.2)

/-- `ncm_receive`: the next frame of at most `max` bytes, or none. -/
def Rx.receive (r : Rx) (max : ℕ) : Option (List UInt8) × Rx := Rx.receiveFrom max r.incoming r

def Rx.receiveMany (max : ℕ) : ℕ → Rx → List (Option (List UInt8))
  | 0, _ => []
  | calls + 1, r =>
    let a := r.receive max
    a.1 :: receiveMany max calls a.2

end Q1n1.Ncm
