import Q1n1.Model.Nvme.Controller

/-! # Bounded writes

`tools/nvme_rw.py`: class `WritableNvme`. Its check takes the place of the read-only one in
everything the class inherits. -/

namespace Q1n1.Nvme

/-- An argument of a caller: a plain integer, or anything else. -/
inductive Arg where
  | int (n : Int)
  | other
  deriving DecidableEq

/-! ## Ranges -/

/-- One range of `enable_writes`, as its first block and the block behind it. -/
def checkRange (nsze : ℕ) : Arg × Arg → Option (ℕ × ℕ)
  | (.int first, .int count) =>
    if 0 ≤ first ∧ 0 < count ∧ first + count ≤ nsze then
      some (first.toNat, (first + count).toNat)
    else none
  | _ => none

def rangeLe (a b : ℕ × ℕ) : Bool := a.1 < b.1 ∨ a.1 = b.1 ∧ a.2 ≤ b.2

/-- The ranges that `enable_writes` sets. -/
def checkRanges (nsze : ℕ) (ranges : List (Arg × Arg)) : Option (List (ℕ × ℕ)) := do
  let checked ← ranges.mapM (checkRange nsze)
  let sorted := checked.mergeSort rangeLe
  if sorted ≠ [] ∧ (sorted.zip sorted.tail).all fun (a, b) => a.2 ≤ b.1 then some sorted else none

def enableWrites (ranges : List (Arg × Arg)) : Call Unit := do
  let s ← Cut.get
  require (s.nsze.getD 0 ≠ 0 ∧ s.lbaBytes.getD 0 ≠ 0 ∧ s.io.isSome)
  match checkRanges (s.nsze.getD 0) ranges with
  | none => raise
  | some checked => Cut.modify fun s => { s with writeRanges := checked }

def disableWrites : Call Unit := Cut.modify fun s => { s with writeRanges := [] }

def inRanges (ranges : List (ℕ × ℕ)) (first count : Int) : Bool :=
  ranges.any fun (lo, hi) => lo ≤ first ∧ first + count ≤ hi

def allowWrite (first count : Arg) : Call Unit := do
  match first, count with
  | .int first, .int count =>
    require (0 ≤ first ∧ 0 < count)
    require (inRanges (← Cut.get).writeRanges first count)
  | _, _ => raise

/-! ## Commands -/

/-- The bits of `0x4000ffff`: the block count and FUA. -/
def plainBits (v : Int) : Int := v % 2 ^ 16 + v / 2 ^ 30 % 2 * 2 ^ 30

def checkIoCommand : IoCheck := fun opcode nsid prp1 prp2 cdw => do
  if opcode = 0x02 then checkIoReadOnly opcode nsid prp1 prp2 cdw
  else
    require ((← Cut.get).writeRanges ≠ [] ∧ nsid = 1)
    if opcode = 0x00 then require (prp1 = 0 ∧ prp2 = 0 ∧ cdw.all (· = 0))
    else
      match cdw with
      | [cdw10, cdw11, cdw12] =>
        require (opcode = 0x01 ∧ plainBits cdw12 = cdw12)
        require (cdw12 / 2 ^ 30 % 2 = 1)
        let count := cdw12 % 2 ^ 16 + 1
        allowWrite (.int (Int.lor cdw10 (cdw11 * 2 ^ 32))) (.int count)
        let s ← Cut.get
        let lbaBytes ← field (·.lbaBytes)
        let maxTransfer ← field (·.maxTransfer)
        let size := count.toNat * lbaBytes
        require (size ≤ maxTransfer ∧ prp1 = (s.window + s.layout.data : ℕ))
        let pages := pagesOf size
        require (prp2 = if pages = 1 then 0 else if pages = 2 then prp1 + pageBytes
          else (s.window + Layout.prp : ℕ))
      | _ => raise

def writePiece (lba : ℕ) (piece : List UInt8) : Call ℕ := do
  let s ← Cut.get
  let lbaBytes ← field (·.lbaBytes)
  let count := piece.length / lbaBytes
  let address := s.window + s.layout.data
  let prp2 ← writePrps address (s.window + Layout.prp) (pagesOf piece.length)
  write address piece
  civac address piece.length
  let cid ← submit checkIoCommand .io 0x01 1 address prp2
    [(lba % 2 ^ 32 : ℕ), (lba / 2 ^ 32 : ℕ), Int.lor (count - 1) (2 ^ 30)]
  ring .io
  let _ ← reap .io [cid]
  return count

def writePieces : (lba : ℕ) → List (List UInt8) → Call Unit
  | _, [] => pure ()
  | lba, piece :: rest => do
    let count ← writePiece lba piece
    writePieces (lba + count) rest

/-- `write`; the payload is nothing when it is not bytes. -/
def writeLbas (lba : Arg) (payload : Option (List UInt8)) : Call Unit := do
  match payload, (← Cut.get).lbaBytes, lba with
  | some data, some lbaBytes, .int first =>
    require (data ≠ [] ∧ lbaBytes ≠ 0 ∧ data.length % lbaBytes = 0)
    allowWrite lba (.int (data.length / lbaBytes : ℕ))
    let maxTransfer ← field (·.maxTransfer)
    let per := min maxTransfer (65536 * lbaBytes)
    require (per ≠ 0)
    writePieces first.toNat (Bytes.slices per data)
  | _, _, _ => raise

def flush : Call Unit := do
  let cid ← submit checkIoCommand .io 0x00 1 0 0 []
  ring .io
  let _ ← reap .io [cid]

inductive Method where
  | takeover
  | identify
  | features
  | ioQueues
  | deleteIoQueues
  | shutdown
  | adminCmd (opcode nsid prp1 : Int) (cdw : List Int)
  | fetch (off n : ℕ)
  | read (lba count : Int)
  | timed (lba totalBytes : Int)
  | enableWrites (ranges : List (Arg × Arg))
  | disableWrites
  | write (lba : Arg) (payload : Option (List UInt8))
  | flush

def Method.call : Method → Call Unit
  | .takeover => Nvme.takeover
  | .identify => Nvme.identify checkIoCommand
  | .features => Nvme.features checkIoCommand
  | .ioQueues => Nvme.ioQueues checkIoCommand
  | .deleteIoQueues => Nvme.deleteIoQueues checkIoCommand
  | .shutdown => Nvme.shutdown
  | .adminCmd opcode nsid prp1 cdw => do
    let _ ← Nvme.adminCmd checkIoCommand opcode nsid prp1 cdw
  | .fetch off n => do
    let _ ← Nvme.fetch off n
  | .read lba count => do
    let _ ← readLbas checkIoCommand lba count
  | .timed lba totalBytes => Nvme.timed checkIoCommand lba totalBytes
  | .enableWrites ranges => Nvme.enableWrites ranges
  | .disableWrites => Nvme.disableWrites
  | .write lba payload => writeLbas lba payload
  | .flush => Nvme.flush

/-- Call after call; a caller may go on behind one that raised. -/
def Host.run (s : Host) (methods : List Method) : Host := methods.foldl (fun s m => (m.call s).2) s

end Q1n1.Nvme
