import Q1n1.Library.Bytes
import Q1n1.Library.Memory
import Mathlib.Data.Nat.Bitwise

/-! # NTB16 blocks

`platform/uefi/ncm.c`. A block is a 12-byte header, datagrams, and a table (the NDP) of
`{index, length}` entries that a zero entry ends. -/

namespace Q1n1.Ncm

open Bytes

def maxFrame : ℕ := 1536
def inBufferBytes : ℕ := 16384
def outBufferBytes : ℕ := 4096

def le16 (m : Memory) (at_ : ℕ) : ℕ := getLe 2 (m.load at_ 2)

theorem le16_lt (m : Memory) (at_ : ℕ) : le16 m at_ < 65536 := getLe_lt 2 _
def put16 (m : Memory) (at_ v : ℕ) : Memory := m.store at_ (putLe 2 v)
def memset (m : Memory) (at_ n : ℕ) : Memory := m.store at_ (List.replicate n 0)

/-- `y & ~m` on 32 bits. -/
def andNot (y m : ℕ) : ℕ := y - (y &&& m)

/-- `"NCMH"` and `"NCM0"`. -/
def nthSignature : List UInt8 := [0x4e, 0x43, 0x4d, 0x48]
def ndpSignature : List UInt8 := [0x4e, 0x43, 0x4d, 0x30]

/-! ## The device's parameters -/

/-- What `ncm_open` keeps of the device's answer to GET_NTB_PARAMETERS. -/
structure Params where
  ntbOutMax : ℕ := outBufferBytes
  outDivisor : ℕ := 4
  outRemainder : ℕ := 0
  outAlignment : ℕ := 4
  deriving DecidableEq

/-- The fields of the answer that the output side reads. -/
def ntbOutMaxSize (answer : List UInt8) : ℕ := getLe 4 (answer.drop 16)
def ndpOutDivisor (answer : List UInt8) : ℕ := getLe 2 (answer.drop 20)
def ndpOutRemainder (answer : List UInt8) : ℕ := getLe 2 (answer.drop 22)
def ndpOutAlignment (answer : List UInt8) : ℕ := getLe 2 (answer.drop 24)
def ntbOutMaxDatagrams (answer : List UInt8) : ℕ := getLe 2 (answer.drop 26)

/-- The end of `ncm_open`; `none` when fewer than 28 bytes came back. -/
def openParams : Option (List UInt8) → Params
  | none => {}
  | some answer =>
    { ntbOutMax :=
        if ntbOutMaxSize answer ≠ 0 ∧ ntbOutMaxSize answer < outBufferBytes then
          ntbOutMaxSize answer
        else outBufferBytes
      outDivisor := if ndpOutDivisor answer = 0 then 4 else ndpOutDivisor answer
      outRemainder := ndpOutRemainder answer
      outAlignment := if ndpOutAlignment answer = 0 then 4 else ndpOutAlignment answer }

def putHeader (m : Memory) (sequence total ndp : ℕ) : Memory :=
  put16 (put16 (put16 (put16 (m.store 0 nthSignature) 4 12) 6 sequence) 8 total) 10 ndp

/-- Where the datagram of a block of its own starts. -/
def frameIndex (p : Params) : ℕ := andNot (12 + p.outAlignment - 1) (p.outAlignment - 1)

/-- Where its NDP starts. With `shortEnd`, four bytes keep the block from being a whole
number of 512-byte packets. -/
def frameNdp (p : Params) (length : ℕ) (shortEnd : Bool) : ℕ :=
  let ndp := andNot (frameIndex p + length + 3) 3
  if shortEnd ∧ (ndp + 16) % 512 = 0 then ndp + 4 else ndp

def frameTotal (p : Params) (length : ℕ) (shortEnd : Bool) : ℕ := frameNdp p length shortEnd + 16

def frameNtb (p : Params) (sequence : ℕ) (out : Memory) (frame : List UInt8) (shortEnd : Bool) :
    Memory :=
  let ndp := frameNdp p frame.length shortEnd
  let m := memset out 0 (frameTotal p frame.length shortEnd)
  let m := putHeader m sequence (frameTotal p frame.length shortEnd) ndp
  let m := m.store (frameIndex p) frame
  let m := m.store ndp ndpSignature
  let m := put16 m (ndp + 4) 16
  let m := put16 m (ndp + 6) 0
  let m := put16 m (ndp + 8) (frameIndex p)
  let m := put16 m (ndp + 10) frame.length
  let m := put16 m (ndp + 12) 0
  put16 m (ndp + 14) 0

/-- First offset at or after `at_` that satisfies wNdpOutDivisor/Remainder. -/
def datagramOffset (p : Params) (at_ : ℕ) : ℕ :=
  let divisor := if p.outDivisor = 0 then 4 else p.outDivisor
  let remainder := p.outRemainder % divisor
  at_ + (remainder + divisor - at_ % divisor) % divisor

def batchNdp (p : Params) (end_ : ℕ) : ℕ :=
  let alignment := if p.outAlignment < 4 then 4 else p.outAlignment
  andNot (end_ + alignment - 1) (alignment - 1)

def putEntries (m : Memory) (at_ : ℕ) : List (ℕ × ℕ) → Memory
  | [] => m
  | e :: es => putEntries (put16 (put16 m at_ e.1) (at_ + 2) e.2) (at_ + 4) es

/-- What `ncm_flush` leaves in the batch buffer for datagrams that end at `end_`. -/
def batchNtb (p : Params) (sequence : ℕ) (buffer : Memory) (entries : List (ℕ × ℕ))
    (end_ : ℕ) : Memory :=
  let ndp := batchNdp p end_
  let ndpLength := 8 + 4 * (entries.length + 1)
  let m := putHeader (memset buffer 0 12) sequence (ndp + ndpLength) ndp
  let m := memset m ndp ndpLength
  let m := m.store ndp ndpSignature
  let m := put16 m (ndp + 4) ndpLength
  putEntries m (ndp + 8) entries

def readEntries (m : Memory) (at_ : ℕ) : ℕ → List (ℕ × ℕ)
  | 0 => []
  | n + 1 => (le16 m at_, le16 m (at_ + 2)) :: readEntries m (at_ + 4) n

def blockMemory (block : List UInt8) : Memory := Memory.store (fun _ => 0) 0 block

def blockNdp (block : List UInt8) : ℕ := le16 (blockMemory block) 10

def blockTable (block : List UInt8) : List (ℕ × ℕ) :=
  readEntries (blockMemory block) (blockNdp block + 8)
    ((le16 (blockMemory block) (blockNdp block + 4) - 8) / 4 - 1)

end Q1n1.Ncm
