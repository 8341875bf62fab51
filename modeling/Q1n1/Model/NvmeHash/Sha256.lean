import Q1n1.Library.ArmSha2
import Q1n1.Library.Memory

/-! # The hash of the disk helper

The portable SHA-256 of `sha256.c` and the update of `nvme-hash.c`, which compresses whole
blocks with the SHA-256 instructions and leaves the rest to the portable code. -/

namespace Q1n1.NvmeHash

open Sha256 (Word Hash)
open Arm (Instr Regs)

/-! ## The portable transform -/

def ror (x : Word) (n : ℕ) : Word := (x >>> n) ||| (x <<< (32 - n))

/-- The round constants of the portable transform. -/
def k : List Word :=
  [0x428a2f98, 0x71374491, 0xb5c0fbcf, 0xe9b5dba5, 0x3956c25b, 0x59f111f1, 0x923f82a4, 0xab1c5ed5,
   0xd807aa98, 0x12835b01, 0x243185be, 0x550c7dc3, 0x72be5d74, 0x80deb1fe, 0x9bdc06a7, 0xc19bf174,
   0xe49b69c1, 0xefbe4786, 0x0fc19dc6, 0x240ca1cc, 0x2de92c6f, 0x4a7484aa, 0x5cb0a9dc, 0x76f988da,
   0x983e5152, 0xa831c66d, 0xb00327c8, 0xbf597fc7, 0xc6e00bf3, 0xd5a79147, 0x06ca6351, 0x14292967,
   0x27b70a85, 0x2e1b2138, 0x4d2c6dfc, 0x53380d13, 0x650a7354, 0x766a0abb, 0x81c2c92e, 0x92722c85,
   0xa2bfe8a1, 0xa81a664b, 0xc24b8b70, 0xc76c51a3, 0xd192e819, 0xd6990624, 0xf40e3585, 0x106aa070,
   0x19a4c116, 0x1e376c08, 0x2748774c, 0x34b0bcb5, 0x391c0cb3, 0x4ed8aa4a, 0x5b9cca4f, 0x682e6ff3,
   0x748f82ee, 0x78a5636f, 0x84c87814, 0x8cc70208, 0x90befffa, 0xa4506ceb, 0xbef9a3f7, 0xc67178f2]

def inputWord (p : List UInt8) (i : ℕ) : Word :=
  (p.getD (i * 4) 0).toBitVec.setWidth 32 <<< 24 |||
    (p.getD (i * 4 + 1) 0).toBitVec.setWidth 32 <<< 16 |||
    (p.getD (i * 4 + 2) 0).toBitVec.setWidth 32 <<< 8 |||
    (p.getD (i * 4 + 3) 0).toBitVec.setWidth 32

def nextWord (w : List Word) : Word :=
  let i := w.length
  let a := w.getD (i - 15) 0
  let b := w.getD (i - 2) 0
  w.getD (i - 16) 0 + (ror a 7 ^^^ ror a 18 ^^^ a >>> 3) + w.getD (i - 7) 0
    + (ror b 17 ^^^ ror b 19 ^^^ b >>> 10)

def extend : ℕ → List Word → List Word
  | 0, w => w
  | n + 1, w => extend n (w ++ [nextWord w])

def transformRound (s : Hash) (k w : Word) : Hash :=
  let t := s.h + (ror s.e 6 ^^^ ror s.e 11 ^^^ ror s.e 25) + ((s.e &&& s.f) ^^^ (~~~s.e &&& s.g))
    + k + w
  let u := (ror s.a 2 ^^^ ror s.a 13 ^^^ ror s.a 22)
    + ((s.a &&& s.b) ^^^ (s.a &&& s.c) ^^^ (s.b &&& s.c))
  ⟨t + u, s.a, s.b, s.c, s.d + t, s.e, s.f, s.g⟩

def transformRounds (w : List Word) : ℕ → ℕ → Hash → Hash
  | 0, _, s => s
  | n + 1, i, s => transformRounds w n (i + 1) (transformRound s (k.getD i 0) (w.getD i 0))

def transform (h : Hash) (p : List UInt8) : Hash :=
  let w := extend 48 ((List.range 16).map (inputWord p))
  h.add (transformRounds w 64 0 h)

/-! ## The portable hash -/

/-- `struct q1n1_sha256`. -/
structure State where
  h : Hash
  bytes : ℕ
  block : Memory

def init (s : State) : State :=
  { s with
    h := ⟨0x6a09e667, 0xbb67ae85, 0x3c6ef372, 0xa54ff53a, 0x510e527f, 0x9b05688c, 0x1f83d9ab,
      0x5be0cd19⟩
    bytes := 0 }

/-- `while (size >= 64)`, `n` times. -/
def transformBlocks : ℕ → Hash → List UInt8 → Hash
  | 0, h, _ => h
  | n + 1, h, p => transformBlocks n (transform h (p.take 64)) (p.drop 64)

def updateWhole (s : State) (p : List UInt8) : State :=
  { s with
    h := transformBlocks (p.length / 64) s.h p
    block := s.block.store 0 (p.drop (64 * (p.length / 64))) }

def update (s : State) (p : List UInt8) : State :=
  let used := s.bytes % 64
  let s := { s with bytes := (s.bytes + p.length) % 2 ^ 64 }
  if used = 0 then updateWhole s p
  else
    let n := min (64 - used) p.length
    let s := { s with block := s.block.store used (p.take n) }
    if used + n = 64 then
      updateWhole { s with h := transform s.h (s.block.load 0 64) } (p.drop n)
    else s

/-- The loop that fills the last block with zeros up to `limit`. -/
def zeroTo (block : Memory) (used limit : ℕ) : Memory :=
  block.store used (List.replicate (limit - used) 0)

/-- The state after `q1n1_sha256_final`, and the digest. -/
def final (s : State) : State × List UInt8 :=
  let bits := s.bytes * 8 % 2 ^ 64
  let used := s.bytes % 64 + 1
  let s := { s with block := s.block.store (s.bytes % 64) [0x80] }
  let full := zeroTo s.block used 64
  let (s, used) :=
    if used > 56 then ({ s with block := full, h := transform s.h (full.load 0 64) }, 0)
    else (s, used)
  let block := (zeroTo s.block used 56).store 56
    ((List.range 8).map fun i => UInt8.ofNat (bits >>> (8 * (7 - i))))
  let h := transform s.h (block.load 0 64)
  ({ s with block, h },
    (List.range 32).map fun i => ⟨(h.words.getD (i / 4) 0 >>> (24 - 8 * (i % 4))).setWidth 8⟩)

/-! ## The blocks with the SHA-256 instructions -/

/-- The round constants of the accelerated path. -/
def k256 : List Word :=
  [0x428a2f98, 0x71374491, 0xb5c0fbcf, 0xe9b5dba5, 0x3956c25b, 0x59f111f1, 0x923f82a4, 0xab1c5ed5,
   0xd807aa98, 0x12835b01, 0x243185be, 0x550c7dc3, 0x72be5d74, 0x80deb1fe, 0x9bdc06a7, 0xc19bf174,
   0xe49b69c1, 0xefbe4786, 0x0fc19dc6, 0x240ca1cc, 0x2de92c6f, 0x4a7484aa, 0x5cb0a9dc, 0x76f988da,
   0x983e5152, 0xa831c66d, 0xb00327c8, 0xbf597fc7, 0xc6e00bf3, 0xd5a79147, 0x06ca6351, 0x14292967,
   0x27b70a85, 0x2e1b2138, 0x4d2c6dfc, 0x53380d13, 0x650a7354, 0x766a0abb, 0x81c2c92e, 0x92722c85,
   0xa2bfe8a1, 0xa81a664b, 0xc24b8b70, 0xc76c51a3, 0xd192e819, 0xd6990624, 0xf40e3585, 0x106aa070,
   0x19a4c116, 0x1e376c08, 0x2748774c, 0x34b0bcb5, 0x391c0cb3, 0x4ed8aa4a, 0x5b9cca4f, 0x682e6ff3,
   0x748f82ee, 0x78a5636f, 0x84c87814, 0x8cc70208, 0x90befffa, 0xa4506ceb, 0xbef9a3f7, 0xc67178f2]

def rounds (k w : ℕ) : List Instr :=
  [.add 3 w k, .mov 2 0, .sha256h 0 1 3, .sha256h2 1 2 3]

def roundsS (k w0 w1 w2 w3 : ℕ) : List Instr :=
  [.add 3 w0 k, .sha256su0 w0 w1, .mov 2 0, .sha256h 0 1 3, .sha256h2 1 2 3, .sha256su1 w0 w2 w3]

/-- The instructions between the loads of a block and of its start state. -/
def blockProgram : List Instr :=
  [.rev32 4 4, .rev32 5 5, .rev32 6 6, .rev32 7 7] ++
  (roundsS 16 4 5 6 7 ++ roundsS 17 5 6 7 4 ++
  roundsS 18 6 7 4 5 ++ roundsS 19 7 4 5 6 ++
  roundsS 20 4 5 6 7 ++ roundsS 21 5 6 7 4 ++
  roundsS 22 6 7 4 5 ++ roundsS 23 7 4 5 6 ++
  roundsS 24 4 5 6 7 ++ roundsS 25 5 6 7 4 ++
  roundsS 26 6 7 4 5 ++ roundsS 27 7 4 5 6) ++
  (rounds 28 4 ++ rounds 29 5 ++ rounds 30 6 ++ rounds 31 7)

def wordLe (p : List UInt8) (i : ℕ) : Word :=
  (p.getD (4 * i + 3) 0).toBitVec ++ (p.getD (4 * i + 2) 0).toBitVec ++
    (p.getD (4 * i + 1) 0).toBitVec ++ (p.getD (4 * i) 0).toBitVec

def loadConstants (v : Regs) : Regs := fun r =>
  if 16 ≤ r ∧ r < 32 then Arm.quad (fun i => k256.getD i 0) (4 * (r - 16)) else v r

def loadBlock (v : Regs) (p : List UInt8) : Regs := fun r =>
  if 4 ≤ r ∧ r < 8 then Arm.quad (wordLe p) (4 * (r - 4)) else v r

def loadHash (v : Regs) (r : ℕ) (h : Hash) : Regs :=
  Function.update (Function.update v r (Arm.vecsOf h).1) (r + 1) (Arm.vecsOf h).2

/-- One turn of the loop over the blocks: the registers and `h` behind it. -/
def blockTurn (v : Regs) (h : Hash) (p : List UInt8) : Regs × Hash :=
  let v := Arm.run (loadBlock v p) blockProgram
  let v := Arm.run (loadHash v 2 h) [.add 0 0 2, .add 1 1 3]
  (v, Arm.hashOf (v 0) (v 1))

def blockLoop : ℕ → Regs → Hash → List UInt8 → Hash
  | 0, _, h, _ => h
  | n + 1, v, h, p =>
    let (v, h) := blockTurn v h (p.take 64)
    blockLoop n v h (p.drop 64)

/-- `sha2_blocks`, from any register contents. -/
def sha2Blocks (v : Regs) (h : Hash) (p : List UInt8) (blocks : ℕ) : Hash :=
  blockLoop blocks (loadHash (loadConstants v) 0 h) h p

/-- `sha_update`; `v` is what the vector registers hold when the blocks are started. -/
def shaUpdate (v : Regs) (s : State) (p : List UInt8) (sha2 : Bool) : State :=
  if !sha2 then update s p
  else
    let used := s.bytes % 64
    let take := if used = 0 then 0 else if 64 - used < p.length then 64 - used else p.length
    let s := if used = 0 then s else update s (p.take take)
    let p := p.drop take
    let blocks := p.length / 64
    let s :=
      if blocks = 0 then s
      else { s with
        h := sha2Blocks v s.h p blocks
        bytes := (s.bytes + blocks * 64) % 2 ^ 64 }
    let p := p.drop (blocks * 64)
    if p.length = 0 then s else update s p

end Q1n1.NvmeHash
