import Q1n1.Library.Bytes

/-! # SHA-256

The secure hash of FIPS 180-4 for messages of whole bytes: the functions and constants of
its section 4, the padding and parsing of section 5 and the computation of section 6.2. -/

namespace Q1n1.Sha256

open List

abbrev Word := BitVec 32

/-! ## Functions and constants -/

def ch (x y z : Word) : Word := (x &&& y) ^^^ (~~~x &&& z)

def maj (x y z : Word) : Word := (x &&& y) ^^^ (x &&& z) ^^^ (y &&& z)

def bigSigma0 (x : Word) : Word := x.rotateRight 2 ^^^ x.rotateRight 13 ^^^ x.rotateRight 22

def bigSigma1 (x : Word) : Word := x.rotateRight 6 ^^^ x.rotateRight 11 ^^^ x.rotateRight 25

def smallSigma0 (x : Word) : Word := x.rotateRight 7 ^^^ x.rotateRight 18 ^^^ x >>> 3

def smallSigma1 (x : Word) : Word := x.rotateRight 17 ^^^ x.rotateRight 19 ^^^ x >>> 10

/-- The first sixty-four primes. -/
def primes : List ℕ :=
  [2, 3, 5, 7, 11, 13, 17, 19, 23, 29, 31, 37, 41, 43, 47, 53,
   59, 61, 67, 71, 73, 79, 83, 89, 97, 101, 103, 107, 109, 113, 127, 131,
   137, 139, 149, 151, 157, 163, 167, 173, 179, 181, 191, 193, 197, 199, 211, 223,
   227, 229, 233, 239, 241, 251, 257, 263, 269, 271, 277, 281, 283, 293, 307, 311]

/-- The greatest number of at most `bits` binary digits whose `e`-th power does not exceed `n`. -/
def root (e n : ℕ) : ℕ → ℕ → ℕ
  | 0, r => r
  | bits + 1, r =>
    if (r + 2 ^ bits) ^ e ≤ n then root e n bits (r + 2 ^ bits) else root e n bits r

/-- The first thirty-two bits of the fractional part of the `e`-th root of `p`. -/
def rootFraction (e p : ℕ) : Word := BitVec.ofNat 32 (root e (p * 2 ^ (32 * e)) 40 0)

/-- The round constants, from the cube roots of the primes. -/
def roundConstants : List Word := primes.map (rootFraction 3)

/-! ## Hash values and the compression -/

/-- The eight working variables, or the eight words of a hash value. -/
structure Hash where
  a : Word
  b : Word
  c : Word
  d : Word
  e : Word
  f : Word
  g : Word
  h : Word
deriving DecidableEq

namespace Hash

def ofWords (w : List Word) : Hash :=
  ⟨w.getD 0 0, w.getD 1 0, w.getD 2 0, w.getD 3 0, w.getD 4 0, w.getD 5 0, w.getD 6 0, w.getD 7 0⟩

def words (s : Hash) : List Word := [s.a, s.b, s.c, s.d, s.e, s.f, s.g, s.h]

def add (s t : Hash) : Hash :=
  ⟨s.a + t.a, s.b + t.b, s.c + t.c, s.d + t.d, s.e + t.e, s.f + t.f, s.g + t.g, s.h + t.h⟩

end Hash

/-- The initial hash value, from the square roots of the first eight primes. -/
def initial : Hash := Hash.ofWords ((primes.take 8).map (rootFraction 2))

/-- The word of four bytes, most significant first. -/
def wordBe (b₀ b₁ b₂ b₃ : UInt8) : Word :=
  b₀.toBitVec ++ b₁.toBitVec ++ b₂.toBitVec ++ b₃.toBitVec

def blockWord (block : List UInt8) (i : ℕ) : Word :=
  wordBe (block.getD (4 * i) 0) (block.getD (4 * i + 1) 0) (block.getD (4 * i + 2) 0)
    (block.getD (4 * i + 3) 0)

def schedule (block : List UInt8) (t : ℕ) : Word :=
  if t < 16 then blockWord block t
  else smallSigma1 (schedule block (t - 2)) + schedule block (t - 7)
    + smallSigma0 (schedule block (t - 15)) + schedule block (t - 16)
termination_by t
decreasing_by all_goals omega

variable (block : List UInt8)

theorem schedule_of_lt {t : ℕ} (h : t < 16) : schedule block t = blockWord block t := by
  rw [schedule, if_pos h]

theorem schedule_add (t : ℕ) :
    schedule block (t + 16) = smallSigma1 (schedule block (t + 14)) + schedule block (t + 9)
      + smallSigma0 (schedule block (t + 1)) + schedule block t := by
  rw [schedule, if_neg (by omega)]
  rfl

/-- One round on the working variables, with the sum of its constant and schedule word. -/
def round (s : Hash) (kw : Word) : Hash :=
  let t₁ := s.h + bigSigma1 s.e + ch s.e s.f s.g + kw
  let t₂ := bigSigma0 s.a + maj s.a s.b s.c
  ⟨t₁ + t₂, s.a, s.b, s.c, s.d + t₁, s.e, s.f, s.g⟩

/-- The working variables after the first `t` rounds. -/
def rounds (block : List UInt8) (s : Hash) : ℕ → Hash
  | 0 => s
  | t + 1 => round (rounds block s t) (roundConstants.getD t 0 + schedule block t)

@[simp] theorem rounds_zero (p : List UInt8) (h : Hash) : rounds p h 0 = h := rfl

theorem rounds_succ (s : Hash) (t : ℕ) : rounds block s (t + 1) =
      round (rounds block s t) (roundConstants.getD t 0 + schedule block t) := rfl

/-- The intermediate hash value after one more block. -/
def compress (s : Hash) (block : List UInt8) : Hash := (rounds block s 64).add s

/-- Compress the first `n` blocks. -/
def absorb : ℕ → Hash → List UInt8 → Hash
  | 0, s, _ => s
  | n + 1, s, p => absorb n (compress s (p.take 64)) (p.drop 64)

/-- A one bit, as few zero bits as reach eight bytes before a block's end, and the length. -/
def pad (m : List UInt8) : List UInt8 :=
  m ++ 0x80 :: (List.replicate ((119 - m.length % 64) % 64) 0 ++
    (Bytes.putLe 8 (8 * m.length)).reverse)

/-- The bytes of a word, most significant first. -/
def bytesBe (w : Word) : List UInt8 :=
  [⟨w.extractLsb' 24 8⟩, ⟨w.extractLsb' 16 8⟩, ⟨w.extractLsb' 8 8⟩, ⟨w.extractLsb' 0 8⟩]

def digest (m : List UInt8) : List UInt8 :=
  (absorb ((pad m).length / 64) initial (pad m)).words.flatMap bytesBe

/-! ## Hashing a message in pieces

A hash in progress is the value after the whole blocks of what has come so far, and the
bytes behind them. -/

/-- The hash value after the whole blocks of `p`. -/
def folded (s : Hash) (p : List UInt8) : Hash := absorb (p.length / 64) s p

/-- The bytes of `p` behind its last whole block. -/
def rest (p : List UInt8) : List UInt8 := p.drop (64 * (p.length / 64))

@[simp] theorem rest_length (p : List UInt8) : (rest p).length = p.length % 64 := by
  simp only [rest, length_drop]
  omega

variable {p : List UInt8} (s : Hash)

theorem folded_of_lt (h : p.length < 64) : folded s p = s := by
  rw [folded, Nat.div_eq_of_lt h]
  rfl

@[simp] theorem folded_nil : folded s [] = s := rfl

theorem rest_of_lt (h : p.length < 64) : rest p = p := by
  rw [rest, Nat.div_eq_of_lt h]
  rfl

theorem absorb_append (n : ℕ) (s : Hash) (q : List UInt8) (h : 64 * n ≤ p.length) :
    absorb n s (p ++ q) = absorb n s p := by
  induction n generalizing s p with
  | zero => rfl
  | succ n ih =>
    rw [absorb, absorb, take_append_of_le_length (by omega),
      drop_append_of_le_length (by omega), ih _ (by simp; omega)]

theorem absorb_add (n k : ℕ) (s : Hash) (p : List UInt8) :
    absorb (n + k) s p = absorb k (absorb n s p) (p.drop (64 * n)) := by
  induction n generalizing s p with
  | zero => simp [absorb]
  | succ n ih =>
    rw [Nat.add_right_comm, absorb, ih, absorb, drop_drop]
    congr 2
    omega

variable (q : List UInt8)

theorem folded_append_whole (n : ℕ) (h : p.length = 64 * n) :
    folded s (p ++ q) = folded (absorb n s p) q := by
  have hlen : (p ++ q).length / 64 = n + q.length / 64 := by simp; omega
  rw [folded, hlen, absorb_add, absorb_append n s q h.ge, ← h, drop_left, folded]

theorem rest_append_whole (n : ℕ) (h : p.length = 64 * n) : rest (p ++ q) = rest q := by
  have hlen : 64 * ((p ++ q).length / 64) = p.length + 64 * (q.length / 64) := by simp; omega
  rw [rest, hlen, drop_length_add_append, rest]

theorem take_append_rest (p : List UInt8) : p.take (64 * (p.length / 64)) ++ rest p = p :=
  take_append_drop _ _

theorem take_whole_length (p : List UInt8) :
    (p.take (64 * (p.length / 64))).length = 64 * (p.length / 64) := by
  rw [length_take]
  omega

theorem folded_eq_absorb_take (p : List UInt8) :
    folded s p = absorb (p.length / 64) s (p.take (64 * (p.length / 64))) := by
  rw [folded, ← absorb_append _ _ (rest p) (take_whole_length p).ge, take_append_rest]

theorem folded_take_whole (p : List UInt8) :
    folded s (p.take (64 * (p.length / 64))) = folded s p := by
  have h := folded_append_whole s [] _ (take_whole_length p)
  rwa [append_nil, folded_nil, ← folded_eq_absorb_take] at h

theorem folded_append (m p : List UInt8) :
    folded s (m ++ p) = folded (folded s m) (rest m ++ p) := by
  conv_lhs => rw [← take_append_rest m, append_assoc]
  rw [folded_append_whole s _ _ (take_whole_length m), folded_eq_absorb_take s m]

theorem rest_append (m p : List UInt8) : rest (m ++ p) = rest (rest m ++ p) := by
  conv_lhs => rw [← take_append_rest m, append_assoc]
  rw [rest_append_whole _ _ (take_whole_length m)]

theorem folded_block {b : List UInt8} (h : b.length = 64) :
    folded s (b ++ q) = folded (compress s b) q := by
  rw [folded_append_whole s q 1 h, absorb, absorb, take_of_length_le h.le]

theorem folded_eq_compress {b : List UInt8} (h : b.length = 64) : folded s b = compress s b := by
  simpa using folded_block s [] h

theorem digest_eq_folded (m : List UInt8) :
    digest m = (folded initial (pad m)).words.flatMap bytesBe := rfl

end Q1n1.Sha256
