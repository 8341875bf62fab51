import Q1n1.Verification.NvmeHash.Blocks

/-! # The hash of a message that comes in pieces -/

namespace Q1n1.NvmeHash

open List

open Sha256 (Word Hash folded rest)
open Arm (Regs)

/-- The state has taken in the message `m`. -/
structure Absorbed (m : List UInt8) (s : State) : Prop where
  h : s.h = folded Sha256.initial m
  bytes : s.bytes = m.length % 2 ^ 64
  block : s.block.load 0 (m.length % 64) = rest m

theorem absorbed_init (s : State) : Absorbed [] (init s) :=
  ⟨init_h s, rfl, rfl⟩

variable {m : List UInt8} {s : State}

theorem Absorbed.used (hs : Absorbed m s) : s.bytes % 64 = m.length % 64 := by
  rw [hs.bytes]
  omega

theorem load_store_next (b : Memory) {used n : ℕ} {bs : List UInt8} (h : used + bs.length = n) :
    (b.store used bs).load 0 n = b.load 0 used ++ bs := by
  subst h
  simpa using b.load_store_append 0 used bs

/-! ## Updates -/

theorem updateWhole_h (s : State) (p : List UInt8) : (updateWhole s p).h = folded s.h p :=
  transformBlocks_eq_absorb _ _ _

theorem updateWhole_block (s : State) (p : List UInt8) :
    (updateWhole s p).block.load 0 (p.length % 64) = rest p := by
  rw [← Sha256.rest_length p]
  exact Memory.load_store_self s.block 0 (rest p)

/-- The end of an update, from where whole blocks have been absorbed. -/
theorem absorbed_updateWhole {q : List UInt8} (hh : s.h = folded Sha256.initial m)
    (hbytes : s.bytes = (m ++ q).length % 2 ^ 64) (hm : m.length % 64 = 0) :
    Absorbed (m ++ q) (updateWhole s q) := by
  have hrest : rest m = [] := by
    rw [← length_eq_zero_iff, Sha256.rest_length, hm]
  refine ⟨?_, hbytes, ?_⟩
  · rw [updateWhole_h, hh, Sha256.folded_append, hrest, nil_append]
  · rw [Sha256.rest_append, hrest, nil_append, ← updateWhole_block s q]
    congr 1
    rw [length_append]
    omega

theorem Absorbed.update (hs : Absorbed m s) (p : List UInt8) : Absorbed (m ++ p) (update s p) := by
  have hbytes : (s.bytes + p.length) % 2 ^ 64 = (m ++ p).length % 2 ^ 64 := by
    rw [hs.bytes, length_append, Nat.mod_add_mod]
  rw [NvmeHash.update, hs.used]
  by_cases hused : m.length % 64 = 0
  · rw [if_pos hused]
    exact absorbed_updateWhole hs.h hbytes hused
  · rw [if_neg hused]
    set used := m.length % 64 with hdef
    have hlt : used < 64 := Nat.mod_lt _ (by decide)
    set n := min (64 - used) p.length with hn
    have hlen : (p.take n).length = n := by rw [length_take]; omega
    have hload : (s.block.store used (p.take n)).load 0 (used + n) = rest m ++ p.take n := by
      rw [load_store_next _ (by rw [hlen]), hs.block]
    by_cases hfull : used + n = 64
    · -- The kept bytes and the first of the new ones make a block.
      rw [if_pos hfull]
      rw [hfull] at hload
      have hblock : (rest m ++ p.take n).length = 64 := by
        rw [length_append, Sha256.rest_length, hlen, ← hdef, hfull]
      have hsplit : m ++ p = (m ++ p.take n) ++ p.drop n := by
        rw [append_assoc, take_append_drop]
      rw [hsplit]
      apply absorbed_updateWhole
      · simp only [hload, transform_eq_compress, hs.h]
        rw [Sha256.folded_append, Sha256.folded_eq_compress _ hblock]
      · rw [← hsplit]
        exact hbytes
      · rw [length_append, hlen]
        omega
    · -- All the new bytes fit behind the kept ones.
      rw [if_neg hfull]
      have hall : p.take n = p := take_of_length_le (by omega)
      have hshort : (rest m ++ p).length < 64 := by
        rw [length_append, Sha256.rest_length]
        omega
      refine ⟨?_, hbytes, ?_⟩
      · rw [Sha256.folded_append, Sha256.folded_of_lt _ hshort]
        exact hs.h
      · have hmod : (m ++ p).length % 64 = used + n := by
          rw [length_append]
          omega
        rw [Sha256.rest_append, Sha256.rest_of_lt hshort, hmod]
        simpa only [hall] using hload

theorem Absorbed.blocks (hs : Absorbed m s) (v : Regs) (p : List UInt8) (hm : m.length % 64 = 0) :
    Absorbed (m ++ p.take (p.length / 64 * 64))
      { s with
        h := sha2Blocks v s.h p (p.length / 64)
        bytes := (s.bytes + p.length / 64 * 64) % 2 ^ 64 } := by
  have hrest : rest m = [] := by
    rw [← length_eq_zero_iff, Sha256.rest_length, hm]
  have hlen : (p.take (p.length / 64 * 64)).length = p.length / 64 * 64 := by
    rw [length_take]
    omega
  have hmod : (m ++ p.take (p.length / 64 * 64)).length % 64 = 0 := by
    rw [length_append, hlen]
    omega
  refine ⟨?_, ?_, ?_⟩
  · rw [sha2Blocks_eq_absorb, hs.h, Sha256.folded_append, hrest, nil_append, mul_comm,
      Sha256.folded_take_whole]
    rfl
  · rw [hs.bytes, length_append, hlen, Nat.mod_add_mod]
  · rw [hmod, Memory.load_zero, eq_comm, ← length_eq_zero_iff, Sha256.rest_length, hmod]

theorem Absorbed.shaUpdate (hs : Absorbed m s) (v : Regs) (p : List UInt8) (sha2 : Bool) :
    Absorbed (m ++ p) (shaUpdate v s p sha2) := by
  cases sha2 with
  | false => exact hs.update p
  | true =>
    simp only [NvmeHash.shaUpdate, Bool.not_true, Bool.false_eq_true, if_false, hs.used]
    set used := m.length % 64 with hused
    set take := if used = 0 then 0 else if 64 - used < p.length then 64 - used else p.length
      with htake
    -- The bytes that complete a started block.
    have h₁ : Absorbed (m ++ p.take take) (if used = 0 then s else NvmeHash.update s (p.take take))
        := by
      by_cases h0 : used = 0
      · rw [if_pos h0, htake, if_pos h0, take_zero, append_nil]
        exact hs
      · rw [if_neg h0]
        exact hs.update _
    have hsplit : m ++ p = m ++ p.take take ++ p.drop take := by
      rw [append_assoc, take_append_drop]
    rw [hsplit]
    generalize (if used = 0 then s else NvmeHash.update s (p.take take)) = s₁ at h₁ ⊢
    have halign : (p.drop take).length / 64 ≠ 0 → (m ++ p.take take).length % 64 = 0 := by
      rw [length_drop, length_append, length_take]
      split at htake
      · omega
      · split at htake <;> omega
    generalize p.drop take = q at halign ⊢
    generalize m ++ p.take take = m₁ at h₁ halign ⊢
    -- The whole blocks.
    have h₂ : Absorbed (m₁ ++ q.take (q.length / 64 * 64)) (if q.length / 64 = 0 then s₁
         else { s₁ with
           h := sha2Blocks v s₁.h q (q.length / 64)
           bytes := (s₁.bytes + q.length / 64 * 64) % 2 ^ 64 }) := by
      by_cases h0 : q.length / 64 = 0
      · rw [if_pos h0, h0, zero_mul, take_zero, append_nil]
        exact h₁
      · rw [if_neg h0]
        exact h₁.blocks v q (halign h0)
    generalize (if q.length / 64 = 0 then s₁ else _) = s₂ at h₂ ⊢
    -- What is left behind them.
    by_cases h0 : (q.drop (q.length / 64 * 64)).length = 0
    · rw [if_pos h0]
      rw [length_eq_zero_iff, drop_eq_nil_iff] at h0
      rwa [take_of_length_le h0] at h₂
    · rw [if_neg h0]
      have h₃ := h₂.update (q.drop (q.length / 64 * 64))
      rwa [append_assoc, take_append_drop] at h₃

theorem lengthBytes_eq (n : ℕ) : ((range 8).map fun i => UInt8.ofNat (n >>> (8 * (7 - i)))) =
      (Bytes.putLe 8 n).reverse := by
  have hmod : ∀ v, UInt8.ofNat (v % 256) = UInt8.ofNat v := fun v => UInt8.ofNat_mod_size
  simp [range_succ, Bytes.putLe, Nat.shiftRight_eq_div_pow, Nat.div_div_eq_div_mul, hmod]

theorem digestBytes_eq (h : Hash) : ((range 32).map fun i =>
      (⟨(h.words.getD (i / 4) 0 >>> (24 - 8 * (i % 4))).setWidth 8⟩ : UInt8)) =
      h.words.flatMap Sha256.bytesBe := by
  have hbyte : ∀ (w : Word) (k : ℕ), (w >>> k).setWidth 8 = w.extractLsb' k 8 := by
    intro w k
    ext i hi
    simp
  simp only [hbyte]
  rfl

/-- The last block when the length fits behind the message, or the two last blocks. -/
theorem Absorbed.final (hs : Absorbed m s) (hm : m.length < 2 ^ 61) :
    (final s).2 = Sha256.digest m := by
  have hbits : s.bytes * 8 % 2 ^ 64 = 8 * m.length := by
    rw [hs.bytes]
    omega
  have hmark : (s.block.store (m.length % 64) [0x80]).load 0 (m.length % 64 + 1) =
      rest m ++ [0x80] := by
    rw [load_store_next (n := m.length % 64 + 1) _ rfl, hs.block]
  have hpad : folded Sha256.initial (Sha256.pad m) = folded s.h (rest m ++ 0x80 ::
      (replicate ((119 - m.length % 64) % 64) 0 ++ (Bytes.putLe 8 (8 * m.length)).reverse)) := by
    rw [Sha256.pad, Sha256.folded_append, hs.h]
  have hlen : (rest m).length = m.length % 64 := Sha256.rest_length m
  have hlast : (Bytes.putLe 8 (8 * m.length)).reverse.length = 8 := by simp
  rw [Sha256.digest_eq_folded, hpad, NvmeHash.final, hbits, hs.used]
  simp only [lengthBytes_eq, digestBytes_eq, transform_eq_compress]
  generalize (Bytes.putLe 8 (8 * m.length)).reverse = len at *
  congr 2
  by_cases hroom : m.length % 64 + 1 > 56
  · -- The mark fills the block up; the length goes into a block of its own.
    have hfirst : (zeroTo (s.block.store (m.length % 64) [0x80]) (m.length % 64 + 1) 64).load 0 64 =
        rest m ++ [0x80] ++ replicate (64 - (m.length % 64 + 1)) 0 := by
      rw [zeroTo, load_store_next _ (by simp; omega), hmark]
    have hsecond : ∀ b : Memory, ((zeroTo b 0 56).store 56 len).load 0 64 =
        replicate 56 0 ++ len := by
      intro b
      rw [load_store_next _ (by rw [hlast]), zeroTo, load_store_next _ (by simp)]
      rfl
    have hsplit : rest m ++ 0x80 :: (replicate ((119 - m.length % 64) % 64) 0 ++ len) =
        (rest m ++ [0x80] ++ replicate (64 - (m.length % 64 + 1)) 0) ++
          (replicate 56 0 ++ len) := by
      rw [show (119 - m.length % 64) % 64 = (64 - (m.length % 64 + 1)) + 56 by omega,
        replicate_add]
      simp only [append_assoc, cons_append, nil_append]
    simp only [if_pos hroom]
    rw [hfirst, hsecond, hsplit, Sha256.folded_block _ _ (by simp; omega),
      Sha256.folded_eq_compress _ (by simp [hlast])]
  · have hload : ((zeroTo (s.block.store (m.length % 64) [0x80]) (m.length % 64 + 1) 56).store 56
        len).load 0 64 =
        rest m ++ [0x80] ++ replicate (56 - (m.length % 64 + 1)) 0 ++ len := by
      rw [load_store_next _ (by rw [hlast]), zeroTo, load_store_next _ (by simp; omega), hmark]
    have hsplit : rest m ++ 0x80 :: (replicate ((119 - m.length % 64) % 64) 0 ++ len) =
        rest m ++ [0x80] ++ replicate (56 - (m.length % 64 + 1)) 0 ++ len := by
      rw [show (119 - m.length % 64) % 64 = 56 - (m.length % 64 + 1) by omega]
      simp only [append_assoc, cons_append, nil_append]
    simp only [if_neg hroom]
    rw [hload, hsplit, Sha256.folded_eq_compress _ (by simp [hlast]; omega)]

def shaUpdates (s : State) (pieces : List (List UInt8 × Bool × Regs)) : State :=
  pieces.foldl (fun s piece => shaUpdate piece.2.2 s piece.1 piece.2.1) s

theorem Absorbed.shaUpdates (hs : Absorbed m s) (pieces : List (List UInt8 × Bool × Regs)) :
    Absorbed (m ++ pieces.flatMap (·.1)) (shaUpdates s pieces) := by
  induction pieces generalizing m s with
  | nil => simpa [NvmeHash.shaUpdates] using hs
  | cons piece pieces ih =>
    rw [flatMap_cons, ← append_assoc]
    exact ih (hs.shaUpdate piece.2.2 piece.1 piece.2.1)

/-- Both block functions compress alike, and from any contents of the state record and the
vector registers a message given in any pieces, each on either path, hashes to its digest. -/
theorem final_shaUpdates_eq_digest (s : State) (pieces : List (List UInt8 × Bool × Regs))
    (hm : (pieces.flatMap (·.1)).length < 2 ^ 61) :
    (∀ v h p n, sha2Blocks v h p n = transformBlocks n h p) ∧
      (final (shaUpdates (init s) pieces)).2 = Sha256.digest (pieces.flatMap (·.1)) := by
  refine ⟨fun v h p n => ?_, ((absorbed_init s).shaUpdates pieces).final hm⟩
  rw [sha2Blocks_eq_absorb, transformBlocks_eq_absorb]

/-- The message `abc` on both paths, from a used record. -/
theorem final_shaUpdates_abc :
    Sha256.digest [0x61, 0x62, 0x63] =
      [0xba, 0x78, 0x16, 0xbf, 0x8f, 0x01, 0xcf, 0xea, 0x41, 0x41, 0x40, 0xde, 0x5d, 0xae, 0x22,
       0x23, 0xb0, 0x03, 0x61, 0xa3, 0x96, 0x17, 0x7a, 0x9c, 0xb4, 0x10, 0xff, 0x61, 0xf2, 0x00,
       0x15, 0xad] := by
  have h := (final_shaUpdates_eq_digest ⟨Sha256.initial, 7, fun _ => 1⟩
    [([0x61], false, fun _ => ⟨0, 0, 0, 0⟩), ([0x62, 0x63], true, fun _ => ⟨0, 0, 0, 0⟩)]
    (by decide)).2
  exact h.symm.trans (by decide +kernel)

end Q1n1.NvmeHash
