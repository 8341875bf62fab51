import Q1n1.Library.Horner
import Q1n1.Model.Proxy.HostChecksum
import Q1n1.Model.Proxy.Serve
import Mathlib.Data.Nat.Bitwise
import Mathlib.Data.ZMod.Basic

/-! # One checksum, computed in three ways -/

namespace Q1n1.Proxy

open Bytes Horner List

def digit (b : UInt8) : ℕ := (b ^^^ 0x5a).toNat

theorem checksumByte_lt (sum : ℕ) (b : UInt8) : checksumByte sum b < 2 ^ 32 :=
  Nat.mod_lt _ (by decide)

theorem checksumBlock_lt {sum : ℕ} (h : sum < 2 ^ 32) (bs : List UInt8) :
    checksumBlock sum bs < 2 ^ 32 := by
  induction bs generalizing sum with
  | nil => exact h
  | cons b bs ih => exact ih (checksumByte_lt sum b)

theorem and_mask (n : ℕ) : n &&& 0xFFFFFFFF = n % 2 ^ 32 := Nat.and_two_pow_sub_one_eq_mod n 32

theorem checksumReferenceFrom_eq (value : ℕ) (bs : List UInt8) :
    checksumReferenceFrom value bs = checksumBlock value bs ^^^ checksumFinal := by
  simp only [checksumReferenceFrom, checksumBlock, and_mask]
  rfl

/-! ## A block at once -/

theorem checksumBlock_cast (sum : ℕ) (bs : List UInt8) : (checksumBlock sum bs : ZMod (2 ^ 32)) =
      (bs.map fun b => (digit b : ZMod (2 ^ 32))).foldl (fun v d => v * 31337 + d)
        (sum : ZMod (2 ^ 32)) := by
  induction bs generalizing sum with
  | nil => rfl
  | cons b bs ih =>
    rw [checksumBlock, foldl_cons, ← checksumBlock, ih, map_cons, foldl_cons,
      checksumByte, ZMod.natCast_mod]
    push_cast
    rfl

theorem cumprod_replicate (product n : ℕ) :
    (cumprod product (replicate n 31337)).map (Nat.cast : ℕ → ZMod (2 ^ 32)) =
      (range n).map fun k => (product : ZMod (2 ^ 32)) * 31337 ^ (k + 1) := by
  induction n generalizing product with
  | zero => rfl
  | succ n ih =>
    rw [replicate_succ, cumprod, map_cons, ih, range_succ_eq_map, map_cons,
      map_map, ZMod.natCast_mod]
    push_cast
    rw [pow_one]
    refine congrArg _ (map_congr_left fun k _ => ?_)
    rw [Function.comp, Nat.succ_eq_add_one, pow_succ' _ (k + 1), mul_assoc]

theorem checksumPowers_cast : checksumPowers.map (Nat.cast : ℕ → ZMod (2 ^ 32)) =
      (range (checksumBlockBytes + 1)).map fun k => (31337 : ZMod (2 ^ 32)) ^ k := by
  rw [checksumPowers, cumprod, map_cons, cumprod_replicate, range_succ_eq_map]
  simp [Function.comp_def]

theorem checksumPowers_getD {k : ℕ} (h : k ≤ checksumBlockBytes) :
    (checksumPowers.getD k 0 : ZMod (2 ^ 32)) = 31337 ^ k := by
  have hk := congrArg (fun l => l.getD k 0) checksumPowers_cast
  simp only [getD_eq_getElem?_getD, getElem?_map] at hk ⊢
  rw [getElem?_range (by omega)] at hk
  cases hp : checksumPowers[k]? with
  | none => simp [hp] at hk; simpa using hk
  | some p => simpa [hp] using hk

theorem sum_terms (terms : List ℕ) (total : ℕ) :
    ((terms.foldl (fun total term => (total + term) % 2 ^ 32) total : ℕ) : ZMod (2 ^ 32)) =
      total + (terms.map (Nat.cast : ℕ → ZMod (2 ^ 32))).sum := by
  induction terms generalizing total with
  | nil => simp
  | cons t terms ih =>
    rw [foldl_cons, ih, ZMod.natCast_mod]
    push_cast
    rw [map_cons, sum_cons, add_assoc]

theorem blockTotal_cast {block : List UInt8} (h : block.length ≤ checksumBlockBytes) :
    (blockTotal block : ZMod (2 ^ 32)) =
      weighted 31337 (block.map fun b => (digit b : ZMod (2 ^ 32))) := by
  have hpowers : (checksumPowers.take block.length).reverse.map (Nat.cast : ℕ → ZMod (2 ^ 32)) =
      ((range block.length).map ((31337 : ZMod (2 ^ 32)) ^ ·)).reverse := by
    rw [map_reverse, map_take, checksumPowers_cast, ← map_take, take_range, min_eq_left (by omega)]
  rw [weighted_eq_sum, length_map, ← hpowers, zipWith_map, blockTotal, sum_terms,
    Nat.cast_zero, zero_add, map_zipWith]
  simp only [ZMod.natCast_mod, Nat.cast_mul]
  rfl

theorem checksumStep_eq (value : ℕ) {block : List UInt8}
    (h : block.length ≤ checksumBlockBytes) (hvalue : value < 2 ^ 32) :
    checksumStep value block = checksumBlock value block := by
  have hcast : ((value * checksumPowers.getD block.length 0 + blockTotal block : ℕ) :
      ZMod (2 ^ 32)) = checksumBlock value block := by
    rw [checksumBlock_cast, foldl_eq, length_map, ← blockTotal_cast h]
    push_cast
    rw [checksumPowers_getD h]
  rw [checksumStep, and_mask, (ZMod.natCast_eq_natCast_iff' _ _ _).mp hcast,
    Nat.mod_eq_of_lt (checksumBlock_lt hvalue block)]

theorem checksumBlock_flatten (sum : ℕ) (chunks : List (List UInt8)) :
    chunks.foldl checksumBlock sum = checksumBlock sum chunks.flatten := by
  induction chunks generalizing sum with
  | nil => rfl
  | cons chunk chunks ih =>
    rw [foldl_cons, ih, flatten_cons, checksumBlock, checksumBlock, checksumBlock, foldl_append]

theorem foldl_checksumStep {value : ℕ} (hvalue : value < 2 ^ 32) {blocks : List (List UInt8)}
    (h : ∀ block ∈ blocks, block.length ≤ checksumBlockBytes) :
    blocks.foldl checksumStep value = blocks.foldl checksumBlock value := by
  induction blocks generalizing value with
  | nil => rfl
  | cons block blocks ih =>
    rw [foldl_cons, foldl_cons, checksumStep_eq value (h _ mem_cons_self) hvalue]
    exact ih (checksumBlock_lt hvalue block) fun b hb => h b (mem_cons_of_mem _ hb)

theorem checksumNumpy_eq {value : ℕ} (hvalue : value < 2 ^ 32) (bs : List UInt8) :
    checksumNumpy value bs = checksumBlock value bs ^^^ checksumFinal := by
  rw [checksumNumpy]
  split
  · exact checksumReferenceFrom_eq value bs
  · rw [foldl_checksumStep hvalue (fun _ => length_of_mem_slices), checksumBlock_flatten,
      slices_flatten _ (by decide)]
    rfl

variable {W M : Type}

/-- What a program does with the bytes that are there to be read. -/
def Prog.feed : Prog W → List UInt8 → Prog W
  | .readFull n k, stream =>
    if n ≤ stream.length then (k (some (stream.take n))).feed (stream.drop n) else .readFull n k
  | p, _ => p

theorem Serve.feed_ite {α : Type} {c : Prop} [Decidable c] {x y : Serve W α} {w : W}
    {k : α → W → Prog W} {stream : List UInt8} {Q : Prog W → Prop} (hx : Q ((x w k).feed stream))
    (hy : Q ((y w k).feed stream)) : Q (((if c then x else y) w k).feed stream) := by
  by_cases h : c
  · simpa [h] using hx
  · simpa [h] using hy

theorem memoryWriteFrom_feed (P : Platform M) (address size : ℕ) (refused : Bool) (done sum : ℕ)
    (serror : Bool) (payload rest : List UInt8) (hpayload : payload.length = size - done)
    (w : World M) (k : Option (ℕ × Bool) → World M → Prog (World M)) :
    ∃ serror' w', (memoryWriteFrom P address size refused done sum serror w k).feed
        (payload ++ rest) = (k (some (checksumBlock sum payload, serror')) w').feed rest := by
  induction hleft : size - done using Nat.strong_induction_on generalizing done sum serror
    payload w with
  | _ left ih =>
    rw [memoryWriteFrom]
    split
    · rename_i hlt
      have hpos := chunk_pos hlt
      have hle : chunk size done ≤ payload.length := by
        rw [hpayload, chunk]
        exact min_le_left _ _
      have hsum : checksumBlock sum payload =
          checksumBlock (checksumBlock sum (payload.take (chunk size done)))
            (payload.drop (chunk size done)) := by
        rw [checksumBlock, checksumBlock, checksumBlock, ← foldl_append, take_append_drop]
      have hnext : ∀ serror w, ∃ serror' w', (memoryWriteFrom P address size refused
          (done + chunk size done) (checksumBlock sum (payload.take (chunk size done))) serror w
          k).feed (payload.drop (chunk size done) ++ rest) =
            (k (some (checksumBlock sum payload, serror')) w').feed rest := by
        intro serror w
        rw [hsum]
        exact ih _ (by omega) _ _ _ _ (by rw [length_drop]; omega) _ rfl
      show ∃ serror' w', Prog.feed (.readFull (chunk size done) _) _ = _
      rw [Prog.feed, if_pos (by rw [length_append]; omega),
        take_append_of_le_length hle, drop_append_of_le_length hle]
      exact Serve.feed_ite
        (Q := fun p => ∃ serror' w', p =
          (k (some (checksumBlock sum payload, serror')) w').feed rest)
        (hnext _ _) (hnext _ _)
    · have hnil : payload = [] := eq_nil_of_length_eq_zero (by omega)
      exact ⟨serror, w, by rw [hnil]; rfl⟩

/-- The block-wise checksum, the byte-wise one and the target's recurrence agree, and so does the
target's sum over the chunks of a memory write with the host's over the whole payload. -/
theorem checksums_agree (bs : List UInt8) (value : UInt32) :
    checksumNumpy value.toNat bs = checksumReferenceFrom value.toNat bs ∧
      checksumReferenceFrom value.toNat bs = checksumBlock value.toNat bs ^^^ checksumFinal ∧
      (∀ chunks : List (List UInt8), chunks.foldl checksumBlock value.toNat ^^^ checksumFinal =
        checksumNumpy value.toNat chunks.flatten) ∧
      ∀ (P : Platform M) (address : ℕ) (refused : Bool) (rest : List UInt8) (w : World M)
        (k : Option (ℕ × Bool) → World M → Prog (World M)), ∃ sum serror w',
        (memoryWriteFrom P address bs.length refused 0 checksumInit false w k).feed (bs ++ rest) =
          (k (some (sum, serror)) w').feed rest ∧
        sum ^^^ checksumFinal = checksumNumpy checksumInit bs := by
  have hnumpy := checksumNumpy_eq value.toNat_lt bs
  refine ⟨hnumpy.trans (checksumReferenceFrom_eq _ bs).symm, checksumReferenceFrom_eq _ bs, ?_, ?_⟩
  · intro chunks
    rw [checksumNumpy_eq value.toNat_lt, checksumBlock_flatten]
  · intro P address refused rest w k
    obtain ⟨serror, w', hfeed⟩ :=
      memoryWriteFrom_feed P address bs.length refused 0 checksumInit false bs rest rfl w k
    exact ⟨_, serror, w', hfeed, (checksumNumpy_eq (by decide) bs).symm⟩

/-! ## A request with one byte altered -/

/-- Behind the same bytes, different sums stay different: 31337 is odd. -/
theorem checksumBlock_inj {s t : ℕ} (hs : s < 2 ^ 32) (ht : t < 2 ^ 32) (bs : List UInt8)
    (h : checksumBlock s bs = checksumBlock t bs) : s = t := by
  induction bs generalizing s t with
  | nil => exact h
  | cons b bs ih =>
    have hmod : s * 31337 + digit b ≡ t * 31337 + digit b [MOD 2 ^ 32] :=
      ih (checksumByte_lt s b) (checksumByte_lt t b) h
    exact (hmod.add_right_cancel'.cancel_right_of_coprime (by decide)).eq_of_lt_of_lt hs ht

theorem checksumBlock_set {s i : ℕ} (c : UInt8) (bs : List UInt8)
    (h : checksumBlock s (bs.set i c) = checksumBlock s bs) : bs.set i c = bs := by
  induction bs generalizing s i with
  | nil => rfl
  | cons b bs ih =>
    cases i with
    | succ i => exact congrArg _ (ih h)
    | zero =>
      have hmod : s * 31337 + digit c ≡ s * 31337 + digit b [MOD 2 ^ 32] :=
        checksumBlock_inj (checksumByte_lt s c) (checksumByte_lt s b) bs h
      have hdigit := hmod.add_left_cancel'.eq_of_lt_of_lt
        ((UInt8.toNat_lt _).trans (by decide)) ((UInt8.toNat_lt _).trans (by decide))
      rw [(UInt8.xor_left_inj _).mp (UInt8.toNat_inj.mp hdigit)]
      rfl

/-- Serving a request of the host with one byte altered, be it of its checksum, answers that
the checksum is wrong and has no other effect. -/
theorem serve_altered (P : Platform M) (command : ℕ) (payload : List UInt8) (i : ℕ) (c : UInt8) :
    let request := (cmdBytes command payload).set i c
    request = cmdBytes command payload ∨ serve P request = do
      let _ ← sendReply (getLe 4 request) stCsumerr []
      return none := by
  obtain ⟨m, hlen, hframe⟩ : ∃ m : List UInt8, m.length = reqSize - 4 ∧
      cmdBytes command payload = m ++ putLe 4 (checksum m) :=
    ⟨_, by simp [reqSize, cmdLen], congrArg (_ ++ putLe 4 ·) (checksumReferenceFrom_eq _ _)⟩
  rw [hframe, or_iff_not_imp_right]
  intro hserved
  have hsum := not_not.mp fun hne => hserved (if_pos hne)
  obtain hi | hi := lt_or_ge i m.length
  · have hlt : checksum m < 2 ^ 32 :=
      Nat.xor_lt_two_pow (checksumBlock_lt (by decide) m) (by decide)
    rw [set_append_left _ _ hi, take_left' (by simpa), drop_left' (by simpa),
      ← append_nil (putLe 4 _), getLe_putLe_of_lt hlt] at hsum
    rw [set_append_left _ _ hi, checksumBlock_set c m (Nat.xor_left_inj.mp hsum)]
  · rw [set_append_right _ _ hi, take_left' hlen, drop_left' hlen] at hsum
    have hbytes : putLe 4 (getLe 4 ((putLe 4 (checksum m)).set (i - m.length) c)) = _ :=
      putLe_getLe (by simp)
    rw [← hsum, take_of_length_le (by simp)] at hbytes
    rw [set_append_right _ _ hi, ← hbytes]

end Q1n1.Proxy
