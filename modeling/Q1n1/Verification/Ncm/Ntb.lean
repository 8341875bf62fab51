import Q1n1.Model.Ncm.Link

/-! # Well-formed NTB16 blocks

A block is described once, by its table of datagrams; the encoders and the receive walk are
each related to that description. -/

namespace Q1n1.Ncm

open Bytes List Memory

/-! ## Words in memory -/

theorem le16_put16 (m : Memory) (at_ : ℕ) {v : ℕ} (h : v < 65536) :
    le16 (put16 m at_ v) at_ = v := by
  have hl := load_store_self m at_ (putLe 2 v)
  rw [putLe_length] at hl
  rw [le16, put16, hl, ← append_nil (putLe 2 v), getLe_putLe_of_lt (by omega)]

variable {at_ off n : ℕ}

theorem load_put16 (m : Memory) (v : ℕ) (h : off + n ≤ at_ ∨ at_ + 2 ≤ off) :
    (put16 m at_ v).load off n = m.load off n :=
  load_store_of_disjoint m (by simpa using h)

theorem load_memset (m : Memory) {k : ℕ} (h : off + n ≤ at_ ∨ at_ + k ≤ off) :
    (memset m at_ k).load off n = m.load off n :=
  load_store_of_disjoint m (by simpa using h)

theorem le16_store (m : Memory) {bs : List UInt8} (h : at_ + 2 ≤ off ∨ off + bs.length ≤ at_) :
    le16 (m.store off bs) at_ = le16 m at_ := by
  rw [le16, load_store_of_disjoint m h, le16]

theorem le16_put16_of_disjoint (m : Memory) (v : ℕ) (h : at_ + 2 ≤ off ∨ off + 2 ≤ at_) :
    le16 (put16 m off v) at_ = le16 m at_ :=
  le16_store m (by simpa using h)

theorem le16_memset (m : Memory) (h : off ≤ at_) (h' : at_ + 2 ≤ off + n) :
    le16 (memset m off n) at_ = 0 := by
  have hl : (memset m off n).load at_ 2 = [0, 0] := by
    have hz (a : ℕ) (ha : off ≤ a) (ha' : a < off + n) : memset m off n a = 0 := by
      simp [memset, Memory.store, ha, ha', show a - off < n by omega]
    simp [Memory.load, range_succ, hz at_ h (by omega), hz (at_ + 1) (by omega) (by omega)]
  rw [le16, hl]
  rfl

variable {m m' : Memory}

theorem le16_congr (h : m.load at_ 2 = m'.load at_ 2) : le16 m at_ = le16 m' at_ := by
  rw [le16, h, le16]

theorem readEntries_succ (m : Memory) (at_ n : ℕ) : readEntries m at_ (n + 1) =
      readEntries m at_ n ++ [(le16 m (at_ + 4 * n), le16 m (at_ + 4 * n + 2))] := by
  induction n generalizing at_ with
  | zero => rfl
  | succ n ih =>
    rw [readEntries, ih, readEntries, cons_append]
    congr 3
    all_goals ring_nf

theorem readEntries_getElem? (m : Memory) (at_ : ℕ) {i : ℕ} (h : i < n) :
    (readEntries m at_ n)[i]? = some (le16 m (at_ + 4 * i), le16 m (at_ + 4 * i + 2)) := by
  induction n generalizing at_ i with
  | zero => omega
  | succ n ih =>
    cases i with
    | zero => rfl
    | succ i =>
      rw [readEntries, List.getElem?_cons_succ, ih (at_ + 4) (by omega)]
      ring_nf

theorem readEntries_congr (h : ∀ a, at_ ≤ a → a + 2 ≤ at_ + 4 * n → m.load a 2 = m'.load a 2) :
    readEntries m at_ n = readEntries m' at_ n := by
  induction n generalizing at_ with
  | zero => rfl
  | succ n ih =>
    have ht : readEntries m (at_ + 4) n = readEntries m' (at_ + 4) n :=
      ih fun a ha ha' => h a (by omega) (by omega)
    rw [readEntries, readEntries, ht, le16_congr (h at_ le_rfl (by omega)),
      le16_congr (h (at_ + 2) (by omega) (by omega))]

theorem load_putEntries (m : Memory) (es : List (ℕ × ℕ))
    (h : off + n ≤ at_ ∨ at_ + 4 * es.length ≤ off) :
    (putEntries m at_ es).load off n = m.load off n := by
  induction es generalizing m at_ with
  | nil => rfl
  | cons e es ih =>
    simp only [length_cons] at h
    rw [putEntries, ih _ (by omega), load_put16 _ _ (by omega), load_put16 _ _ (by omega)]

theorem readEntries_putEntries (m : Memory) (at_ : ℕ) {es : List (ℕ × ℕ)}
    (h : ∀ e ∈ es, e.1 < 65536 ∧ e.2 < 65536) :
    readEntries (putEntries m at_ es) at_ es.length = es := by
  induction es generalizing m at_ with
  | nil => rfl
  | cons e es ih =>
    obtain ⟨h₁, h₂⟩ := h e (by simp)
    have hi : le16 (putEntries m at_ (e :: es)) at_ = e.1 := by
      rw [putEntries, le16_congr (load_putEntries _ es (by omega)),
        le16_put16_of_disjoint _ _ (by omega), le16_put16 _ _ h₁]
    have hl : le16 (putEntries m at_ (e :: es)) (at_ + 2) = e.2 := by
      rw [putEntries, le16_congr (load_putEntries _ es (by omega)), le16_put16 _ _ h₂]
    rw [length_cons, readEntries, hi, hl, putEntries, ih _ _ fun e' he' => h e' (by simp [he'])]

/-! ## Well-formed blocks -/

/-- The datagrams of a table lie one behind another between two offsets. -/
def Tiled (lo hi : ℕ) : List (ℕ × ℕ) → Prop
  | [] => lo ≤ hi
  | e :: es => lo ≤ e.1 ∧ 0 < e.2 ∧ Tiled (e.1 + e.2) hi es

def datagrams (m : Memory) (table : List (ℕ × ℕ)) : List (List UInt8) :=
  table.map fun e => m.load e.1 e.2

/-- The first `total` bytes of a memory are a block whose NDP is at `ndp` and lists `table`:
header, datagrams and NDP follow one another without overlap up to the end of the block. -/
structure IsNtb (m : Memory) (total ndp : ℕ) (table : List (ℕ × ℕ)) : Prop where
  signature : m.load 0 4 = nthSignature
  blockLength : le16 m 8 = total
  ndpIndex : le16 m 10 = ndp
  magic : m.load ndp 4 = ndpSignature
  ndpLength : le16 m (ndp + 4) = 8 + 4 * (table.length + 1)
  nextIndex : le16 m (ndp + 6) = 0
  entries : readEntries m (ndp + 8) (table.length + 1) = table ++ [(0, 0)]
  tiled : Tiled 12 ndp table
  size : total = ndp + 8 + 4 * (table.length + 1)

variable {table : List (ℕ × ℕ)} {lo hi : ℕ}

section

variable (h : Tiled lo hi table)
include h

theorem Tiled.le : lo ≤ hi := by
  induction table generalizing lo with
  | nil => exact h
  | cons e es ih =>
    obtain ⟨he, -, hes⟩ := h
    have := ih hes
    omega

theorem Tiled.mem {e : ℕ × ℕ} (he : e ∈ table) : lo ≤ e.1 ∧ 0 < e.2 ∧ e.1 + e.2 ≤ hi := by
  induction table generalizing lo with
  | nil => simp at he
  | cons d ds ih =>
    obtain ⟨hd, hp, hds⟩ := h
    rcases mem_cons.mp he with rfl | he
    · exact ⟨hd, hp, hds.le⟩
    · obtain ⟨h₁, h₂⟩ := ih hds he
      exact ⟨by omega, h₂⟩

theorem Tiled.mono {hi' : ℕ} (hto : hi ≤ hi') : Tiled lo hi' table := by
  induction table generalizing lo with
  | nil => exact le_trans h hto
  | cons e es ih => exact ⟨h.1, h.2.1, ih h.2.2⟩

theorem Tiled.append {index length : ℕ} (hx : hi ≤ index) (hl : 0 < length) :
    Tiled lo (index + length) (table ++ [(index, length)]) := by
  induction table generalizing lo with
  | nil => exact ⟨le_trans h hx, hl, le_rfl⟩
  | cons e es ih => exact ⟨h.1, h.2.1, ih h.2.2⟩

theorem Tiled.datagrams_congr (hm : ∀ a n, lo ≤ a → a + n ≤ hi → m.load a n = m'.load a n) :
    datagrams m table = datagrams m' table := by
  apply map_congr_left
  intro e he
  obtain ⟨h₁, -, h₂⟩ := h.mem he
  exact hm e.1 e.2 h₁ h₂

end

variable {total : ℕ} {ndp : ℕ}

section

variable (h : IsNtb m total ndp table)
include h

theorem IsNtb.total_lt : total < 65536 := h.blockLength ▸ le16_lt m 8

theorem IsNtb.congr (hm : ∀ a n, a + n ≤ total → m'.load a n = m.load a n) :
    IsNtb m' total ndp table := by
  have hle := h.tiled.le
  have hsize := h.size
  refine ⟨?_, ?_, ?_, ?_, ?_, ?_, ?_, h.tiled, hsize⟩
  · rw [hm _ _ (by omega), h.signature]
  · rw [le16_congr (hm _ _ (by omega)), h.blockLength]
  · rw [le16_congr (hm _ _ (by omega)), h.ndpIndex]
  · rw [hm _ _ (by omega), h.magic]
  · rw [le16_congr (hm _ _ (by omega)), h.ndpLength]
  · rw [le16_congr (hm _ _ (by omega)), h.nextIndex]
  · rw [readEntries_congr fun a _ ha => hm a 2 (by omega), h.entries]

theorem IsNtb.copy (m' : Memory) : IsNtb (m'.store 0 (m.load 0 total)) total ndp table ∧
      datagrams (m'.store 0 (m.load 0 total)) table = datagrams m table := by
  have hc (a n : ℕ) (ha : a + n ≤ total) : (m'.store 0 (m.load 0 total)).load a n = m.load a n :=
    load_store_load m m' (Nat.zero_le _) (by omega)
  have hsize := h.size
  exact ⟨h.congr hc, h.tiled.datagrams_congr fun a n _ ha => hc a n (by omega)⟩

theorem IsNtb.block : blockNdp (m.load 0 total) = ndp ∧ blockTable (m.load 0 total) = table := by
  obtain ⟨hb, -⟩ := h.copy fun _ => 0
  have hn : blockNdp (m.load 0 total) = ndp := hb.ndpIndex
  have hk : (8 + 4 * (table.length + 1) - 8) / 4 - 1 = table.length := by omega
  have he := hb.entries
  rw [readEntries_succ] at he
  refine ⟨hn, ?_⟩
  rw [blockTable, hn, blockMemory, hb.ndpLength, hk]
  exact (append_inj' he rfl).1

end

end Q1n1.Ncm
