import Q1n1.Model.Ncm.Receive
import Q1n1.Verification.Ncm.Ntb

/-! # What the receive walk returns -/

namespace Q1n1.Ncm

open List

section Walk

variable {r : Rx} {table : List (ℕ × ℕ)} {max : ℕ}

section

variable (h : IsNtb r.inBuffer r.rxLength r.rxNdp table)
include h

theorem IsNtb.entry (hi : r.rxEntry ≤ table.length) :
    (table ++ [(0, 0)])[r.rxEntry]? = some (le16 r.inBuffer (r.rxNdp + 8 + r.rxEntry * 4),
      le16 r.inBuffer (r.rxNdp + 8 + r.rxEntry * 4 + 2)) := by
  rw [← h.entries, readEntries_getElem? _ _ (by omega), mul_comm 4]

theorem IsNtb.guards (hi : r.rxEntry ≤ table.length) :
    ¬(r.rxLength = 0 ∨ r.rxNdp = 0) ∧ ¬(r.rxLength < r.rxNdp + le16 r.inBuffer (r.rxNdp + 4) ∨
        r.rxNdp + le16 r.inBuffer (r.rxNdp + 4) < r.rxNdp + 8 + r.rxEntry * 4 + 4) := by
  have h₁ := h.tiled.le
  have h₂ := h.size
  rw [h.ndpLength]
  omega

theorem walk_entry (hi : r.rxEntry < table.length) (hmax : ∀ e ∈ table, e.2 ≤ max) :
    r.walk max = (some (r.inBuffer.load table[r.rxEntry].1 table[r.rxEntry].2),
      Rx.took { r with rxEntry := r.rxEntry + 1 } table[r.rxEntry].2) := by
  obtain ⟨hg, hg'⟩ := h.guards hi.le
  have hmem : table[r.rxEntry] ∈ table := getElem_mem hi
  obtain ⟨ht₁, ht₂, ht₃⟩ := h.tiled.mem hmem
  have hm := hmax _ hmem
  have hsize := h.size
  have he := h.entry hi.le
  rw [getElem?_append_left hi, getElem?_eq_getElem hi, Option.some_inj] at he
  rw [he] at ht₁ ht₂ ht₃ hm ⊢
  rw [Rx.walk, if_neg hg]
  rw [if_neg hg', if_neg (by omega), if_neg (by omega), if_neg (by omega)]

theorem walk_last (hi : r.rxEntry = table.length) :
    r.walk max = (none, Rx.leaveNdp { r with rxEntry := r.rxEntry + 1 }) := by
  obtain ⟨hg, hg'⟩ := h.guards hi.le
  have he := h.entry hi.le
  rw [hi, getElem?_append_right le_rfl, Nat.sub_self, getElem?_cons_zero,
    Option.some_inj, ← hi, Prod.mk.injEq] at he
  have hn : nextNdp r.inBuffer r.rxNdp r.rxLength = 0 := by
    rw [nextNdp, h.nextIndex]
    exact if_neg (by omega)
  rw [Rx.walk, if_neg hg]
  rw [if_neg hg', if_pos ⟨he.1.symm, he.2.symm⟩, if_pos hn]

end

theorem walk_idle (h : r.rxLength = 0) : r.walk max = (none, r) := by
  rw [Rx.walk, if_pos (.inl h)]

end Walk

/-! ## One block -/

/-- The frames of the block in the buffer that are still to be returned. -/
def Rx.Holds (r : Rx) (max : ℕ) (frames : List (List UInt8)) : Prop :=
  r.rxLength = 0 ∧ frames = [] ∨
    ∃ table, IsNtb r.inBuffer r.rxLength r.rxNdp table ∧ (∀ e ∈ table, e.2 ≤ max) ∧
      r.rxEntry ≤ table.length ∧ frames = datagrams r.inBuffer (table.drop r.rxEntry)

variable {frames : List (List UInt8)} {r : Rx} {max : ℕ}

theorem Rx.Holds.walk_cons {frame : List UInt8} (h : r.Holds max (frame :: frames)) :
    ∃ r', r.walk max = (some frame, r') ∧ r'.Holds max frames ∧ r'.incoming = r.incoming := by
  rcases h with ⟨-, h⟩ | ⟨table, hn, hm, hi, hf⟩
  · simp at h
  by_cases hlt : r.rxEntry < table.length
  · rw [drop_eq_getElem_cons hlt, datagrams, map_cons, List.cons.injEq] at hf
    rw [walk_entry hn hlt hm, hf.1]
    exact ⟨_, rfl, .inr ⟨table, hn, hm, hlt, hf.2⟩, rfl⟩
  · rw [drop_eq_nil_of_le (by omega)] at hf
    simp [datagrams] at hf

theorem Rx.Holds.walk_nil (h : r.Holds max []) :
    ∃ r', r.walk max = (none, r') ∧ r'.incoming = r.incoming := by
  rcases h with ⟨h, -⟩ | ⟨table, hn, -, hi, hf⟩
  · exact ⟨r, walk_idle h, rfl⟩
  · have hlast : table.length ≤ r.rxEntry := drop_eq_nil_iff.mp (map_eq_nil_iff.mp hf.symm)
    exact ⟨_, walk_last hn (by omega), rfl⟩

/-- A block that was well-formed when it was sent, with datagrams that fit the reader. -/
def Received (max : ℕ) (block : List UInt8) (frames : List (List UInt8)) : Prop :=
  ∃ m total ndp table, IsNtb m total ndp table ∧ (∀ e ∈ table, e.2 ≤ max) ∧
    block = m.load 0 total ∧ frames = datagrams m table

theorem Received.length_ne {block : List UInt8} (h : Received max block frames) :
    block.length ≠ 0 := by
  obtain ⟨m, total, ndp, table, hn, -, rfl, -⟩ := h
  have := hn.size
  rw [Memory.load_length]
  omega

theorem Received.accept {block : List UInt8} (h : Received max block frames) (r : Rx) :
    ∃ r', r.accept block = (true, r') ∧ r'.Holds max frames ∧ r'.incoming = r.incoming := by
  obtain ⟨m, total, ndp, table, hn, hm, rfl, rfl⟩ := h
  obtain ⟨hc, hd⟩ := hn.copy r.inBuffer
  have hle := hn.tiled.le
  have hsize := hn.size
  have hlen : (m.load 0 total).length = total := Memory.load_length _ _ _
  have hend : (if le16 (r.inBuffer.store 0 (m.load 0 total)) 8 ≠ 0 ∧
      le16 (r.inBuffer.store 0 (m.load 0 total)) 8 ≤ (m.load 0 total).length
      then le16 (r.inBuffer.store 0 (m.load 0 total)) 8 else (m.load 0 total).length) = total := by
    rw [hc.blockLength, hlen, ite_self]
  rw [Rx.accept]
  dsimp only
  rw [if_neg (by rw [hlen, hc.signature]; simp; omega), hend, hc.ndpIndex, if_neg (by omega)]
  exact ⟨_, rfl, Or.inr ⟨table, hc, hm, Nat.zero_le _, hd.symm⟩, rfl⟩

/-- The frames that are still to be returned, those of blocks on their way included. -/
def Rx.Due (r : Rx) (max : ℕ) (frames : List (List UInt8)) : Prop :=
  ∃ held blocks, r.Holds max held ∧ List.Forall₂ (Received max) r.incoming blocks ∧
    frames = held ++ blocks.flatten

theorem Rx.Holds.receiveFrom_cons {frame : List UInt8} {held : List (List UInt8)}
    (h : r.Holds max (frame :: held)) (incoming : List (List UInt8)) :
    ∃ r', Rx.receiveFrom max incoming r = (some frame, r') ∧ r'.Holds max held ∧
      r'.incoming = r.incoming := by
  obtain ⟨r', hw, h'⟩ := h.walk_cons
  refine ⟨r', ?_, h'⟩
  cases incoming <;> rw [Rx.receiveFrom, hw]

theorem receiveFrom_due {incoming : List (List UInt8)} {blocks : List (List (List UInt8))}
    (hb : List.Forall₂ (Received max) incoming blocks) (hr : r.incoming = incoming)
    {held : List (List UInt8)} (h : r.Holds max held) :
    ∃ r', Rx.receiveFrom max incoming r = ((held ++ blocks.flatten).head?, r') ∧
      r'.Due max (held ++ blocks.flatten).tail := by
  induction hb generalizing r held with
  | nil =>
    cases held with
    | cons frame held =>
      obtain ⟨r', hw, hh, hi⟩ := h.receiveFrom_cons []
      exact ⟨r', by simp [hw], held, [], hh, by rw [hi, hr]; exact .nil, by simp⟩
    | nil =>
      obtain ⟨r', hw, hi⟩ := h.walk_nil
      refine ⟨_, by rw [Rx.receiveFrom, hw]; rfl, [], [], .inl ⟨rfl, rfl⟩, ?_, rfl⟩
      rw [hi, hr]
      exact .nil
  | @cons block frames rest blocks hblock hrest ih =>
    cases held with
    | cons frame held =>
      obtain ⟨r', hw, hh, hi⟩ := h.receiveFrom_cons (block :: rest)
      exact ⟨r', by simp [hw], held, frames :: blocks, hh,
        by rw [hi, hr]; exact .cons hblock hrest, by simp⟩
    | nil =>
      obtain ⟨r', hw, -⟩ := h.walk_nil
      obtain ⟨r'', ha, hh, hi⟩ := hblock.accept
        { r' with rxLength := 0, rxNdp := 0, rxEntry := 0, incoming := rest }
      rw [Rx.receiveFrom, hw]
      dsimp only
      rw [if_neg hblock.length_ne, ha, if_pos rfl]
      exact ih hi hh

theorem Rx.Due.receive (h : r.Due max frames) :
    ∃ r', r.receive max = (frames.head?, r') ∧ r'.Due max frames.tail := by
  obtain ⟨held, blocks, hh, hb, rfl⟩ := h
  exact receiveFrom_due hb rfl hh

theorem Rx.Due.receiveMany (h : r.Due max frames) (calls : ℕ) : Rx.receiveMany max calls r =
      (frames.map some).take calls ++ replicate (calls - frames.length) none := by
  induction calls generalizing r frames with
  | zero => simp [Rx.receiveMany]
  | succ calls ih =>
    obtain ⟨r', hr, hd⟩ := h.receive
    rw [Rx.receiveMany, hr, ih hd]
    cases frames with
    | nil => simp [replicate_succ]
    | cons frame frames => simp

end Q1n1.Ncm
