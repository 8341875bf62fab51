import Q1n1.Library.Bits
import Q1n1.Library.Roster
import Q1n1.Model.Adreno.PageTables

/-! # What page tables show

The tables are read as a roster of the index paths they serve, in the order they were taken
from the pool, and a leaf for every page number: `[]` is the root, `[i]` and `[i, j]` are the
tables below it. -/

namespace Q1n1.Adreno

open List Function

open Bytes (putLe getLe)
open Roster (enter)

theorem pteAddrMask_eq : pteAddrMask = (2 ^ 36 - 1) <<< 12 := by decide

theorem and_three (x : ℕ) : x &&& 3 = x % 4 := Nat.and_two_pow_sub_one_eq_mod x 2

theorem and_addrMask {x : ℕ} (halign : x % 4096 = 0) (hlt : x < 2 ^ 48) :
    x &&& pteAddrMask = x := by
  rw [pteAddrMask_eq]
  exact Bits.and_field_eq_self (k := 12) (n := 36) halign hlt

theorem table_type {x : ℕ} (halign : x % 4096 = 0) : (x ||| pteTypeTable) &&& 3 = pteTypeTable := by
  have hx : x &&& 3 = 0 := by
    rw [and_three]
    omega
  rw [Nat.and_or_distrib_right, hx]
  rfl

theorem table_addr {x : ℕ} (halign : x % 4096 = 0) (hlt : x < 2 ^ 48) :
    (x ||| pteTypeTable) &&& pteAddrMask = x := by
  rw [Bits.or_and_of_and_eq_zero (by decide), and_addrMask halign hlt]

/-! ## Words of the tables -/

namespace PageTables

variable {t t' : PageTables} {table table' index index' value : ℕ}

theorem set_of_entry {v : ℕ} (h : t.entry table index = .ok v) (hv : value < 2 ^ 64) :
    ∃ t', t.set table index value = .ok t' := by
  unfold entry at h
  unfold set
  split at h
  · cases h
  · rename_i bytes hbytes
    exact ⟨_, if_pos hv⟩

/-- What stays when a word is written. -/
structure SetTo (t t' : PageTables) (table index value : ℕ) : Prop where
  fits : value < 2 ^ 64
  here : t'.entry table index = .ok value
  elsewhere : ∀ table' index', table' ≠ table ∨ index' ≠ index →
    t'.entry table' index' = t.entry table' index'
  pool : t'.base = t.base ∧ t'.poolOffset = t.poolOffset ∧ t'.poolSize = t.poolSize ∧
    t'.used = t.used ∧ t'.root = t.root
  defined : ∀ p, (t'.tables p).isSome = (t.tables p).isSome

theorem setTo_of_set (h : t.set table index value = .ok t') : SetTo t t' table index value := by
  unfold set at h
  split at h
  · cases h
  · rename_i bytes hbytes
    split at h
    · rename_i hfits
      cases h
      refine ⟨hfits, ?_, ?_, ⟨rfl, rfl, rfl, rfl, rfl⟩, ?_⟩
      · have hload : (bytes.store (8 * index) (putLe 8 value)).load (8 * index) 8 =
          putLe 8 value := by
          simpa using Memory.load_store_self bytes (8 * index) (putLe 8 value)
        have hget := Bytes.getLe_putLe_of_lt (n := 8) (v := value) (by simpa using hfits) []
        simp only [append_nil] at hget
        simp [entry, hload, hget]
      · intro table' index' hne
        by_cases htable : table' = table
        · subst htable
          have hload : (bytes.store (8 * index) (putLe 8 value)).load (8 * index') 8 =
              bytes.load (8 * index') 8 := by
            apply Memory.load_store_of_disjoint
            simp
            omega
          simp [entry, hbytes, hload]
        · simp [entry, htable]
      · intro p
        by_cases hp : p = table
        · subst hp
          simp [hbytes]
        · simp [hp]
    · cases h

def grown (t : PageTables) : PageTables :=
  { t with
    used := t.used + 4096
    tables := Function.update t.tables (t.base + t.poolOffset + t.used) (some fun _ => 0) }

theorem alloc_eq (h : t.used + 4096 ≤ t.poolSize) :
    t.alloc = .ok (t.base + t.poolOffset + t.used, t.grown) :=
  if_neg (Nat.not_lt.mpr h)

theorem alloc_eq_error (h : t.poolSize < t.used + 4096) : t.alloc = .error .exhausted := if_pos h

theorem entry_grown_self : t.grown.entry (t.base + t.poolOffset + t.used) index = .ok 0 := by
  simp [entry, grown, Memory.load, range_succ, getLe]

theorem entry_grown_ne (h : table ≠ t.base + t.poolOffset + t.used) :
    t.grown.entry table index = t.entry table index := by
  simp [entry, grown, h]

def slot (t : PageTables) (n : ℕ) : ℕ := t.base + t.poolOffset + 4096 * n

def addr (t : PageTables) (paths : List (List ℕ)) (path : List ℕ) : ℕ := t.slot (paths.idxOf path)

def link (t : PageTables) (paths : List (List ℕ)) (path : List ℕ) : ℕ :=
  if path ∈ paths then t.addr paths path ||| pteTypeTable else 0

end PageTables

/-! ## Paths of a page -/

/-- The indices of page `q` at the three levels. -/
def l1 (q : ℕ) : ℕ := q / 2 ^ 18
def l2 (q : ℕ) : ℕ := q / 512 % 512
def l3 (q : ℕ) : ℕ := q % 512

def pageOf (i j l : ℕ) : ℕ := i * 2 ^ 18 + j * 512 + l

theorem pageOf_levels (q : ℕ) : pageOf (l1 q) (l2 q) (l3 q) = q := by
  unfold pageOf l1 l2 l3
  omega

theorem levels_pageOf {i j l : ℕ} (hj : j < 512) (hl : l < 512) :
    l1 (pageOf i j l) = i ∧ l2 (pageOf i j l) = j ∧ l3 (pageOf i j l) = l := by
  unfold pageOf l1 l2 l3
  omega

variable {q : ℕ}

theorem l1_lt (h : q < 2 ^ 20) : l1 q < 4 := by
  unfold l1
  omega

theorem l2_lt (q : ℕ) : l2 q < 512 := Nat.mod_lt _ (by decide)

theorem l3_lt (q : ℕ) : l3 q < 512 := Nat.mod_lt _ (by decide)

theorem shift_thirty (v : ℕ) : v >>> 30 = l1 (v / 4096) := by
  rw [Nat.shiftRight_eq_div_pow]
  unfold l1
  omega

theorem shift_twentyOne (v : ℕ) : v >>> 21 &&& 0x1ff = l2 (v / 4096) := by
  rw [Nat.shiftRight_eq_div_pow, show (0x1ff : ℕ) = 2 ^ 9 - 1 by decide,
    Nat.and_two_pow_sub_one_eq_mod]
  unfold l2
  omega

theorem shift_twelve (v : ℕ) : v >>> 12 &&& 0x1ff = l3 (v / 4096) := by
  rw [Nat.shiftRight_eq_div_pow, show (0x1ff : ℕ) = 2 ^ 9 - 1 by decide,
    Nat.and_two_pow_sub_one_eq_mod]
  unfold l3
  omega

namespace PageTables

/-- `t` serves `paths`, and page `q` has the descriptor `leaf q`, which is 0 when there is none. -/
structure Shows (t : PageTables) (paths : List (List ℕ)) (leaf : ℕ → ℕ) : Prop where
  aligned : (t.base + t.poolOffset) % 4096 = 0
  below : t.base + t.poolOffset + t.poolSize ≤ 2 ^ 48
  used : t.used = 4096 * paths.length
  room : t.used ≤ t.poolSize
  defined : ∀ p, (t.tables p).isSome ↔ ∃ n < paths.length, p = t.slot n
  nodup : paths.Nodup
  first : [] ∈ paths ∧ t.addr paths [] = t.root
  top : ∀ i, [i] ∈ paths → i < 4
  above : ∀ i j, [i, j] ∈ paths → [i] ∈ paths ∧ j < 512
  node : ∀ p ∈ paths, p.length < 2 → ∀ i < 512,
    t.entry (t.addr paths p) i = .ok (t.link paths (p ++ [i]))
  page : ∀ i j, [i, j] ∈ paths → ∀ l < 512,
    t.entry (t.addr paths [i, j]) l = .ok (leaf (pageOf i j l))
  mapped : ∀ q, leaf q ≠ 0 → [l1 q, l2 q] ∈ paths

variable {t t' : PageTables} {paths : List (List ℕ)} {leaf : ℕ → ℕ} {p : List ℕ} {i : ℕ}

theorem Shows.slot_lt (h : Shows t paths leaf) {n : ℕ} (hn : n < paths.length) :
    t.slot n % 4096 = 0 ∧ t.slot n < 2 ^ 48 := by
  have haligned := h.aligned
  have hbelow := h.below
  have hused := h.used
  have hroom := h.room
  unfold slot
  omega

theorem Shows.addr_lt (h : Shows t paths leaf) (hp : p ∈ paths) :
    t.addr paths p % 4096 = 0 ∧ t.addr paths p < 2 ^ 48 :=
  h.slot_lt (idxOf_lt_length_of_mem hp)

theorem addr_inj {q : List ℕ} (hp : p ∈ paths) (h : t.addr paths p = t.addr paths q) : p = q := by
  apply Roster.idxOf_inj hp
  unfold addr slot at h
  omega

/-! ## The next level -/

theorem Shows.next_of_mem (h : Shows t paths leaf) (hp : p ∈ paths) (hlen : p.length < 2)
    (hi : i < 512) (hmem : p ++ [i] ∈ paths) :
    t.next (t.addr paths p) i = .ok (t.addr paths (p ++ [i]), t) := by
  obtain ⟨halign, hlt⟩ := h.addr_lt hmem
  have hentry := h.node p hp hlen i hi
  rw [link, if_pos hmem] at hentry
  simp [next, hentry, table_type halign, table_addr halign hlt, bind, Except.bind, pure,
    Except.pure]

/-- `t'` has one table more than `t`, which serves `p ++ [i]`. -/
structure Extends (t t' : PageTables) (paths : List (List ℕ)) (p : List ℕ) (i : ℕ) : Prop where
  slot : ∀ n, t'.slot n = t.slot n
  pool : t'.base + t'.poolOffset = t.base + t.poolOffset ∧ t'.poolSize = t.poolSize ∧
    t'.used = t.used + 4096 ∧ t'.root = t.root
  defined : ∀ q, (t'.tables q).isSome ↔ (t.tables q).isSome ∨ q = t.slot paths.length
  linked : t'.entry (t.addr paths p) i = .ok (t.slot paths.length ||| pteTypeTable)
  blank : ∀ index, t'.entry (t.slot paths.length) index = .ok 0
  others : ∀ q ∈ paths, ∀ index, q ≠ p ∨ index ≠ i →
    t'.entry (t.addr paths q) index = t.entry (t.addr paths q) index

theorem Shows.slot_length (h : Shows t paths leaf) :
    t.base + t.poolOffset + t.used = t.slot paths.length := by
  rw [h.used, slot]

theorem addr_ne_slot (hp : p ∈ paths) : t.addr paths p ≠ t.slot paths.length := by
  have := idxOf_lt_length_of_mem hp
  unfold addr slot
  omega

theorem Shows.next_extends (h : Shows t paths leaf) (hp : p ∈ paths) (hlen : p.length < 2)
    (hi : i < 512) (hnew : p ++ [i] ∉ paths) (hroom : t.used + 4096 ≤ t.poolSize) :
    ∃ t', t.next (t.addr paths p) i = .ok (t.slot paths.length, t') ∧ Extends t t' paths p i := by
  have hphys := h.slot_length
  have hentry := h.node p hp hlen i hi
  rw [link, if_neg hnew] at hentry
  have hne {q : List ℕ} (hq : q ∈ paths) : t.addr paths q ≠ t.base + t.poolOffset + t.used := by
    rw [hphys]
    exact addr_ne_slot hq
  have hgrown : t.grown.entry (t.addr paths p) i = .ok 0 := by
    rw [entry_grown_ne (hne hp), hentry]
  have hvalue : t.base + t.poolOffset + t.used ||| pteTypeTable < 2 ^ 64 := by
    have hbelow := h.below
    exact Nat.or_lt_two_pow (by omega) (by decide)
  obtain ⟨t', hset⟩ := set_of_entry hgrown hvalue
  have hto := setTo_of_set hset
  obtain ⟨hbase, hoffset, hsize, hused, hroot⟩ := hto.pool
  refine ⟨t', ?_, ?_⟩
  · have htype : ¬(0 &&& 3 = pteTypeTable) := by decide
    rw [← hphys]
    simp only [next, hentry, bind, Except.bind, htype, if_false, alloc_eq hroom, hset, pure,
      Except.pure, ne_eq, not_true_eq_false]
  · refine ⟨?_, ?_, ?_, ?_, ?_, ?_⟩
    · intro n
      simp [slot, hbase, hoffset, grown]
    · rw [hbase, hoffset]
      exact ⟨rfl, hsize, hused, hroot⟩
    · intro q
      rw [hto.defined, ← hphys]
      by_cases hq : q = t.base + t.poolOffset + t.used
      · simp [grown, hq]
      · simp [grown, hq]
    · rw [← hphys]
      exact hto.here
    · intro index
      rw [← hphys, hto.elsewhere _ index (.inl (hne hp).symm), entry_grown_self]
    · intro q hq index hother
      have hother : t.addr paths q ≠ t.addr paths p ∨ index ≠ i := by
        rcases hother with hqp | hindex
        · exact .inl fun heq => hqp (addr_inj hq heq)
        · exact .inr hindex
      rw [hto.elsewhere _ index hother, entry_grown_ne (hne hq)]

section

variable (h : Extends t t' paths p i)
include h

theorem Extends.addr_of_mem {q : List ℕ} (hq : q ∈ paths) :
    t'.addr (paths ++ [p ++ [i]]) q = t.addr paths q := by
  rw [addr, addr, h.slot, idxOf_append_of_mem hq]

theorem Extends.addr_self (hnew : p ++ [i] ∉ paths) :
    t'.addr (paths ++ [p ++ [i]]) (p ++ [i]) = t.slot paths.length := by
  rw [addr, h.slot, Roster.idxOf_append_self hnew]

theorem Extends.node (hs : Shows t paths leaf) (hnew : p ++ [i] ∉ paths) {q : List ℕ}
    (hq : q ∈ paths ++ [p ++ [i]]) (hqlen : q.length < 2) {j : ℕ} (hj : j < 512) :
    t'.entry (t'.addr (paths ++ [p ++ [i]]) q) j =
      .ok (t'.link (paths ++ [p ++ [i]]) (q ++ [j])) := by
  rcases mem_append.mp hq with hq | hq
  · rw [h.addr_of_mem hq]
    by_cases hsame : q ++ [j] = p ++ [i]
    · obtain ⟨rfl, hji⟩ := append_inj' hsame rfl
      cases hji
      rw [h.linked, link, if_pos (by simp), h.addr_self hnew]
    · have hother : q ≠ p ∨ j ≠ i := by
        by_contra hboth
        push Not at hboth
        exact hsame (by rw [hboth.1, hboth.2])
      rw [h.others q hq j hother, hs.node q hq hqlen j hj]
      by_cases hmem : q ++ [j] ∈ paths
      · rw [link, link, if_pos hmem, if_pos (mem_append_left _ hmem), h.addr_of_mem hmem]
      · rw [link, link, if_neg hmem, if_neg (by simpa [hmem] using hsame)]
  · -- the new table is empty, and nothing hangs below it yet
    obtain rfl : q = p ++ [i] := by simpa using hq
    obtain rfl : p = [] := by
      rw [length_append, length_singleton] at hqlen
      exact eq_nil_of_length_eq_zero (by omega)
    rw [h.addr_self hnew, h.blank, link, if_neg]
    intro hmem
    rcases mem_append.mp hmem with hmem | hmem
    · exact hnew (hs.above i j hmem).1
    · simp at hmem

theorem Extends.page (hs : Shows t paths leaf) (hlen : p.length < 2) (hi : i < 512)
    (hnew : p ++ [i] ∉ paths) {a b l : ℕ} (hab : [a, b] ∈ paths ++ [p ++ [i]]) (hl : l < 512) :
    t'.entry (t'.addr (paths ++ [p ++ [i]]) [a, b]) l = .ok (leaf (pageOf a b l)) := by
  rcases mem_append.mp hab with hab | hab
  · have hne : [a, b] ≠ p := by
      rintro rfl
      simp at hlen
    rw [h.addr_of_mem hab, h.others _ hab l (.inl hne), hs.page a b hab l hl]
  · obtain ⟨rfl, hb⟩ := append_inj' (show [a] ++ [b] = p ++ [i] by simpa using hab) rfl
    cases hb
    have hzero : leaf (pageOf a i l) = 0 := by
      by_contra hleaf
      have hmem := hs.mapped _ hleaf
      obtain ⟨h₁, h₂, -⟩ := levels_pageOf (i := a) hi hl
      rw [h₁, h₂] at hmem
      exact hnew hmem
    rw [hzero]
    exact (congrArg (t'.entry · l) (h.addr_self hnew)).trans (h.blank l)

theorem Extends.shows (hs : Shows t paths leaf) (hp : p ∈ paths) (hlen : p.length < 2)
    (hi : i < 512) (htop : p = [] → i < 4) (hnew : p ++ [i] ∉ paths)
    (hroom : t.used + 4096 ≤ t.poolSize) : Shows t' (paths ++ [p ++ [i]]) leaf := by
  obtain ⟨hpool, hsize, hused, hroot⟩ := h.pool
  refine ⟨by rw [hpool]; exact hs.aligned, by rw [hpool, hsize]; exact hs.below, ?_,
    by rw [hused, hsize]; exact hroom, ?_, ?_, ?_, ?_, ?_, ?_, ?_, ?_⟩
  · rw [hused, hs.used]
    simp
    omega
  · intro q
    rw [h.defined, hs.defined, length_append, length_singleton]
    simp only [h.slot, Nat.lt_succ_iff_lt_or_eq, or_and_right, exists_or, exists_eq_left]
  · have := Roster.nodup_enter (a := p ++ [i]) hs.nodup
    rwa [Roster.enter_of_not_mem hnew] at this
  · refine ⟨mem_append_left _ hs.first.1, ?_⟩
    rw [h.addr_of_mem hs.first.1, hroot, hs.first.2]
  · intro j hj
    rcases mem_append.mp hj with hj | hj
    · exact hs.top j hj
    · obtain ⟨hnil, hji⟩ := append_inj' (show [] ++ [j] = p ++ [i] by simpa using hj) rfl
      cases hji
      exact htop hnil.symm
  · intro a b hab
    rcases mem_append.mp hab with hab | hab
    · obtain ⟨ha, hb⟩ := hs.above a b hab
      exact ⟨mem_append_left _ ha, hb⟩
    · obtain ⟨rfl, hb⟩ := append_inj' (show [a] ++ [b] = p ++ [i] by simpa using hab) rfl
      cases hb
      exact ⟨mem_append_left _ hp, hi⟩
  · intro q hq hqlen j hj
    exact h.node hs hnew hq hqlen hj
  · intro a b hab l hl
    exact h.page hs hlen hi hnew hab hl
  · intro q hq
    exact mem_append_left _ (hs.mapped q hq)

end

theorem Shows.next (h : Shows t paths leaf) (hp : p ∈ paths) (hlen : p.length < 2) (hi : i < 512)
    (htop : p = [] → i < 4) (hroom : 4096 * (enter paths (p ++ [i])).length ≤ t.poolSize) :
    ∃ t', t.next (t.addr paths p) i = .ok (t'.addr (enter paths (p ++ [i])) (p ++ [i]), t') ∧
      Shows t' (enter paths (p ++ [i])) leaf ∧ t'.poolSize = t.poolSize := by
  by_cases hmem : p ++ [i] ∈ paths
  · rw [Roster.enter_of_mem hmem]
    exact ⟨t, h.next_of_mem hp hlen hi hmem, h, rfl⟩
  · rw [Roster.enter_of_not_mem hmem] at hroom ⊢
    have hused : t.used + 4096 ≤ t.poolSize := by
      rw [h.used]
      simpa [mul_add] using hroom
    obtain ⟨t', hnext, hext⟩ := h.next_extends hp hlen hi hmem hused
    refine ⟨t', ?_, hext.shows h hp hlen hi htop hmem hused, hext.pool.2.1⟩
    rw [hnext, hext.addr_self hmem]

theorem Shows.next_error (h : Shows t paths leaf) (hp : p ∈ paths) (hlen : p.length < 2)
    (hi : i < 512) (hroom : ¬4096 * (enter paths (p ++ [i])).length ≤ t.poolSize) :
    t.next (t.addr paths p) i = .error .exhausted := by
  have hnew : p ++ [i] ∉ paths := by
    intro hmem
    rw [Roster.enter_of_mem hmem, ← h.used] at hroom
    exact hroom h.room
  have hused : t.poolSize < t.used + 4096 := by
    rw [Roster.enter_of_not_mem hnew] at hroom
    rw [h.used]
    simp [mul_add] at hroom
    omega
  have hentry := h.node p hp hlen i hi
  rw [link, if_neg hnew] at hentry
  have htype : ¬(0 &&& 3 = pteTypeTable) := by decide
  simp only [PageTables.next, hentry, bind, Except.bind, htype, if_false,
    alloc_eq_error hused, ne_eq,
    not_true_eq_false]

/-! ## One page -/

theorem Shows.set (h : Shows t paths leaf) {value : ℕ} (hq : [l1 q, l2 q] ∈ paths)
    (hset : t.set (t.addr paths [l1 q, l2 q]) (l3 q) value = .ok t') :
    Shows t' paths (update leaf q value) ∧ t'.poolSize = t.poolSize := by
  have hto := setTo_of_set hset
  obtain ⟨hbase, hoffset, hsize, hused, hroot⟩ := hto.pool
  have hslot (n : ℕ) : t'.slot n = t.slot n := by
    simp [slot, hbase, hoffset]
  have haddr (p : List ℕ) : t'.addr paths p = t.addr paths p := hslot _
  refine ⟨?_, hsize⟩
  refine ⟨by rw [hbase, hoffset]; exact h.aligned, by rw [hbase, hoffset, hsize]; exact h.below,
    by rw [hused, h.used], by rw [hused, hsize]; exact h.room, ?_, h.nodup,
    ⟨h.first.1, by rw [haddr, hroot, h.first.2]⟩, h.top, h.above, ?_, ?_, ?_⟩
  · intro p
    simp only [hto.defined, h.defined, hslot]
  · intro p hp hlen i hi
    have hne : p ≠ [l1 q, l2 q] := by
      rintro rfl
      simp at hlen
    rw [haddr, hto.elsewhere _ i (.inl fun heq => hne (addr_inj hp heq)), h.node p hp hlen i hi,
      link, link, haddr]
  · intro i j hij l hl
    rw [haddr]
    by_cases hsame : pageOf i j l = q
    · subst hsame
      obtain ⟨h₁, h₂, h₃⟩ := levels_pageOf (i := i) (h.above i j hij).2 hl
      rw [h₁, h₂, h₃] at hto
      rw [hto.here, update_self]
    · have hother : t.addr paths [i, j] ≠ t.addr paths [l1 q, l2 q] ∨ l ≠ l3 q := by
        by_contra hboth
        push Not at hboth
        obtain ⟨heq, rfl⟩ := hboth
        have hij' := addr_inj hij heq
        simp only [List.cons.injEq, and_true] at hij'
        rw [hij'.1, hij'.2, pageOf_levels] at hsame
        exact hsame rfl
      rw [hto.elsewhere _ l hother, h.page i j hij l hl, update_of_ne hsame]
  · intro r hr
    by_cases hrq : r = q
    · rw [hrq]
      exact hq
    · rw [update_of_ne hrq] at hr
      exact h.mapped r hr

def pagePaths (paths : List (List ℕ)) (q : ℕ) : List (List ℕ) :=
  enter (enter paths [l1 q]) [l1 q, l2 q]

theorem mem_pagePaths : p ∈ pagePaths paths q ↔ p ∈ paths ∨ p = [l1 q] ∨ p = [l1 q, l2 q] := by
  simp [pagePaths, or_assoc]

theorem Shows.root_index (hq : q < 2 ^ 20) : (4096 * q) >>> 30 &&& 3 = l1 q := by
  rw [and_three, shift_thirty, Nat.mul_div_cancel_left q (by decide)]
  exact Nat.mod_eq_of_lt (l1_lt hq)

/-- The tables of a page, as far as they fit in the pool. -/
theorem Shows.descend (h : Shows t paths leaf) (hq : q < 2 ^ 20)
    (hroom : 4096 * (pagePaths paths q).length ≤ t.poolSize) :
    ∃ t₁ t₂, t.next t.root (l1 q) = .ok (t₁.addr (enter paths [l1 q]) [l1 q], t₁) ∧
      t₁.next (t₁.addr (enter paths [l1 q]) [l1 q]) (l2 q) =
        .ok (t₂.addr (pagePaths paths q) [l1 q, l2 q], t₂) ∧
      Shows t₂ (pagePaths paths q) leaf ∧ t₂.poolSize = t.poolSize := by
  have hroom₁ : 4096 * (enter paths ([] ++ [l1 q])).length ≤ t.poolSize :=
    (Nat.mul_le_mul_left _ Roster.length_le_enter).trans hroom
  have hl1 := l1_lt hq
  obtain ⟨t₁, hnext₁, hs₁, hsize₁⟩ := h.next h.first.1 (by simp) (by omega) (fun _ => hl1) hroom₁
  rw [h.first.2] at hnext₁
  have hroom₂ : 4096 * (enter (enter paths [l1 q]) ([l1 q] ++ [l2 q])).length ≤ t₁.poolSize := by
    rw [hsize₁]
    exact hroom
  obtain ⟨t₂, hnext₂, hs₂, hsize₂⟩ :=
    hs₁.next (p := [l1 q]) (by simp) (by simp) (l2_lt q) (by simp) hroom₂
  exact ⟨t₁, t₂, hnext₁, hnext₂, hs₂, hsize₂.trans hsize₁⟩

variable {q frame attrs : ℕ}

/-- A page is mapped where there is room, no leaf yet and a descriptor of 64 bits. -/
theorem Shows.mapPage (h : Shows t paths leaf) (hq : q < 2 ^ 20)
    (hroom : 4096 * (pagePaths paths q).length ≤ t.poolSize) (hfree : leaf q = 0)
    (hfits : frame ||| attrs ||| pteTypePage < 2 ^ 64) :
    ∃ t', t.mapPage (4096 * q) frame attrs = .ok t' ∧
      Shows t' (pagePaths paths q) (update leaf q (frame ||| attrs ||| pteTypePage)) ∧
      t'.poolSize = t.poolSize := by
  obtain ⟨t₁, t₂, hnext₁, hnext₂, hs₂, hsize₂⟩ := h.descend hq hroom
  have hpath : [l1 q, l2 q] ∈ pagePaths paths q := mem_pagePaths.mpr (.inr (.inr rfl))
  have hentry := hs₂.page _ _ hpath _ (l3_lt q)
  rw [pageOf_levels, hfree] at hentry
  obtain ⟨t', hset⟩ := set_of_entry hentry hfits
  obtain ⟨hs', hsize'⟩ := hs₂.set hpath hset
  refine ⟨t', ?_, hs', hsize'.trans hsize₂⟩
  simp only [PageTables.mapPage, root_index hq, shift_twentyOne, shift_twelve,
    Nat.mul_div_cancel_left q (show 0 < 4096 by decide), hnext₁, hnext₂, hentry, hset, bind,
    Except.bind, ne_eq, not_true_eq_false, if_false]

theorem Shows.mapPage_exhausted (h : Shows t paths leaf) (hq : q < 2 ^ 20)
    (hroom : ¬4096 * (pagePaths paths q).length ≤ t.poolSize) :
    t.mapPage (4096 * q) frame attrs = .error .exhausted := by
  have hl1 := l1_lt hq
  simp only [PageTables.mapPage, root_index hq, shift_twentyOne, bind, Except.bind,
    Nat.mul_div_cancel_left q (show 0 < 4096 by decide)]
  by_cases hroom₁ : 4096 * (enter paths ([] ++ [l1 q])).length ≤ t.poolSize
  · obtain ⟨t₁, hnext₁, hs₁, hsize₁⟩ := h.next h.first.1 (by simp) (by omega) (fun _ => hl1) hroom₁
    have hnext₂ := hs₁.next_error (p := [l1 q]) (i := l2 q) (by simp) (by simp) (l2_lt q)
      (by rw [hsize₁]; exact hroom)
    rw [h.first.2] at hnext₁
    simp only [nil_append] at hnext₁ hnext₂
    simp only [hnext₁, hnext₂]
  · have hnext₁ := h.next_error h.first.1 (by simp) (by omega) hroom₁
    rw [h.first.2] at hnext₁
    simp only [hnext₁]

theorem Shows.of_mapPage (h : Shows t paths leaf) (hq : q < 2 ^ 20)
    (hok : t.mapPage (4096 * q) frame attrs = .ok t') :
    4096 * (pagePaths paths q).length ≤ t.poolSize ∧ leaf q = 0 ∧
      frame ||| attrs ||| pteTypePage < 2 ^ 64 := by
  by_cases hroom : 4096 * (pagePaths paths q).length ≤ t.poolSize
  · obtain ⟨t₁, t₂, hnext₁, hnext₂, hs₂, -⟩ := h.descend hq hroom
    have hentry := hs₂.page _ _ (mem_pagePaths.mpr (.inr (.inr rfl))) _ (l3_lt q)
    rw [pageOf_levels] at hentry
    simp only [PageTables.mapPage, root_index hq, shift_twentyOne, shift_twelve,
      Nat.mul_div_cancel_left q (show 0 < 4096 by decide), hnext₁, hnext₂, hentry, bind,
      Except.bind] at hok
    by_cases hfree : leaf q = 0
    · simp only [hfree, ne_eq, not_true_eq_false, if_false] at hok
      exact ⟨hroom, hfree, (setTo_of_set hok).fits⟩
    · simp only [ne_eq, hfree, not_false_eq_true, if_true] at hok
      cases hok
  · rw [h.mapPage_exhausted hq hroom] at hok
    cases hok

end PageTables

end Q1n1.Adreno
