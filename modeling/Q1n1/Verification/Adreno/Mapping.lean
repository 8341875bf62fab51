import Q1n1.Verification.Adreno.Tables

/-! # The GPU sees what was mapped -/

namespace Q1n1.Adreno

open List

open Bytes (putLe getLe)

namespace PageTables

/-! ## Calls -/

/-- The descriptor that a call gives page `q`. -/
def Mapping.leaf (c : Mapping) (q : ℕ) : ℕ :=
  c.pa + 4096 * (q - c.va / 4096) ||| c.attrs ||| pteTypePage

/-- Page `q` is one of the first `n` pages of the call. -/
def Mapping.InFirst (c : Mapping) (n q : ℕ) : Prop := c.va / 4096 ≤ q ∧ q < c.va / 4096 + n

instance (c : Mapping) (n q : ℕ) : Decidable (c.InFirst n q) :=
  inferInstanceAs (Decidable (_ ∧ _))

/-- The leaves once the first `n` pages of a call are mapped. -/
def paint (n : ℕ) (leaf : ℕ → ℕ) (c : Mapping) (q : ℕ) : ℕ :=
  if c.InFirst n q then c.leaf q else leaf q

def painted (leaf : ℕ → ℕ) (c : Mapping) : ℕ → ℕ := paint (c.size / 4096) leaf c

/-- `map` takes the arguments. -/
structure Mapping.Valid (c : Mapping) : Prop where
  va : c.va % 4096 = 0
  pa : c.pa % 4096 = 0
  size : c.size % 4096 = 0
  fits : c.va + c.size ≤ 2 ^ 32

/-- The pages of a call have no leaf yet, and their descriptors are 64-bit words. -/
def Mapping.Free (c : Mapping) (leaf : ℕ → ℕ) (n : ℕ) : Prop :=
  ∀ q, c.InFirst n q → leaf q = 0 ∧ c.leaf q < 2 ^ 64

variable {t t' : PageTables} {paths : List (List ℕ)} {leaf : ℕ → ℕ} {c : Mapping} {n : ℕ}

theorem paint_zero (leaf : ℕ → ℕ) (c : Mapping) : paint 0 leaf c = leaf := by
  funext q
  simp [paint, Mapping.InFirst]

theorem paint_succ (n : ℕ) (leaf : ℕ → ℕ) (c : Mapping) : paint (n + 1) leaf c =
      Function.update (paint n leaf c) (c.va / 4096 + n) (c.leaf (c.va / 4096 + n)) := by
  funext q
  by_cases hq : q = c.va / 4096 + n
  · subst hq
    simp [paint, Mapping.InFirst]
  · have hiff : c.InFirst (n + 1) q ↔ c.InFirst n q := by
      unfold Mapping.InFirst
      omega
    rw [Function.update_of_ne hq, paint, paint, if_congr hiff rfl rfl]

theorem paint_next (n : ℕ) (leaf : ℕ → ℕ) (c : Mapping) :
    paint n leaf c (c.va / 4096 + n) = leaf (c.va / 4096 + n) :=
  if_neg (by unfold Mapping.InFirst; omega)

theorem Mapping.free_succ : c.Free leaf (n + 1) ↔ c.Free leaf n ∧
      leaf (c.va / 4096 + n) = 0 ∧ c.leaf (c.va / 4096 + n) < 2 ^ 64 := by
  constructor
  · intro h
    refine ⟨?_, h _ (by unfold Mapping.InFirst; omega)⟩
    intro q hq
    exact h q (by unfold Mapping.InFirst at hq ⊢; omega)
  · intro h q hq
    obtain ⟨hn, hlast⟩ := h
    by_cases hqn : q = c.va / 4096 + n
    · rw [hqn]
      exact hlast
    · exact hn q (by unfold Mapping.InFirst at hq ⊢; omega)

def mapPages (t : PageTables) (c : Mapping) (n : ℕ) : Except Refusal PageTables :=
  (List.range n).foldlM (fun t k => t.mapPage (c.va + 4096 * k) (c.pa + 4096 * k) c.attrs) t

theorem mapPages_succ (t : PageTables) (c : Mapping) (n : ℕ) : t.mapPages c (n + 1) =
      t.mapPages c n >>= fun t => t.mapPage (c.va + 4096 * n) (c.pa + 4096 * n) c.attrs := by
  simp only [mapPages, range_succ, foldlM_append, foldlM_cons, foldlM_nil, bind_pure]

theorem Mapping.leaf_next (c : Mapping) (n : ℕ) :
    c.leaf (c.va / 4096 + n) = c.pa + 4096 * n ||| c.attrs ||| pteTypePage := by
  rw [Mapping.leaf, Nat.add_sub_cancel_left]

theorem Mapping.va_next (hva : c.va % 4096 = 0) (n : ℕ) :
    c.va + 4096 * n = 4096 * (c.va / 4096 + n) := by
  omega

theorem Shows.of_mapPages (h : Shows t paths leaf) (hva : c.va % 4096 = 0)
    (hn : c.va / 4096 + n ≤ 2 ^ 20) (hok : t.mapPages c n = .ok t') :
    c.Free leaf n ∧ ∃ paths', Shows t' paths' (paint n leaf c) ∧ t'.poolSize = t.poolSize := by
  induction n generalizing t' with
  | zero =>
    cases hok
    refine ⟨?_, paths, ?_, rfl⟩
    · intro q hq
      unfold Mapping.InFirst at hq
      omega
    · rwa [paint_zero]
  | succ n ih =>
    rw [mapPages_succ] at hok
    cases hfirst : t.mapPages c n with
    | error e =>
      rw [hfirst] at hok
      cases hok
    | ok t₁ =>
      rw [hfirst] at hok
      obtain ⟨hfree, paths₁, hs₁, hsize₁⟩ := ih (by omega) hfirst
      have hok : t₁.mapPage (c.va + 4096 * n) (c.pa + 4096 * n) c.attrs = .ok t' := hok
      rw [Mapping.va_next hva] at hok
      obtain ⟨hroom, hleaf, hfits⟩ := hs₁.of_mapPage (by omega) hok
      obtain ⟨t'', hok', hs', hsize'⟩ := hs₁.mapPage (by omega) hroom hleaf hfits
      cases hok.symm.trans hok'
      rw [paint_next] at hleaf
      rw [← Mapping.leaf_next] at hfits hs'
      rw [paint_succ]
      exact ⟨Mapping.free_succ.mpr ⟨hfree, hleaf, hfits⟩, _, hs', hsize'.trans hsize₁⟩

/-- Every table that the first `n` pages of a call take is in `all`. -/
def Mapping.Within (c : Mapping) (n : ℕ) (all : List (List ℕ)) : Prop :=
  ∀ q, c.InFirst n q → [l1 q] ∈ all ∧ [l1 q, l2 q] ∈ all

variable {q : ℕ}

theorem length_pagePaths_le {all : List (List ℕ)} (hnodup : paths.Nodup) (hsub : paths ⊆ all)
    (hq : [l1 q] ∈ all ∧ [l1 q, l2 q] ∈ all) :
    (pagePaths paths q).length ≤ all.length ∧ pagePaths paths q ⊆ all := by
  have hsub' : pagePaths paths q ⊆ all := by
    intro p hp
    rcases mem_pagePaths.mp hp with hp | rfl | rfl
    · exact hsub hp
    · exact hq.1
    · exact hq.2
  exact ⟨Roster.length_le_of_subset (Roster.nodup_enter (Roster.nodup_enter hnodup)) hsub', hsub'⟩

/-- The loop comes to its end when the pool holds every table it may take. -/
theorem Shows.mapPages (h : Shows t paths leaf) (hva : c.va % 4096 = 0)
    (hn : c.va / 4096 + n ≤ 2 ^ 20) {all : List (List ℕ)} (hsub : paths ⊆ all)
    (hwithin : c.Within n all) (hall : 4096 * all.length ≤ t.poolSize) (hfree : c.Free leaf n) :
    ∃ t' paths', t.mapPages c n = .ok t' ∧ Shows t' paths' (paint n leaf c) ∧
      t'.poolSize = t.poolSize ∧ paths' ⊆ all := by
  induction n with
  | zero =>
    refine ⟨t, paths, rfl, ?_, rfl, hsub⟩
    rwa [paint_zero]
  | succ n ih =>
    obtain ⟨hfree, hleaf, hfits⟩ := Mapping.free_succ.mp hfree
    have hwithin' : c.Within n all := by
      intro q hq
      exact hwithin q (by unfold Mapping.InFirst at hq ⊢; omega)
    obtain ⟨t₁, paths₁, hok₁, hs₁, hsize₁, hsub₁⟩ := ih (by omega) hwithin' hfree
    obtain ⟨hlength, hsub'⟩ := length_pagePaths_le hs₁.nodup hsub₁
      (hwithin (c.va / 4096 + n) (by unfold Mapping.InFirst; omega))
    rw [← paint_next n leaf c] at hleaf
    rw [Mapping.leaf_next] at hfits
    obtain ⟨t', hok', hs', hsize'⟩ := hs₁.mapPage (by omega) (by rw [hsize₁]; omega) hleaf hfits
    refine ⟨t', _, ?_, ?_, hsize'.trans hsize₁, hsub'⟩
    · rw [mapPages_succ, hok₁, Mapping.va_next hva]
      exact hok'
    · rwa [paint_succ, Mapping.leaf_next]

/-! ## Sequences of calls -/

theorem map_eq_mapPages (h : c.Valid) : t.map c = t.mapPages c (c.size / 4096) := by
  apply if_neg
  have hfits : c.va + c.size ≤ 1 <<< cbT0sz := h.fits
  simp [h.va, h.pa, h.size]
  exact hfits

theorem valid_of_map (h : t.map c = .ok t') : c.Valid := by
  unfold map at h
  split at h
  · cases h
  · rename_i hvalid
    push Not at hvalid
    exact ⟨hvalid.1, hvalid.2.1, hvalid.2.2.1, hvalid.2.2.2⟩

theorem Mapping.Valid.pages_le (h : c.Valid) : c.va / 4096 + c.size / 4096 ≤ 2 ^ 20 := by
  have hfits := h.fits
  omega

/-- The calls are taken one after the other, from `leaf` on. -/
def Accepts : (leaf : ℕ → ℕ) → List Mapping → Prop
  | _, [] => True
  | leaf, c :: calls =>
    c.Valid ∧ c.Free leaf (c.size / 4096) ∧ Accepts (painted leaf c) calls

variable {calls : List Mapping}

theorem Shows.of_mapAll (h : Shows t paths leaf) (hok : t.mapAll calls = .ok t') :
    Accepts leaf calls ∧ ∃ paths', Shows t' paths' (calls.foldl painted leaf) := by
  induction calls generalizing t paths leaf with
  | nil =>
    cases hok
    exact ⟨trivial, paths, h⟩
  | cons c calls ih =>
    simp only [mapAll, foldlM_cons] at hok
    cases hfirst : t.map c with
    | error e =>
      rw [hfirst] at hok
      cases hok
    | ok t₁ =>
      rw [hfirst] at hok
      have hvalid := valid_of_map hfirst
      rw [map_eq_mapPages hvalid] at hfirst
      obtain ⟨hfree, paths₁, hs₁, -⟩ := h.of_mapPages hvalid.va hvalid.pages_le hfirst
      obtain ⟨haccepts, paths', hs'⟩ := ih hs₁ hok
      exact ⟨⟨hvalid, hfree, haccepts⟩, paths', hs'⟩

theorem Shows.mapAll (h : Shows t paths leaf) (haccepts : Accepts leaf calls) (all : List (List ℕ))
    (hsub : paths ⊆ all) (hall : 4096 * all.length ≤ t.poolSize)
    (hwithin : ∀ c ∈ calls, c.Within (c.size / 4096) all) :
    ∃ t' paths', t.mapAll calls = .ok t' ∧ Shows t' paths' (calls.foldl painted leaf) := by
  induction calls generalizing t paths leaf with
  | nil => exact ⟨t, paths, rfl, h⟩
  | cons c calls ih =>
    obtain ⟨hvalid, hfree, haccepts⟩ := haccepts
    obtain ⟨t₁, paths₁, hok₁, hs₁, hsize₁, hsub₁⟩ :=
      h.mapPages hvalid.va hvalid.pages_le hsub (hwithin c mem_cons_self) hall hfree
    obtain ⟨t', paths', hok', hs'⟩ := ih hs₁ haccepts hsub₁ (by rwa [hsize₁])
      (fun d hd => hwithin d (mem_cons_of_mem c hd))
    refine ⟨t', paths', ?_, hs'⟩
    simp only [PageTables.mapAll, foldlM_cons, map_eq_mapPages hvalid, hok₁]
    exact hok'

theorem create_shows {base poolOffset poolSize : ℕ} (haligned : (base + poolOffset) % 4096 = 0)
    (hbelow : base + poolOffset + poolSize ≤ 2 ^ 48)
    (hcreate : create base poolOffset poolSize = .ok t) :
    Shows t [[]] (fun _ => 0) ∧ t.poolSize = poolSize := by
  have hroom : 4096 ≤ poolSize := by
    by_contra hsmall
    simp [create, alloc, Nat.not_le.mp hsmall] at hcreate
  have halloc : create base poolOffset poolSize = .ok
      { base, poolOffset, poolSize, used := 4096, root := base + poolOffset,
        tables := Function.update (fun _ => none) (base + poolOffset) (some fun _ => 0) } := by
    simp [create, alloc, Nat.not_lt.mpr hroom]
  rw [halloc] at hcreate
  cases hcreate
  refine ⟨?_, rfl⟩
  refine ⟨haligned, hbelow, rfl, hroom, ?_, by simp, ⟨by simp, by simp [addr, slot]⟩,
    by simp, by simp,
    ?_, by simp, by simp⟩
  · intro p
    by_cases hp : p = base + poolOffset
    · simp [hp, slot]
    · simp [hp, slot]
  · intro p hp hlen i hi
    obtain rfl : p = [] := by simpa using hp
    simp [entry, addr, slot, link, Memory.load, range_succ, getLe]

/-! ## Walks -/

/-- `image` lies at the pool's address. -/
def Placed (t : PageTables) (memory : Memory) : Prop :=
  memory.load (t.base + t.poolOffset) t.image.length = t.image

theorem image_length (t : PageTables) : t.image.length = 4096 * (t.used / 4096) := by
  simp [image, length_flatMap, mul_comm]

variable {memory : Memory}

section

variable (h : Shows t paths leaf)
include h

theorem Shows.readU64_eq (hmem : t.Placed memory) {p : List ℕ} (hp : p ∈ paths) {i v : ℕ}
    (hi : i < 512) (hentry : t.entry (t.addr paths p) i = .ok v) :
    readU64 memory (t.addr paths p + 8 * i) = v := by
  have hindex := idxOf_lt_length_of_mem hp
  have hk : t.used / 4096 = paths.length := by
    rw [h.used]
    omega
  rw [Placed, image_length, image, hk] at hmem
  have hpiece := Memory.load_piece (fun n => Memory.load_length _ 0 4096) hmem hindex
  unfold entry at hentry
  split at hentry
  · cases hentry
  · rename_i bytes hbytes
    rw [← Except.ok.inj hentry]
    rw [addr, slot] at hbytes
    rw [hbytes, Option.getD_some] at hpiece
    have hload := Memory.load_eq_load_of_le (i := 8 * i) (k := 8) hpiece (by omega)
    rw [readU64, addr, slot, hload, zero_add]

theorem Shows.root_read (hmem : t.Placed memory) {i : ℕ} (hi : i < 512) :
    readU64 memory (t.root + 8 * i) = t.link paths [i] := by
  have hread := h.readU64_eq hmem h.first.1 hi (h.node [] h.first.1 (by simp) i hi)
  rwa [h.first.2] at hread

theorem Shows.root_lt : t.root % 4096 = 0 ∧ t.root < 2 ^ 48 := by
  rw [← h.first.2]
  exact h.addr_lt h.first.1

theorem Shows.ttbr_and (cb : ℕ) : ttbrFor t cb &&& pteAddrMask = t.root := by
  obtain ⟨halign, hlt⟩ := h.root_lt
  have hasid : cb <<< 48 &&& pteAddrMask = 0 := by
    rw [pteAddrMask_eq]
    exact Bits.shiftLeft_and_field cb 36 12
  rw [ttbrFor, Bits.or_and_of_and_eq_zero hasid, and_addrMask halign hlt]

omit h in
theorem root_mask {t0sz va : ℕ} (ht : t0sz = cbT0sz ∨ t0sz = cbT0szWide)
    (hva : va >>> (64 - t0sz) = 0) :
    va >>> 30 &&& (1 <<< (34 - t0sz) - 1) = l1 (va / 4096) ∧ l1 (va / 4096) < 512 := by
  rw [Nat.shiftRight_eq_div_pow] at hva
  rw [shift_thirty]
  rcases ht with rfl | rfl
  · have hlt : l1 (va / 4096) < 4 := by
      simp [cbT0sz] at hva
      unfold l1
      omega
    refine ⟨?_, by omega⟩
    rw [show 1 <<< (34 - cbT0sz) - 1 = 3 by decide, and_three, Nat.mod_eq_of_lt hlt]
  · have hlt : l1 (va / 4096) < 16 := by
      simp [cbT0szWide] at hva
      unfold l1
      omega
    refine ⟨?_, by omega⟩
    rw [show 1 <<< (34 - cbT0szWide) - 1 = 2 ^ 4 - 1 by decide, Nat.and_two_pow_sub_one_eq_mod]
    exact Nat.mod_eq_of_lt hlt

omit h in
theorem shift_eq_zero {t0sz va : ℕ} (ht : t0sz = cbT0sz ∨ t0sz = cbT0szWide) (hva : va < 2 ^ 32) :
    va >>> (64 - t0sz) = 0 := by
  rw [Nat.shiftRight_eq_div_pow]
  apply Nat.div_eq_of_lt
  rcases ht with rfl | rfl
  · exact hva
  · exact hva.trans (by decide)

theorem Shows.link_type {p : List ℕ} : t.link paths p &&& 3 = pteTypeTable ↔ p ∈ paths := by
  by_cases hp : p ∈ paths
  · simp [link, hp, table_type (h.addr_lt hp).1]
  · simp [link, hp, pteTypeTable]

theorem Shows.link_addr {p : List ℕ} (hp : p ∈ paths) :
    t.link paths p &&& pteAddrMask = t.addr paths p := by
  obtain ⟨halign, hlt⟩ := h.addr_lt hp
  rw [link, if_pos hp, table_addr halign hlt]

theorem Shows.walk_eq (hmem : t.Placed memory) {t0sz : ℕ} (ht : t0sz = cbT0sz ∨ t0sz = cbT0szWide)
    (cb va : ℕ) :
    walk (readU64 memory) (ttbrFor t cb) va t0sz =
      if leaf (va / 4096) &&& 3 = pteTypePage then
        some (leaf (va / 4096) &&& pteAddrMask ||| va &&& 0xfff, leaf (va / 4096))
      else none := by
  have hnone (hq : [l1 (va / 4096), l2 (va / 4096)] ∉ paths) :
      ¬leaf (va / 4096) &&& 3 = pteTypePage := by
    have hzero : leaf (va / 4096) = 0 := by
      by_contra hleaf
      exact hq (h.mapped _ hleaf)
    rw [hzero]
    decide
  unfold walk
  by_cases hwide : va >>> (64 - t0sz) = 0
  · obtain ⟨hmask, hlt⟩ := root_mask ht hwide
    rw [if_neg (by simpa using hwide)]
    simp only [h.ttbr_and, hmask, h.root_read hmem hlt, ne_eq, h.link_type]
    by_cases htop : [l1 (va / 4096)] ∈ paths
    · have hnode := h.readU64_eq hmem htop (l2_lt _) (h.node _ htop (by simp) _ (l2_lt (va / 4096)))
      simp only [htop, not_true_eq_false, if_false, h.link_addr htop, shift_twentyOne, hnode,
        singleton_append, h.link_type]
      by_cases hmid : [l1 (va / 4096), l2 (va / 4096)] ∈ paths
      · have hleaf := h.readU64_eq hmem hmid (l3_lt _) (h.page _ _ hmid _ (l3_lt (va / 4096)))
        rw [pageOf_levels] at hleaf
        simp only [hmid, not_true_eq_false, if_false, h.link_addr hmid, shift_twelve,
          hleaf, ite_not]
      · rw [if_pos hmid, if_neg (hnone hmid)]
    · have hmid : [l1 (va / 4096), l2 (va / 4096)] ∉ paths := fun hmid => htop (h.above _ _ hmid).1
      rw [if_pos htop, if_neg (hnone hmid)]
  · have hmid : [l1 (va / 4096), l2 (va / 4096)] ∉ paths := by
      intro hmid
      have htop := h.top _ (h.above _ _ hmid).1
      refine hwide (shift_eq_zero ht ?_)
      unfold l1 at htop
      omega
    rw [if_pos hwide, if_neg (hnone hmid)]

end

/-! ## Calls that were accepted -/

theorem Mapping.leaf_type (c : Mapping) (q : ℕ) : c.leaf q &&& 3 = pteTypePage := by
  rw [Mapping.leaf, Nat.and_or_distrib_right, and_three]
  generalize c.pa + 4096 * (q - c.va / 4096) ||| c.attrs = x
  have hx := Nat.mod_lt x (show 0 < 4 by decide)
  generalize x % 4 = y at hx
  decide +revert

theorem Mapping.leaf_ne_zero (c : Mapping) (q : ℕ) : c.leaf q ≠ 0 := by
  intro h
  have htype := c.leaf_type q
  rw [h] at htype
  cases htype

theorem painted_of_ne_zero (hfree : c.Free leaf (c.size / 4096)) (hq : leaf q ≠ 0) :
    painted leaf c q = leaf q :=
  if_neg fun hin => hq (hfree q hin).1

section

variable (h : Accepts leaf calls)
include h

theorem Accepts.keeps (hq : leaf q ≠ 0) : calls.foldl painted leaf q = leaf q := by
  induction calls generalizing leaf with
  | nil => rfl
  | cons c calls ih =>
    obtain ⟨-, hfree, hrest⟩ := h
    have hpainted := painted_of_ne_zero hfree hq
    rw [foldl_cons, ih hrest (by rwa [hpainted]), hpainted]

theorem Accepts.covered (hc : c ∈ calls) (hq : c.InFirst (c.size / 4096) q) :
    calls.foldl painted leaf q = c.leaf q := by
  induction calls generalizing leaf with
  | nil => cases hc
  | cons d calls ih =>
    obtain ⟨-, -, hrest⟩ := h
    rw [foldl_cons]
    rcases mem_cons.mp hc with rfl | hc
    · have hpainted : painted leaf c q = c.leaf q := if_pos hq
      rw [hrest.keeps (by rw [hpainted]; exact c.leaf_ne_zero q), hpainted]
    · exact ih hrest hc

omit h in
theorem uncovered (hq : ∀ c ∈ calls, ¬c.InFirst (c.size / 4096) q) :
    calls.foldl painted leaf q = leaf q := by
  induction calls generalizing leaf with
  | nil => rfl
  | cons c calls ih =>
    have hpainted : painted leaf c q = leaf q := if_neg (hq c mem_cons_self)
    rw [foldl_cons, ih fun d hd => hq d (mem_cons_of_mem c hd), hpainted]

theorem Accepts.valid (hc : c ∈ calls) : c.Valid := by
  induction calls generalizing leaf with
  | nil => cases hc
  | cons d calls ih =>
    rcases mem_cons.mp hc with rfl | hc
    · exact h.1
    · exact ih h.2.2 hc

theorem Accepts.fits (hc : c ∈ calls) (hq : c.InFirst (c.size / 4096) q) : c.leaf q < 2 ^ 64 := by
  induction calls generalizing leaf with
  | nil => cases hc
  | cons d calls ih =>
    rcases mem_cons.mp hc with rfl | hc
    · exact (h.2.1 q hq).2
    · exact ih h.2.2 hc

end

def Mapping.Covers (c : Mapping) (va : ℕ) : Prop := c.va ≤ va ∧ va < c.va + c.size

theorem Mapping.Valid.covers_iff (h : c.Valid) {va : ℕ} :
    c.Covers va ↔ c.InFirst (c.size / 4096) (va / 4096) := by
  have hva := h.va
  have hsize := h.size
  unfold Mapping.Covers Mapping.InFirst
  omega

/-! ## Reading a leaf -/

/-- The bits of a descriptor outside the address and the type. -/
def pteAttrs : ℕ := 0xffff000000000ffc

/-- Attributes that leave the address and the type alone, for memory below 2^48. -/
structure Mapping.Plain (c : Mapping) : Prop where
  below : c.pa + c.size ≤ 2 ^ 48
  attrs : c.attrs &&& (pteAddrMask ||| 3) = 0

theorem attrs_and {attrs : ℕ} (h : attrs &&& (pteAddrMask ||| 3) = 0) :
    attrs &&& pteAddrMask = 0 ∧ attrs &&& 3 = 0 := by
  rwa [Nat.and_or_distrib_left, Nat.or_eq_zero_iff] at h

theorem and_attrs {x : ℕ} (halign : x % 4096 = 0) (hlt : x < 2 ^ 48) : x &&& pteAttrs = 0 := by
  rw [← and_addrMask halign hlt, Nat.and_assoc]
  exact Nat.and_zero x

theorem attrs_and_attrs {attrs : ℕ} (h : attrs &&& (pteAddrMask ||| 3) = 0) (hlt : attrs < 2 ^ 64) :
    attrs &&& pteAttrs = attrs := by
  have hall : attrs &&& ((pteAddrMask ||| 3) ||| pteAttrs) = attrs := by
    rw [show (pteAddrMask ||| 3) ||| pteAttrs = 2 ^ 64 - 1 by decide,
      Nat.and_two_pow_sub_one_eq_mod,
      Nat.mod_eq_of_lt hlt]
  rwa [Nat.and_or_distrib_left, h, Nat.zero_or] at hall

theorem Mapping.Plain.frame_lt (h : c.Plain) (hvalid : c.Valid) (hq : c.InFirst (c.size / 4096) q) :
    (c.pa + 4096 * (q - c.va / 4096)) % 4096 = 0 ∧ c.pa + 4096 * (q - c.va / 4096) < 2 ^ 48 := by
  have hbelow := h.below
  have hpa := hvalid.pa
  unfold Mapping.InFirst at hq
  omega

theorem Mapping.Plain.leaf_addr (h : c.Plain) (hvalid : c.Valid)
    (hq : c.InFirst (c.size / 4096) q) :
    c.leaf q &&& pteAddrMask = c.pa + 4096 * (q - c.va / 4096) := by
  obtain ⟨halign, hlt⟩ := h.frame_lt hvalid hq
  rw [Mapping.leaf, Bits.or_and_of_and_eq_zero (by decide),
    Bits.or_and_of_and_eq_zero (attrs_and h.attrs).1, and_addrMask halign hlt]

theorem Mapping.Plain.leaf_attrs (h : c.Plain) (hvalid : c.Valid) (hq : c.InFirst (c.size / 4096) q)
    (hfits : c.leaf q < 2 ^ 64) : c.leaf q &&& pteAttrs = c.attrs := by
  obtain ⟨halign, hlt⟩ := h.frame_lt hvalid hq
  have hattrs : c.attrs < 2 ^ 64 := by
    refine lt_of_le_of_lt ?_ hfits
    rw [Mapping.leaf, Nat.or_assoc, Nat.or_comm, Nat.or_assoc]
    exact Nat.left_le_or
  rw [Mapping.leaf, Bits.or_and_of_and_eq_zero (by decide), Nat.and_or_distrib_right,
    and_attrs halign hlt, Nat.zero_or, attrs_and_attrs h.attrs hattrs]

theorem or_offset {x va : ℕ} (halign : x % 4096 = 0) : x ||| va &&& 0xfff = x + va % 4096 := by
  rw [show (0xfff : ℕ) = 2 ^ 12 - 1 by decide, Nat.and_two_pow_sub_one_eq_mod]
  obtain ⟨y, rfl⟩ : ∃ y, x = 2 ^ 12 * y := ⟨x / 4096, by omega⟩
  exact (Nat.two_pow_add_eq_or_of_lt (Nat.mod_lt _ (by decide)) y).symm

/-- The GPU sees through `t` what `calls` mapped and nothing else, `t` stays in its pool, and
no call can map over another. -/
structure Exact (t : PageTables) (calls : List Mapping) : Prop where
  covered : ∀ memory, t.Placed memory → ∀ t0sz, t0sz = cbT0sz ∨ t0sz = cbT0szWide → ∀ cb va,
    ∀ c ∈ calls, c.Covers va → ∃ leaf,
      walk (readU64 memory) (ttbrFor t cb) va t0sz = some (c.pa + (va - c.va), leaf) ∧
        leaf &&& pteAttrs = c.attrs
  uncovered : ∀ memory, t.Placed memory → ∀ t0sz, t0sz = cbT0sz ∨ t0sz = cbT0szWide → ∀ cb va,
    (∀ c ∈ calls, ¬c.Covers va) → walk (readU64 memory) (ttbrFor t cb) va t0sz = none
  inside : ∀ p, (t.tables p).isSome →
    t.base + t.poolOffset ≤ p ∧ p + 4096 ≤ t.base + t.poolOffset + t.poolSize
  apart : ∀ p q, (t.tables p).isSome → (t.tables q).isSome → p ≠ q → p + 4096 ≤ q ∨ q + 4096 ≤ p
  refused : ∀ c c' va, c ∈ calls → c.Covers va → c'.Covers va → ∃ e, t.map c' = .error e

theorem Shows.exact (h : Shows t paths (calls.foldl painted fun _ => 0))
    (haccepts : Accepts (fun _ => 0) calls) (hplain : ∀ c ∈ calls, c.Plain) : Exact t calls where
  covered := by
    intro memory hmem t0sz ht cb va c hc hva
    have hvalid := haccepts.valid hc
    have hin := hvalid.covers_iff.mp hva
    obtain ⟨halign, -⟩ := (hplain c hc).frame_lt hvalid hin
    refine ⟨c.leaf (va / 4096), ?_, (hplain c hc).leaf_attrs hvalid hin (haccepts.fits hc hin)⟩
    rw [h.walk_eq hmem ht, haccepts.covered hc hin, if_pos (c.leaf_type _),
      (hplain c hc).leaf_addr hvalid hin, or_offset halign]
    have hcva := hvalid.va
    unfold Mapping.InFirst at hin
    congr 2
    omega
  uncovered := by
    intro memory hmem t0sz ht cb va hva
    have hzero : calls.foldl painted (fun _ => 0) (va / 4096) = 0 := by
      apply PageTables.uncovered
      intro c hc hin
      exact hva c hc ((haccepts.valid hc).covers_iff.mpr hin)
    rw [h.walk_eq hmem ht, hzero]
    rfl
  inside := by
    intro p hp
    obtain ⟨n, hn, rfl⟩ := (h.defined p).mp hp
    have hused := h.used
    have hroom := h.room
    unfold slot
    omega
  apart := by
    intro p q hp hq hne
    obtain ⟨n, -, rfl⟩ := (h.defined p).mp hp
    obtain ⟨m, -, rfl⟩ := (h.defined q).mp hq
    unfold slot at hne ⊢
    omega
  refused := by
    intro c c' va hc hva hva'
    cases hmap : t.map c' with
    | error e => exact ⟨e, rfl⟩
    | ok t' =>
      have hvalid := valid_of_map hmap
      rw [map_eq_mapPages hvalid] at hmap
      obtain ⟨hfree, -⟩ := h.of_mapPages hvalid.va hvalid.pages_le hmap
      have hzero := (hfree _ (hvalid.covers_iff.mp hva')).1
      rw [haccepts.covered hc ((haccepts.valid hc).covers_iff.mp hva)] at hzero
      exact absurd hzero (c.leaf_ne_zero _)

end PageTables

end Q1n1.Adreno
