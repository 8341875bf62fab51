import Q1n1.Verification.Adreno.Mapping

/-! # What the GPU reaches through CB0 -/

namespace Q1n1.Adreno

open PageTables List

/-- The calls share no virtual address. -/
def PageTables.Mapping.Apart (c d : Mapping) : Prop := c.va + c.size ≤ d.va ∨ d.va + d.size ≤ c.va

variable {calls : List Mapping}

theorem PageTables.accepts_of_apart {leaf : ℕ → ℕ} (hvalid : ∀ c ∈ calls, c.Valid)
    (hfree : ∀ c ∈ calls, c.Free leaf (c.size / 4096)) (hapart : calls.Pairwise Mapping.Apart) :
    Accepts leaf calls := by
  induction calls generalizing leaf with
  | nil => trivial
  | cons c calls ih =>
    obtain ⟨hc, hrest⟩ := pairwise_cons.mp hapart
    have hvc := hvalid c mem_cons_self
    refine ⟨hvc, hfree c mem_cons_self, ih (fun d hd => hvalid d (mem_cons_of_mem c hd)) ?_ hrest⟩
    intro d hd q hq
    have hvd := hvalid d (mem_cons_of_mem c hd)
    have hout : ¬c.InFirst (c.size / 4096) q := by
      have happart := hc d hd
      unfold Mapping.Apart at happart
      unfold Mapping.InFirst at hq ⊢
      omega
    obtain ⟨hzero, hfits⟩ := hfree d (mem_cons_of_mem c hd) q hq
    exact ⟨(if_neg hout).trans hzero, hfits⟩

variable {c : Mapping}

theorem PageTables.Mapping.Plain.free (h : c.Plain) (hvalid : c.Valid) (hattrs : c.attrs < 2 ^ 64) :
    c.Free (fun _ => 0) (c.size / 4096) := by
  intro q hq
  obtain ⟨-, hlt⟩ := h.frame_lt hvalid hq
  exact ⟨rfl, Nat.or_lt_two_pow (Nat.or_lt_two_pow (hlt.trans (by decide)) hattrs) (by decide)⟩

def FbSpan.mapping (span : FbSpan) : Mapping :=
  { va := span.va, pa := span.pa, size := span.size, attrs := unprivRw }

def arenaCalls (base : ℕ) : List Mapping := gpuMappings base ++ renderMappings base

def cb0Calls (base : ℕ) (fbSpan : Option FbSpan) : List Mapping :=
  arenaCalls base ++ (fbSpan.map FbSpan.mapping).toList

theorem PageTables.mapAll_append (t : PageTables) (a b : List Mapping) :
    t.mapAll (a ++ b) = t.mapAll a >>= fun t => t.mapAll b := by
  simp [mapAll]

theorem buildCb0Tables_eq (base : ℕ) (fbSpan : Option FbSpan) : buildCb0Tables base fbSpan =
      create base 0x80000 0x80000 >>= fun t => t.mapAll (cb0Calls base fbSpan) := by
  cases fbSpan with
  | none =>
    simp only [buildCb0Tables, buildTables, cb0Calls, arenaCalls, mapAll_append, bind_assoc]
    rfl
  | some span =>
    simp only [buildCb0Tables, buildTables, cb0Calls, arenaCalls, mapAll_append, bind_assoc]
    simp [mapAll, region, FbSpan.mapping]

/-! ## Room for the tables -/

/-- The tables that CB0's calls can take: the root, one table below it, and tables for two
ranges of 2 MiB blocks. -/
def cb0Paths : List (List ℕ) :=
  [[], [0]] ++ (List.range 9).map (fun j => [0, 128 + j]) ++ (List.range 64).map fun j =>
    [0, 256 + j]

/-- In the ranges that CB0's calls use. -/
def InWindow (c : Mapping) : Prop :=
  0x10000000 ≤ c.va ∧ c.va + c.size ≤ 0x11200000 ∨ 0x20000000 ≤ c.va ∧ c.va + c.size ≤ 0x28000000

theorem InWindow.within (h : InWindow c) (hvalid : c.Valid) :
    c.Within (c.size / 4096) cb0Paths := by
  intro q hq
  have hva := hvalid.va
  unfold InWindow at h
  unfold Mapping.InFirst at hq
  have htop : l1 q = 0 := by
    unfold l1
    omega
  rw [htop]
  refine ⟨by simp [cb0Paths], ?_⟩
  have hl2 : l2 q = q / 512 := by
    unfold l1 at htop
    unfold l2
    omega
  simp only [cb0Paths, mem_append, mem_map, mem_range]
  rcases h with h | h
  · refine .inl (.inr ⟨q / 512 - 128, by omega, ?_⟩)
    rw [hl2]
    simp
    omega
  · refine .inr ⟨q / 512 - 256, by omega, ?_⟩
    rw [hl2]
    simp
    omega

variable {base : ℕ}

/-- The pool holds every table that calls in the windows can take. -/
theorem build_shows (haligned : base % 4096 = 0) (hbelow : base + arenaSize ≤ 2 ^ 48)
    (hin : ∀ c ∈ calls, InWindow c) (haccepts : Accepts (fun _ => 0) calls) :
    ∃ t₀ t paths, create base 0x80000 0x80000 = .ok t₀ ∧ t₀.mapAll calls = .ok t ∧
      Shows t paths (calls.foldl painted fun _ => 0) := by
  cases hcreate : create base 0x80000 0x80000 with
  | error e => simp [create, alloc] at hcreate
  | ok t₀ =>
    obtain ⟨hs, hsize⟩ := create_shows (by omega) (by simp [arenaSize] at hbelow; omega) hcreate
    obtain ⟨t, paths, hok, hs'⟩ := hs.mapAll haccepts cb0Paths (by simp [cb0Paths])
      (by rw [hsize]; decide) fun c hc => (hin c hc).within (haccepts.valid hc)
    exact ⟨t₀, t, paths, rfl, hok, hs'⟩

/-- A call like those of `build_cb0_tables`. -/
structure Cb0Call (c : Mapping) : Prop where
  valid : c.Valid
  plain : c.Plain
  attrs : c.attrs < 2 ^ 64
  place : InWindow c

theorem accepts_cb0Calls (hcalls : ∀ c ∈ calls, Cb0Call c) (hapart : calls.Pairwise Mapping.Apart) :
    Accepts (fun _ => 0) calls :=
  accepts_of_apart (fun c hc => (hcalls c hc).valid)
    (fun c hc => (hcalls c hc).plain.free (hcalls c hc).valid (hcalls c hc).attrs) hapart

theorem build_exact (haligned : base % 4096 = 0) (hbelow : base + arenaSize ≤ 2 ^ 48)
    (hcalls : ∀ c ∈ calls, Cb0Call c) (hapart : calls.Pairwise Mapping.Apart) :
    ∃ t, (create base 0x80000 0x80000 >>= fun t => t.mapAll calls) = .ok t ∧ Exact t calls := by
  have haccepts := accepts_cb0Calls hcalls hapart
  obtain ⟨t₀, t, paths, hcreate, hok, hs⟩ :=
    build_shows haligned hbelow (fun c hc => (hcalls c hc).place) haccepts
  refine ⟨t, ?_, hs.exact haccepts fun c hc => (hcalls c hc).plain⟩
  rw [hcreate]
  exact hok

/-! ## The arena's part -/

/-- The regions that CB0 shows, each with its address and permission. -/
def windows : List (Region × ℕ × ℕ) :=
  cpBuffers ++ renderRegions.map fun r => (r.1, regionVa r.1, r.2)

theorem arenaCalls_eq (base : ℕ) :
    arenaCalls base = windows.map fun r => regionMapping base r.1 r.2.1 r.2.2 := by
  simp [arenaCalls, windows, gpuMappings, renderMappings]

theorem region_fits (name : Region) : (region name).1 % 4096 = 0 ∧ (region name).2 % 4096 = 0 ∧
      (region name).1 + (region name).2 ≤ arenaSize := by
  cases name <;> decide

theorem windows_fit : ∀ r ∈ windows,
    r.2.1 % 4096 = 0 ∧ 0x10000000 ≤ r.2.1 ∧ r.2.1 + (region r.1).2 ≤ 0x11200000 ∧
      r.2.2 < 2 ^ 64 ∧ r.2.2 &&& (pteAddrMask ||| 3) = 0 := by
  decide

theorem windows_apart : windows.Pairwise fun r s =>
    r.2.1 + (region r.1).2 ≤ s.2.1 ∨ s.2.1 + (region s.1).2 ≤ r.2.1 := by
  decide

theorem arenaCalls_call (haligned : base % 4096 = 0) (hbelow : base + arenaSize ≤ 2 ^ 48)
    (hc : c ∈ arenaCalls base) : Cb0Call c ∧ c.va + c.size ≤ 0x11200000 := by
  rw [arenaCalls_eq] at hc
  obtain ⟨r, hr, rfl⟩ := mem_map.mp hc
  obtain ⟨hva, hlow, hhigh, hattrs, hplain⟩ := windows_fit r hr
  obtain ⟨hoffset, hsize, harena⟩ := region_fits r.1
  refine ⟨⟨⟨hva, ?_, hsize, ?_⟩, ⟨?_, hplain⟩, hattrs, .inl ⟨hlow, hhigh⟩⟩, hhigh⟩
  · simp only [regionMapping]
    omega
  · simp only [regionMapping]
    omega
  · simp only [regionMapping]
    omega

theorem arenaCalls_apart (base : ℕ) : (arenaCalls base).Pairwise Mapping.Apart := by
  rw [arenaCalls_eq, pairwise_map]
  exact windows_apart

theorem pageDown_le (x : ℕ) : pageDown x ≤ x ∧ pageDown x % 4096 = 0 ∧ x < pageDown x + 4096 := by
  unfold pageDown
  omega

variable {fb : Framebuffer} {rect : Rect} {span : FbSpan}

/-- A span is whole pages of the framebuffer, from the page of the first row's first byte to
the page of the last row's last byte. -/
theorem fbWindowSpan_eq (h : fbWindowSpan fb rect = .ok span) :
    span.va = fbVa ∧ span.pa = pageDown (fb.base + rect.y * fb.pitch) ∧
      span.pa + span.size = pageDown (fb.base + (rect.y + rect.h) * fb.pitch + 0xfff) ∧
      span.size ≤ fbVaLimit ∧ span.pa + span.size ≤ fb.base + fb.size ∧ fb.base ≤ span.pa := by
  simp only [fbWindowSpan] at h
  split at h
  · cases h
  · rename_i hinside
    split at h
    · cases h
    · rename_i hlimit
      cases h
      have hle : fb.base + rect.y * fb.pitch ≤ fb.base + (rect.y + rect.h) * fb.pitch :=
        Nat.add_le_add_left (Nat.mul_le_mul_right _ (Nat.le_add_right _ _)) _
      have hfirst := pageDown_le (fb.base + rect.y * fb.pitch)
      have hlast := pageDown_le (fb.base + (rect.y + rect.h) * fb.pitch + 0xfff)
      have hsize := pageDown_le fb.size
      refine ⟨rfl, rfl, ?_, ?_, ?_, ?_⟩
      all_goals
        simp only
        omega

theorem FbSpan.mapping_call (h : fbWindowSpan fb rect = .ok span)
    (hbelow : fb.base + fb.size ≤ 2 ^ 48) : Cb0Call span.mapping := by
  obtain ⟨hva, hpa, hend, hlimit, hinside, -⟩ := fbWindowSpan_eq h
  have hfirst := pageDown_le (fb.base + rect.y * fb.pitch)
  have hlast := pageDown_le (fb.base + (rect.y + rect.h) * fb.pitch + 0xfff)
  simp only [fbVa, fbVaLimit] at hva hlimit
  refine ⟨⟨?_, ?_, ?_, ?_⟩, ⟨?_, (by decide : unprivRw &&& (pteAddrMask ||| 3) = 0)⟩,
    (by decide : unprivRw < 2 ^ 64), .inr ?_⟩
  all_goals
    simp only [FbSpan.mapping]
    omega

/-- A byte of a page that holds a byte of the rectangle's rows. -/
def RowPage (fb : Framebuffer) (rect : Rect) (pa : ℕ) : Prop :=
  ∃ b, fb.base + rect.y * fb.pitch ≤ b ∧ b < fb.base + (rect.y + rect.h) * fb.pitch ∧
    b / 4096 = pa / 4096

theorem rowPage_iff (h : fbWindowSpan fb rect = .ok span) (hrows : 0 < rect.h) {pa : ℕ} :
    RowPage fb rect pa ↔ span.pa ≤ pa ∧ pa < span.pa + span.size := by
  obtain ⟨-, hpa, hend, -, -, hbase⟩ := fbWindowSpan_eq h
  -- rows without bytes begin and end with the framebuffer, on a page's first byte
  have hsome : fb.base + rect.y * fb.pitch < fb.base + (rect.y + rect.h) * fb.pitch ∨
      fb.base + rect.y * fb.pitch = fb.base ∧ fb.base + (rect.y + rect.h) * fb.pitch = fb.base := by
    rcases Nat.eq_zero_or_pos fb.pitch with hzero | hpitch
    · simp [hzero]
    · rw [add_mul]
      have := Nat.mul_pos hrows hpitch
      omega
  unfold RowPage
  generalize fb.base + rect.y * fb.pitch = first at *
  generalize fb.base + (rect.y + rect.h) * fb.pitch = last at *
  unfold pageDown at hpa hend
  constructor
  · rintro ⟨b, hfirst, hlast, hpage⟩
    omega
  · intro hin
    by_cases hlow : pa < first
    · exact ⟨first, le_rfl, by omega, by omega⟩
    · by_cases hhigh : pa < last
      · exact ⟨pa, by omega, hhigh, rfl⟩
      · exact ⟨last - 1, by omega, by omega, by omega⟩

/-! ## What is reached -/

/-- What the GPU reaches through the tables, and with which attributes. -/
def Reaches (t : PageTables) (reached : (pa attrs : ℕ) → Prop) : Prop :=
  ∀ memory, t.Placed memory → ∀ t0sz, t0sz = cbT0sz ∨ t0sz = cbT0szWide → ∀ cb pa attrs,
    (∃ va leaf, walk (readU64 memory) (ttbrFor t cb) va t0sz = some (pa, leaf) ∧
      leaf &&& pteAttrs = attrs) ↔ reached pa attrs

theorem PageTables.Exact.reaches {t : PageTables} (h : Exact t calls) :
    Reaches t fun pa attrs => ∃ c ∈ calls, c.pa ≤ pa ∧ pa < c.pa + c.size ∧ c.attrs = attrs := by
  intro memory hmem t0sz ht cb pa attrs
  constructor
  · rintro ⟨va, leaf, hwalk, hattrs⟩
    by_cases hcovered : ∃ c ∈ calls, c.Covers va
    · obtain ⟨c, hc, hva⟩ := hcovered
      obtain ⟨leaf', hwalk', hattrs'⟩ := h.covered memory hmem t0sz ht cb va c hc hva
      rw [hwalk] at hwalk'
      simp only [Option.some.injEq, Prod.mk.injEq] at hwalk'
      obtain ⟨rfl, rfl⟩ := hwalk'
      unfold Mapping.Covers at hva
      exact ⟨c, hc, by omega, by omega, hattrs'.symm.trans hattrs⟩
    · rw [h.uncovered memory hmem t0sz ht cb va (by simpa using hcovered)] at hwalk
      cases hwalk
  · rintro ⟨c, hc, hlow, hhigh, rfl⟩
    have hva : c.Covers (c.va + (pa - c.pa)) := by
      unfold Mapping.Covers
      omega
    obtain ⟨leaf, hwalk, hattrs⟩ := h.covered memory hmem t0sz ht cb _ c hc hva
    refine ⟨c.va + (pa - c.pa), leaf, ?_, hattrs⟩
    rw [hwalk, show c.pa + (c.va + (pa - c.pa) - c.va) = pa by omega]

/-- The CP's buffers and the render regions, with their permissions. -/
def ArenaMemory (base pa attrs : ℕ) : Prop :=
  ∃ r ∈ cpBuffers.map (fun r => (r.1, r.2.2)) ++ renderRegions,
    base + (region r.1).1 ≤ pa ∧ pa < base + (region r.1).1 + (region r.1).2 ∧ r.2 = attrs

theorem arenaMemory_iff {pa attrs : ℕ} : ArenaMemory base pa attrs ↔
      ∃ c ∈ arenaCalls base, c.pa ≤ pa ∧ pa < c.pa + c.size ∧ c.attrs = attrs := by
  simp only [ArenaMemory, arenaCalls, gpuMappings, renderMappings, mem_append, mem_map]
  constructor
  · rintro ⟨r, hr, hlow, hhigh, rfl⟩
    rcases hr with ⟨s, hs, rfl⟩ | hr
    · exact ⟨_, .inl ⟨s, hs, rfl⟩, hlow, hhigh, rfl⟩
    · exact ⟨_, .inr ⟨r, hr, rfl⟩, hlow, hhigh, rfl⟩
  · rintro ⟨c, hc, hlow, hhigh, rfl⟩
    rcases hc with ⟨s, hs, rfl⟩ | ⟨r, hr, rfl⟩
    · exact ⟨_, .inl ⟨s, hs, rfl⟩, hlow, hhigh, rfl⟩
    · exact ⟨r, .inr hr, hlow, hhigh, rfl⟩

theorem buildCb0Tables_arena (haligned : base % 4096 = 0) (hbelow : base + arenaSize ≤ 2 ^ 48) :
    ∃ t, buildCb0Tables base none = .ok t ∧ Reaches t (ArenaMemory base) := by
  obtain ⟨t, hok, hexact⟩ := build_exact haligned hbelow
    (fun c hc => (arenaCalls_call haligned hbelow hc).1) (arenaCalls_apart base)
  refine ⟨t, ?_, ?_⟩
  · rw [buildCb0Tables_eq]
    simpa [cb0Calls] using hok
  · intro memory hmem t0sz ht cb pa attrs
    rw [hexact.reaches memory hmem t0sz ht cb, arenaMemory_iff]

theorem buildCb0Tables_framebuffer (haligned : base % 4096 = 0) (hbelow : base + arenaSize ≤ 2 ^ 48)
    (hspan : fbWindowSpan fb rect = .ok span) (hfb : fb.base + fb.size ≤ 2 ^ 48)
    (hrows : 0 < rect.h) :
    ∃ t, buildCb0Tables base (some span) = .ok t ∧ Reaches t fun pa attrs =>
        ArenaMemory base pa attrs ∨ RowPage fb rect pa ∧ attrs = unprivRw := by
  have hcalls : ∀ c ∈ cb0Calls base (some span), Cb0Call c := by
    intro c hc
    rcases mem_append.mp hc with hc | hc
    · exact (arenaCalls_call haligned hbelow hc).1
    · obtain rfl : c = span.mapping := by simpa using hc
      exact FbSpan.mapping_call hspan hfb
  have hapart : (cb0Calls base (some span)).Pairwise Mapping.Apart := by
    refine pairwise_append.mpr ⟨arenaCalls_apart base, by simp, ?_⟩
    intro c hc d hd
    obtain rfl : d = span.mapping := by simpa using hd
    have hhigh := (arenaCalls_call haligned hbelow hc).2
    have hva := (fbWindowSpan_eq hspan).1
    refine .inl ?_
    simp only [FbSpan.mapping, hva, fbVa]
    omega
  obtain ⟨t, hok, hexact⟩ := build_exact haligned hbelow hcalls hapart
  refine ⟨t, ?_, ?_⟩
  · rw [buildCb0Tables_eq]
    exact hok
  · intro memory hmem t0sz ht cb pa attrs
    refine (hexact.reaches memory hmem t0sz ht cb pa attrs).trans ?_
    simp only [arenaMemory_iff, rowPage_iff hspan hrows, cb0Calls, mem_append,
      or_and_right, exists_or]
    apply or_congr Iff.rfl
    simp [FbSpan.mapping, eq_comm, and_assoc]

/-- Tables in a page-aligned pool below 2^48 translate exactly what the calls they accepted
asked for, as long as each call's memory ends below 2^48; those of CB0 are always built, and
reach the arena's regions and the pages of the rectangle's rows. -/
theorem pageTables_exact : (∀ base poolOffset poolSize t₀ t calls, (base + poolOffset) % 4096 = 0 →
      base + poolOffset + poolSize ≤ 2 ^ 48 → create base poolOffset poolSize = .ok t₀ →
      t₀.mapAll calls = .ok t → (∀ c ∈ calls, c.Plain) → Exact t calls) ∧
    ∀ base, base % 4096 = 0 → base + arenaSize ≤ 2 ^ 48 →
      (∃ t, buildCb0Tables base none = .ok t ∧ Reaches t (ArenaMemory base)) ∧
      ∀ fb rect span, fbWindowSpan fb rect = .ok span → fb.base + fb.size ≤ 2 ^ 48 →
        0 < rect.h →
        ∃ t, buildCb0Tables base (some span) = .ok t ∧ Reaches t fun pa attrs =>
            ArenaMemory base pa attrs ∨ RowPage fb rect pa ∧ attrs = unprivRw := by
  constructor
  · intro base poolOffset poolSize t₀ t calls haligned hbelow hcreate hok hplain
    obtain ⟨hs₀, -⟩ := create_shows haligned hbelow hcreate
    obtain ⟨haccepts, paths, hs⟩ := hs₀.of_mapAll hok
    exact hs.exact haccepts hplain
  · intro base haligned hbelow
    refine ⟨buildCb0Tables_arena haligned hbelow, ?_⟩
    intro fb rect span hspan hfb hrows
    exact buildCb0Tables_framebuffer haligned hbelow hspan hfb hrows

def twoPages : Mapping := { va := 0x10000000, pa := 0x80200000, size := 8192, attrs := privRw }

theorem twoPages_call : Cb0Call twoPages :=
  ⟨⟨by decide, by decide, by decide, by decide⟩, ⟨by decide, by decide⟩, by decide,
    .inl (by decide)⟩

theorem build_one (hin : InWindow c) (haccepts : Accepts (fun _ => 0) [c]) :
    ∃ t₀ t paths, create 0x80000000 0x80000 0x80000 = .ok t₀ ∧ t₀.mapAll [c] = .ok t ∧
      Shows t paths ([c].foldl painted fun _ => 0) := by
  refine build_shows (by decide) (by decide) ?_ haccepts
  intro d hd
  rw [mem_singleton.mp hd]
  exact hin

theorem pageTables_exact_twoPages :
    (∃ t₀ t, create 0x80000000 0x80000 0x80000 = .ok t₀ ∧ t₀.mapAll [twoPages] = .ok t ∧
      Exact t [twoPages]) ∧
    ∃ span t, fbWindowSpan ⟨0x90000000, 0x1000000, 2560⟩ ⟨100, 10, 64, 20⟩ = .ok span ∧
      buildCb0Tables 0x80000000 (some span) = .ok t := by
  constructor
  · have haccepts : Accepts (fun _ => 0) [twoPages] :=
      accepts_cb0Calls (by simpa using twoPages_call) (by simp)
    obtain ⟨t₀, t, paths, hcreate, hok, -⟩ := build_one twoPages_call.place haccepts
    exact ⟨t₀, t, hcreate, hok, pageTables_exact.1 0x80000000 0x80000 0x80000 t₀ t [twoPages]
      (by decide) (by decide) hcreate hok (by simpa using twoPages_call.plain)⟩
  · have hspan : fbWindowSpan ⟨0x90000000, 0x1000000, 2560⟩ ⟨100, 10, 64, 20⟩ =
        .ok ⟨0x90006000, 0xd000, 0x20000000, 0x400⟩ := by decide
    obtain ⟨t, hok, -⟩ := (pageTables_exact.2 0x80000000 (by decide) (by decide)).2 _ _ _ hspan
      (by decide) (by decide)
    exact ⟨_, t, hspan, hok⟩

theorem PageTables.placed_store (t : PageTables) (memory : Memory) :
    t.Placed (memory.store (t.base + t.poolOffset) t.image) :=
  Memory.load_store_self memory _ _

def lastPages : Mapping := { twoPages with pa := 2 ^ 48 - 4096 }

theorem lastPages_accepts : Accepts (fun _ => 0) [lastPages] := by
  refine ⟨⟨by decide, by decide, by decide, by decide⟩, ?_, trivial⟩
  intro q hq
  refine ⟨rfl, Nat.or_lt_two_pow (Nat.or_lt_two_pow ?_ (by decide)) (by decide)⟩
  have hq : q < 0x10000 + 2 := hq.2
  have hva : lastPages.va / 4096 = 0x10000 := by decide
  have hpa : lastPages.pa = 2 ^ 48 - 4096 := rfl
  rw [hva, hpa]
  omega

/-- `map` takes a call that starts below 2^48 and ends past it, and its second page
translates to address 0. -/
theorem map_past_address_space :
    lastPages.pa < 2 ^ 48 ∧ lastPages.attrs &&& (pteAddrMask ||| 3) = 0 ∧
      lastPages.Covers 0x10001000 ∧ lastPages.pa + (0x10001000 - lastPages.va) = 2 ^ 48 ∧
      ∃ t₀ t memory, create 0x80000000 0x80000 0x80000 = .ok t₀ ∧ t₀.mapAll [lastPages] = .ok t ∧
        t.Placed memory ∧
        walk (readU64 memory) (ttbrFor t 0) 0x10001000 cbT0sz =
          some (0, 2 ^ 48 ||| privRw ||| pteTypePage) := by
  refine ⟨by decide, by decide, ⟨by decide, by decide⟩, by decide, ?_⟩
  obtain ⟨t₀, t, paths, hcreate, hok, hs⟩ := build_one (.inl (by decide)) lastPages_accepts
  have hleaf : [lastPages].foldl painted (fun _ => 0) (0x10001000 / 4096) =
      2 ^ 48 ||| privRw ||| pteTypePage := by decide
  refine ⟨t₀, t, _, hcreate, hok, t.placed_store fun _ => 0, ?_⟩
  rw [hs.walk_eq (t.placed_store _) (.inl rfl), hleaf]
  decide

end Q1n1.Adreno
