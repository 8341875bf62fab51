import Q1n1.Model.Nvme.Window
import Q1n1.Verification.Nvme.Confinement

/-! # Crash safety of the window updater

Wherever a run stops, the header on the disk says what the container holds. -/

namespace Q1n1.Window

open Cut List Memory
open Bytes (slices)

/-! ## Stores and overlays -/

variable {disk : Memory} {bs : List UInt8} {a off : ℕ}

theorem store_apply_of_outside (h : ¬(off ≤ a ∧ a < off + bs.length)) :
    disk.store off bs a = disk a := by
  rw [Memory.store, if_neg h]

variable {disk' : Memory}

theorem store_apply_congr (h : ¬(off ≤ a ∧ a < off + bs.length) → disk a = disk' a) :
    disk.store off bs a = disk'.store off bs a := by
  rw [Memory.store, Memory.store]
  split
  · rfl
  · exact h ‹_›

theorem applyOverlays_congr {overlays : List (ℕ × List UInt8)} (h : disk a = disk' a) :
    applyOverlays disk overlays a = applyOverlays disk' overlays a := by
  induction overlays generalizing disk disk' with
  | nil => exact h
  | cons o rest ih => exact ih (store_apply_congr fun _ => h)

theorem applyOverlays_of_outside {overlays : List (ℕ × List UInt8)}
    (h : ∀ o ∈ overlays, ¬(o.1 ≤ a ∧ a < o.1 + o.2.length)) :
    applyOverlays disk overlays a = disk a := by
  induction overlays generalizing disk with
  | nil => rfl
  | cons o rest ih =>
    obtain ⟨ho, hrest⟩ := forall_mem_cons.mp h
    exact (ih hrest).trans (store_apply_of_outside ho)

theorem store_append (disk : Memory) (off : ℕ) (xs ys : List UInt8) :
    (disk.store off xs).store (off + xs.length) ys = disk.store off (xs ++ ys) := by
  funext a
  simp only [Memory.store, length_append]
  by_cases hy : off + xs.length ≤ a ∧ a < off + xs.length + ys.length
  · rw [if_pos hy, if_pos (by omega), getD_append_right _ _ _ _ (by omega)]
    congr 1
    omega
  · rw [if_neg hy]
    by_cases hx : off ≤ a ∧ a < off + xs.length
    · rw [if_pos hx, if_pos (by omega), getD_append _ _ _ _ (by omega)]
    · rw [if_neg hx, if_neg (by omega)]

theorem load_apply {n : ℕ} (h : disk.load off n = disk'.load off n) (ha : off ≤ a ∧ a < off + n) :
    disk a = disk' a := by
  have hget := congrArg (fun l => l.getD (a - off) 0) h
  simpa [Memory.load, show a - off < n by omega, Nat.add_sub_cancel' ha.1] using hget

section

variable {D : Type} {f : Files D}

/-- What an accepted package promises about its parts. -/
structure Accepted (f : Files D) : Prop where
  headerBefore : f.headerBefore.length = headerBytes
  headerAfter : f.headerAfter.length = headerBytes
  packs : f.after.length = f.before.length
  extents : ∀ e ∈ f.manifest.extents, e.containerOffset + e.bytes ≤ f.manifest.containerBytes ∧
    e.packOffset + e.bytes ≤ f.before.length ∧ 0 < e.bytes ∧ e.containerOffset % 4096 = 0 ∧
    e.bytes % 4096 = 0

variable {data : List UInt8}

theorem slice_length {n : ℕ} (h : off + n ≤ data.length) : (slice data off n).length = n := by
  simp only [slice, length_take, length_drop]
  omega

theorem Accepted.overlays_inside (hf : Accepted f) (hdata : data.length = f.before.length) :
    ∀ o ∈ overlaysOf f data,
      containerAt f ≤ o.1 ∧ o.1 + o.2.length ≤ containerAt f + f.manifest.containerBytes := by
  intro o ho
  obtain ⟨e, he, rfl⟩ := mem_map.mp ho
  obtain ⟨hfit, hpack, -⟩ := hf.extents e he
  rw [slice_length (by omega)]
  exact ⟨Nat.le_add_right _ _, by omega⟩

variable [DecidableEq D] {sha256 : List UInt8 → D} {pin : D}

theorem checkExtents_spec {containerBytes packed end_ total : ℕ} {before after : List UInt8}
    {extents : List (Extent D)}
    (h : checkExtents sha256 containerBytes before after packed end_ extents = some total) :
    packed ≤ total ∧ ∀ e ∈ extents, e.containerOffset + e.bytes ≤ containerBytes ∧
      e.packOffset + e.bytes ≤ total ∧ 0 < e.bytes ∧ e.containerOffset % 4096 = 0 ∧
      e.bytes % 4096 = 0 := by
  induction extents generalizing packed end_ with
  | nil =>
    obtain rfl := Option.some.inj h
    simp
  | cons e rest ih =>
    rw [checkExtents] at h
    split at h
    · rename_i hcheck
      obtain ⟨-, hpos, hoff, hbytes, hfit, hpacked, -⟩ := hcheck
      obtain ⟨hle, hrest⟩ := ih h
      refine ⟨by omega, forall_mem_cons.mpr ⟨⟨hfit, by omega, hpos, hoff, hbytes⟩, hrest⟩⟩
    · cases h

theorem package_accepted (h : package sha256 pin f = true) : Accepted f := by
  simp only [package, decide_eq_true_eq] at h
  obtain ⟨-, -, -, -, hpacks, -, hheaders, hextents, -⟩ := h
  exact ⟨hheaders.1.trans hheaders.2.1, hheaders.2.1, hpacks.2.1.symm,
    (checkExtents_spec hextents).2⟩

end

/-! ## Operations

Contracts of the operations on a disk `d`: wherever they stop, the disk satisfies `I`. -/

section

variable {α : Type} {I : Memory → Prop} {P : Device → Prop} {d : Memory} {t : Target}

/-- From the disk `d`, and with `I` of the disk wherever it stops. -/
abbrev FromDisk (I : Memory → Prop) (d : Memory) (m : Op α) (Q : α → Device → Prop) : Prop :=
  Does (fun _ s => I s.disk) (·.disk = d) m Q

theorem does_require (condition : Bool) :
    Does (fun _ s => I s.disk) P (require condition) fun _ s => P s ∧ condition = true := by
  cases condition with
  | false => exact does_stop
  | true => exact does_pure fun s hs => ⟨hs, rfl⟩

theorem does_require_bind {condition : Bool} {y : Op α} {Q : α → Device → Prop}
    (hy : FromDisk I d y Q) : FromDisk I d (require condition >>= fun _ => y) Q :=
  ((does_require _).post fun _ _ hs => hs.1).bind fun _ => hy

theorem does_command {g : Memory → Memory} (h : I (g d)) :
    FromDisk I d (command g) fun _ s => s.disk = g d := by
  refine does_get_bind fun s hs => ?_
  cases hleft : s.left with
  | zero => exact does_stop
  | succ left =>
    refine does_modify ?_ ?_
    · rintro u rfl
      rwa [hs]
    · rintro u rfl
      rw [hs]

theorem nvRead_does (hd : I d) (lba count : ℕ) : FromDisk I d (nvRead t lba count) fun bs s =>
      s.disk = d ∧ bs = d.load (lba * t.lbaBytes) (count * t.lbaBytes) := by
  refine (does_require _).bind fun _ => ((does_command hd).pre fun s hs => hs.1).bind fun _ => ?_
  refine does_get_bind fun s hs => does_pure fun u hu => ?_
  rw [hu]
  exact ⟨hs, by rw [show s.disk = d from hs]⟩

theorem read_does (hd : I d) (absolute size : ℕ) : FromDisk I d (read t absolute size) fun bs s =>
      s.disk = d ∧ bs = d.load absolute size := by
  refine (does_require _).bind fun _ => does_of_forall fun s hs => ?_
  obtain ⟨hdisk, haligned⟩ := hs
  obtain ⟨habsolute, hsize⟩ := of_decide_eq_true haligned
  refine (nvRead_does hd _ _).weaken (fun u hu => hu ▸ hdisk) ?_
  rintro bs u ⟨hu, rfl⟩
  rw [Nat.div_mul_cancel (Nat.dvd_of_mod_eq_zero habsolute),
    Nat.div_mul_cancel (Nat.dvd_of_mod_eq_zero hsize)]
  exact ⟨hu, rfl⟩

theorem flush_does (hd : I d) : FromDisk I d flush fun _ s => s.disk = d := by
  refine does_get_bind fun s hs => (does_require _).bind fun _ => ?_
  refine (does_command hd).pre ?_
  rintro u ⟨rfl, -⟩
  exact hs

theorem setRanges_does (hd : I d) (ranges : List (ℕ × ℕ)) : FromDisk I d
      (Cut.modify fun s : Device => { s with writeRanges := ranges }) fun _ s => s.disk = d := by
  refine does_modify ?_ fun _ hs => hs
  intro s hs
  rwa [hs]

theorem enableWrites_does (hd : I d) (ranges : List (ℕ × ℕ)) :
    FromDisk I d (enableWrites t ranges) fun _ s => s.disk = d := by
  refine does_require_bind ?_
  split
  · exact does_stop
  · exact setRanges_does hd _

/-! ### Writes -/

/-- Every piece of a write takes whole blocks. -/
def WholeBlocks (t : Target) (ps : List (List UInt8)) : Prop := ∀ p ∈ ps, t.lbaBytes ∣ p.length

theorem writeBlocks_does {lba : ℕ} {ps : List (List UInt8)} (hps : WholeBlocks t ps)
    (hfree : ∀ d', (∀ a, ¬(lba * t.lbaBytes ≤ a ∧ a < lba * t.lbaBytes + ps.flatten.length) →
      d' a = d a) → I d') :
    FromDisk I d (writeBlocks t lba ps) fun _ s =>
      s.disk = d.store (lba * t.lbaBytes) ps.flatten := by
  induction ps generalizing lba d with
  | nil => exact does_pure fun s hs => by simpa using hs
  | cons p rest ih =>
    obtain ⟨hp, hrest⟩ := forall_mem_cons.mp hps
    have hnext : (lba + p.length / t.lbaBytes) * t.lbaBytes = lba * t.lbaBytes + p.length := by
      rw [add_mul, Nat.div_mul_cancel hp]
    simp only [flatten_cons, length_append] at hfree ⊢
    refine (does_command (hfree _ fun a ha => ?_)).bind fun _ => ?_
    · exact store_apply_of_outside (by omega)
    · refine (ih hrest fun d' hd' => hfree d' fun a ha => ?_).post fun _ s hs => ?_
      · rw [hd' a (by rw [hnext]; omega), store_apply_of_outside (by omega)]
      · rw [hs, hnext, store_append]

theorem Target.page_le (t : Target) : 4096 ≤ t.maxTransfer := by
  obtain ⟨k, hk, htransfer⟩ := t.transfer
  rw [htransfer]
  exact Nat.pow_le_pow_right (n := 2) (by decide) hk

section

variable (ht : t.lbaBytes = 512 ∨ t.lbaBytes = 4096)
include ht

theorem slices_whole (hdata : t.lbaBytes ∣ data.length) :
    WholeBlocks t (slices (min t.maxTransfer (65536 * t.lbaBytes)) data) := by
  have hpage := t.page_le
  refine Nvme.slices_dvd ?_ ?_ (by omega) hdata
  · rcases ht with h | h
    · exact ⟨9, h⟩
    · exact ⟨12, h⟩
  · obtain ⟨k, -, h⟩ := t.transfer
    exact ⟨k, h⟩

omit ht in
theorem slices_single {per : ℕ} (hne : data ≠ []) (hle : data.length ≤ per) :
    slices per data = [data] := by
  have hpos : 0 < data.length := length_pos_of_ne_nil hne
  have hcount : (data.length + per - 1) / per = 1 := by
    rw [Nat.div_eq_iff (by omega)]
    omega
  rw [slices, hcount]
  simp [take_of_length_le hle]

theorem write_page_does {absolute : ℕ} (hlength : data.length ≤ 4096)
    (h : I (d.store absolute data)) :
    FromDisk I d (write t absolute data) fun _ s =>
      s.disk = d.store absolute data := by
  refine (does_require _).bind fun _ => (does_require _).bind fun _ => does_get_bind fun s hs => ?_
  obtain ⟨⟨hdisk, haligned⟩, hdata⟩ := hs
  obtain ⟨hne, -⟩ := of_decide_eq_true hdata
  have habsolute : absolute / t.lbaBytes * t.lbaBytes = absolute :=
    Nat.div_mul_cancel (Nat.dvd_of_mod_eq_zero (of_decide_eq_true haligned))
  have hpage := t.page_le
  rw [slices_single hne (by omega)]
  refine (does_require _).bind fun _ => Does.bind ?_ fun _ => does_skip
  rw [habsolute]
  refine (does_command h).pre ?_
  rintro u ⟨rfl, -⟩
  exact hdisk

theorem write_does {absolute : ℕ}
    (hfree : ∀ d', (∀ a, ¬(absolute ≤ a ∧ a < absolute + data.length) → d' a = d a) → I d') :
    FromDisk I d (write t absolute data) fun _ s =>
      s.disk = d.store absolute data := by
  refine (does_require _).bind fun _ => (does_require _).bind fun _ => does_get_bind fun s hs => ?_
  obtain ⟨⟨hdisk, haligned⟩, hdata⟩ := hs
  obtain ⟨-, hdvd⟩ := of_decide_eq_true hdata
  have habsolute : absolute / t.lbaBytes * t.lbaBytes = absolute :=
    Nat.div_mul_cancel (Nat.dvd_of_mod_eq_zero (of_decide_eq_true haligned))
  have hpage := t.page_le
  have hflatten := Bytes.slices_flatten (min t.maxTransfer (65536 * t.lbaBytes)) (by omega) data
  have hwhole := slices_whole ht (Nat.dvd_of_mod_eq_zero hdvd)
  refine (does_require _).bind fun _ => ?_
  refine (writeBlocks_does (d := d) hwhole ?_).weaken ?_ ?_
  · rw [habsolute, hflatten]
    exact hfree
  · rintro u ⟨rfl, -⟩
    exact hdisk
  · intro _ u hu
    rw [hu, habsolute, hflatten]

end

end

/-! ## The disk of a run -/

section

variable {D : Type} {f : Files D} {d d₀ : Memory}

def header (f : Files D) (d : Memory) : List UInt8 := d.load (headerAt f) headerBytes

def container (f : Files D) (d : Memory) : List UInt8 :=
  d.load (containerAt f) f.manifest.containerBytes

def InHeader (f : Files D) (a : ℕ) : Prop := headerAt f ≤ a ∧ a < headerAt f + headerBytes

def InContainer (f : Files D) (a : ℕ) : Prop :=
  containerAt f ≤ a ∧ a < containerAt f + f.manifest.containerBytes

def invalidHeader : List UInt8 := List.replicate headerBytes 0

def afterContents (f : Files D) (d₀ : Memory) : List UInt8 :=
  container f (applyOverlays d₀ (overlaysOf f f.after))

def published (f : Files D) (d₀ : Memory) : Memory :=
  (applyOverlays d₀ (overlaysOf f f.after)).store (headerAt f) f.headerAfter

def Apart (f : Files D) : Prop := headerAt f + headerBytes ≤ containerAt f

/-- What the disk may be at any time: unchanged outside the header and the container, and as
before, as published, or with an invalid header. -/
structure Consistent (sha256 : List UInt8 → D) (f : Files D) (d₀ d : Memory) : Prop where
  frame : ∀ a, ¬InHeader f a → ¬InContainer f a → d a = d₀ a
  state : d = d₀ ∨ (d = published f d₀ ∧ Apart f ∧
    sha256 (container f d) = f.manifest.containerAfter) ∨ header f d = invalidHeader

theorem length_invalidHeader : invalidHeader.length = headerBytes := length_replicate

theorem header_store (hlength : bs.length = headerBytes) :
    header f (d.store (headerAt f) bs) = bs := by
  rw [header, ← hlength]
  exact d.load_store_self (headerAt f) bs

/-- The header and the container do not see writes to the other. -/
theorem Apart.container_store (h : Apart f) (hlength : bs.length = headerBytes) :
    container f (d.store (headerAt f) bs) = container f d := by
  apply load_store_of_disjoint
  right
  rw [hlength]
  exact h

theorem Apart.header_congr (h : Apart f) {d' : Memory}
    (hd : ∀ a, ¬InContainer f a → d' a = d a) : header f d' = header f d := by
  apply load_congr
  intro a _ hhigh
  apply hd
  rintro ⟨hlow, -⟩
  rw [Apart] at h
  omega

theorem Accepted.frame_overlays (hf : Accepted f) (hdata : data.length = f.before.length)
    (ha : ¬InContainer f a) :
    applyOverlays d (overlaysOf f data) a = d a := by
  apply applyOverlays_of_outside
  intro o ho hin
  obtain ⟨hlow, hhigh⟩ := hf.overlays_inside hdata o ho
  exact ha ⟨by omega, by omega⟩

theorem store_header_of_outside (hlength : bs.length = headerBytes) (ha : ¬InHeader f a) :
    d.store (headerAt f) bs a = d a :=
  store_apply_of_outside (by rw [hlength]; exact ha)

theorem store_header_congr {d' : Memory} (hlength : bs.length = headerBytes)
    (h : ∀ a, ¬InHeader f a → d a = d' a) : d.store (headerAt f) bs = d'.store (headerAt f) bs := by
  funext a
  apply store_apply_congr
  rw [hlength]
  exact h a

theorem store_header_self (hlength : f.headerBefore.length = headerBytes)
    (hheader : header f d₀ = f.headerBefore) : d₀.store (headerAt f) f.headerBefore = d₀ := by
  funext a
  by_cases ha : InHeader f a
  · refine load_apply (n := headerBytes) ?_ ha
    exact (header_store (f := f) hlength).trans hheader.symm
  · exact store_header_of_outside hlength ha

/-! ## The steps of an update -/

variable {sha256 : List UInt8 → D}

/-- The headers tell the states apart. -/
structure Distinct (f : Files D) : Prop where
  before_after : f.headerBefore ≠ f.headerAfter
  before_invalid : f.headerBefore ≠ invalidHeader
  after_invalid : f.headerAfter ≠ invalidHeader

/-- The disk is in the before state of the package. -/
structure MatchesBefore (sha256 : List UInt8 → D) (f : Files D) (d₀ : Memory) : Prop where
  header : header f d₀ = f.headerBefore
  container : sha256 (container f d₀) = f.manifest.containerBefore

theorem Consistent.refl : Consistent sha256 f d₀ d₀ := ⟨fun _ _ _ => rfl, .inl rfl⟩

theorem header_published (hf : Accepted f) : header f (published f d₀) = f.headerAfter :=
  header_store hf.headerAfter

theorem Consistent.eq_of_before (hf : Accepted f) (hdistinct : Distinct f)
    (hd : Consistent sha256 f d₀ d) (hheader : header f d = f.headerBefore) : d = d₀ := by
  rcases hd.state with h | ⟨rfl, -⟩ | h
  · exact h
  · exact absurd (hheader.symm.trans (header_published hf)) hdistinct.before_after
  · exact absurd (hheader.symm.trans h) hdistinct.before_invalid

theorem Consistent.invalidate (hd : Consistent sha256 f d₀ d) :
    Consistent sha256 f d₀ (d.store (headerAt f) invalidHeader) := by
  refine ⟨fun a hheader hcontainer => ?_, .inr (.inr (header_store length_invalidHeader))⟩
  rw [store_header_of_outside length_invalidHeader hheader]
  exact hd.frame a hheader hcontainer

theorem Consistent.of_invalid {d' : Memory} (hd : Consistent sha256 f d₀ d) (hapart : Apart f)
    (hheader : header f d = invalidHeader) (h : ∀ a, ¬InContainer f a → d' a = d a) :
    Consistent sha256 f d₀ d' := by
  refine ⟨fun a hh hc => (h a hc).trans (hd.frame a hh hc), .inr (.inr ?_)⟩
  rw [hapart.header_congr h, hheader]

theorem Consistent.publish (hf : Accepted f) (hapart : Apart f) (hd : d = (applyOverlays
      (d₀.store (headerAt f) invalidHeader) (overlaysOf f f.after)))
    (hsha : sha256 (container f d) = f.manifest.containerAfter) :
    Consistent sha256 f d₀ (d.store (headerAt f) f.headerAfter) := by
  have hsame : d.store (headerAt f) f.headerAfter = published f d₀ := by
    rw [hd]
    refine store_header_congr hf.headerAfter fun a ha => applyOverlays_congr ?_
    exact store_header_of_outside length_invalidHeader ha
  refine ⟨fun a hheader hcontainer => ?_, .inr (.inl ⟨hsame, hapart, ?_⟩)⟩
  · rw [hsame, published, store_header_of_outside hf.headerAfter hheader,
      hf.frame_overlays hf.packs hcontainer]
  · rw [hapart.container_store hf.headerAfter, hsha]

theorem restored_eq (hf : Accepted f) (hmatch : header f d₀ = f.headerBefore)
    (hframe : ∀ a, ¬InHeader f a → ¬InContainer f a → d a = d₀ a)
    (hcontainer : container f (applyOverlays d (overlaysOf f f.before)) = container f d₀) :
    (applyOverlays (d.store (headerAt f) invalidHeader) (overlaysOf f f.before)).store (headerAt f)
      f.headerBefore = d₀ := by
  rw [← store_header_self hf.headerBefore hmatch]
  refine store_header_congr hf.headerBefore fun a ha => ?_
  have hoverlay : applyOverlays (d.store (headerAt f) invalidHeader) (overlaysOf f f.before) a =
      applyOverlays d (overlaysOf f f.before) a :=
    applyOverlays_congr (store_header_of_outside length_invalidHeader ha)
  rw [hoverlay]
  by_cases hc : InContainer f a
  · exact load_apply hcontainer hc
  · rw [hf.frame_overlays rfl hc, hframe a ha hc]

/-! ## Runs -/

variable {t : Target} {I : Memory → Prop}

theorem nativeHash_does (hd : I d) (lba count : ℕ) (overlays : List (ℕ × List UInt8)) :
    FromDisk I d (nativeHash sha256 t lba count overlays) fun v s =>
      s.disk = d ∧
        v = sha256 ((applyOverlays d overlays).load (lba * t.lbaBytes) (count * t.lbaBytes)) := by
  refine does_require_bind ?_
  refine does_require_bind ?_
  refine does_require_bind ?_
  refine (does_command hd).bind fun _ => does_get_bind fun s hs => does_pure fun u hu => ?_
  rw [hu]
  exact ⟨hs, by rw [show s.disk = d from hs]⟩

theorem hashRange_does (hd : I d) (absolute size : ℕ) (overlays : List (ℕ × List UInt8)) :
    FromDisk I d (hashRange sha256 t absolute size overlays) fun v s =>
      s.disk = d ∧ v = sha256 ((applyOverlays d overlays).load absolute size) := by
  refine (does_require _).bind fun _ => does_of_forall fun s hs => ?_
  obtain ⟨hdisk, haligned⟩ := hs
  obtain ⟨habsolute, hsize⟩ := of_decide_eq_true haligned
  refine (nativeHash_does hd _ _ _).weaken (fun u hu => hu ▸ hdisk) ?_
  rintro v u ⟨hu, rfl⟩
  rw [Nat.div_mul_cancel (Nat.dvd_of_mod_eq_zero habsolute),
    Nat.div_mul_cancel (Nat.dvd_of_mod_eq_zero hsize)]
  exact ⟨hu, rfl⟩

theorem does_check_bind {α β : Type} {x : Op α} {R : α → Prop} {c : α → Bool} {y : Op β}
    {Q : β → Device → Prop} (hx : FromDisk I d x fun a s => s.disk = d ∧ R a)
    (hy : ∀ a, R a → c a = true → FromDisk I d y Q) :
    FromDisk I d (x >>= fun a => require (c a) >>= fun _ => y) Q := by
  refine hx.bind fun a => (does_require _).bind fun _ => does_of_forall ?_
  rintro s ⟨⟨hs, ha⟩, hc⟩
  exact (hy a ha hc).pre fun u hu => hu ▸ hs

theorem edges_does (hd : I d) (regions : List (ℕ × ℕ)) :
    FromDisk I d (edges sha256 t regions) fun _ s => s.disk = d := by
  induction regions with
  | nil => exact does_skip
  | cons region rest ih =>
    refine ((read_does hd _ _).post fun _ _ hs => hs.1).bind fun bytes => ?_
    exact ih.bind fun _ => does_skip

/-- What is known of the target and the layout once the partition is found. -/
structure Found (t : Target) (f : Files D) : Prop where
  lbaBytes : t.lbaBytes = 512 ∨ t.lbaBytes = 4096
  apart : Apart f

theorem locate_does (hd : I d) : FromDisk I d (locate t f) fun _ s => s.disk = d ∧ Found t f := by
  refine (does_require _).bind fun _ => does_of_forall fun s hs => ?_
  obtain ⟨hdisk, hblock⟩ := hs
  obtain ⟨hblock, -⟩ := of_decide_eq_true hblock
  refine ((does_require _).weaken (P := (·.disk = d)) ?_ fun _ _ hs => hs.1).bind fun _ => ?_
  · exact fun u hu => hu ▸ hdisk
  refine (does_command hd).bind fun _ => does_get_bind fun u hu => ?_
  refine (does_require _).bind fun _ => (does_require _).bind fun _ => ?_
  split
  · refine (does_require _).bind fun _ => (does_require _).bind fun _ => ?_
    split
    · refine (does_require _).bind fun _ => does_pure ?_
      rintro v ⟨⟨⟨⟨⟨rfl, -⟩, -⟩, -⟩, hlayout⟩, -⟩
      obtain ⟨hheader, hcontainer, -⟩ := of_decide_eq_true hlayout
      refine ⟨hu, hblock, ?_⟩
      rw [Apart, headerAt, containerAt, hheader, hcontainer, headerBytes]
      omega
    · exact does_stop
  · exact does_stop

theorem writeExtents_does {extents : List (Extent D)} (ht : t.lbaBytes = 512 ∨ t.lbaBytes = 4096)
    (hinside : ∀ e ∈ extents, e.containerOffset + e.bytes ≤ f.manifest.containerBytes ∧
      e.packOffset + e.bytes ≤ data.length)
    (hfree : ∀ d', (∀ a, ¬InContainer f a → d' a = d a) → I d') :
    FromDisk I d (writeExtents t f data extents) fun _ s =>
      s.disk = applyOverlays d (extents.map fun e =>
        (containerAt f + e.containerOffset, slice data e.packOffset e.bytes)) := by
  induction extents generalizing d with
  | nil => exact does_skip
  | cons e rest ih =>
    obtain ⟨⟨hfit, hpack⟩, hrest⟩ := forall_mem_cons.mp hinside
    have hlength := slice_length hpack
    have houtside : ∀ a, ¬InContainer f a → ¬(containerAt f + e.containerOffset ≤ a ∧
        a < containerAt f + e.containerOffset + (slice data e.packOffset e.bytes).length) := by
      rintro a ha ⟨hlow, hhigh⟩
      exact ha ⟨by omega, by omega⟩
    refine (write_does ht fun d' hd' => hfree d' fun a ha => hd' a (houtside a ha)).bind
      fun _ => ?_
    have hfree' : ∀ d', (∀ a, ¬InContainer f a → d' a =
        d.store (containerAt f + e.containerOffset) (slice data e.packOffset e.bytes)
          a) → I d' := by
      intro d' hd'
      refine hfree d' fun a ha => (hd' a ha).trans (store_apply_of_outside (houtside a ha))
    have hwritten := hfree' _ fun _ _ => rfl
    refine ((read_does hwritten _ _).post fun _ _ hs => hs.1).bind fun _ => ?_
    refine does_require_bind ?_
    exact ih hrest hfree'

variable [DecidableEq D]

theorem checkIsc_does (hd : I d) : FromDisk I d (checkIsc sha256 t f) fun _ s => s.disk = d := by
  refine ((hashRange_does hd _ _ _).post fun _ _ hs => hs.1).bind fun _ => ?_
  refine does_require_bind ?_
  refine does_require_bind ?_
  refine ((hashRange_does hd _ _ _).post fun _ _ hs => hs.1).bind fun _ => ?_
  exact (does_require _).post fun _ _ hs => hs.1

theorem update_does {mode : Mode} {regions : List (ℕ × ℕ)} {originalEdges : List D}
    (hf : Accepted f) (hfound : Found t f) (hmode : mode ≠ .check) (hd : Consistent sha256 f d₀ d)
    (happly : mode = .apply → d = d₀) (hrestore : mode = .restore → header f d₀ = f.headerBefore ∧
      container f (applyOverlays d (overlaysOf f f.before)) = container f d₀) :
    FromDisk (Consistent sha256 f d₀) d
      (update sha256 t f mode regions originalEdges) fun _ s =>
        Consistent sha256 f d₀ s.disk ∧ (mode = .restore → s.disk = d₀) := by
  have hinvalid := hd.invalidate
  have hzero : header f (d.store (headerAt f) invalidHeader) = invalidHeader :=
    header_store length_invalidHeader
  obtain ⟨data, wanted, newHeader, hgoal, hdata, hnew, hdone⟩ :
      ∃ data wanted newHeader, goal f mode = (data, wanted, newHeader) ∧
        data.length = f.before.length ∧ newHeader.length = headerBytes ∧
        let e := applyOverlays (d.store (headerAt f) invalidHeader) (overlaysOf f data)
        sha256 (container f e) = wanted → Consistent sha256 f d₀ (e.store (headerAt f) newHeader) ∧
          (mode = .restore → e.store (headerAt f) newHeader = d₀) := by
    cases mode with
    | check => exact absurd rfl hmode
    | apply =>
      refine ⟨_, _, _, rfl, hf.packs, hf.headerAfter, fun hsha => ⟨?_, by simp⟩⟩
      exact Consistent.publish hf hfound.apart (by rw [happly rfl]) hsha
    | restore =>
      obtain ⟨hmatch, hcontainer⟩ := hrestore rfl
      have hback := restored_eq hf hmatch hd.frame hcontainer
      refine ⟨_, _, _, rfl, rfl, hf.headerBefore, fun _ => ⟨?_, fun _ => hback⟩⟩
      rw [hback]
      exact ⟨fun _ _ _ => rfl, .inl rfl⟩
  rw [update, hgoal]
  refine (enableWrites_does hd _).bind fun _ => ?_
  refine (write_page_does hfound.lbaBytes length_invalidHeader.le hinvalid).bind fun _ => ?_
  refine (flush_does hinvalid).bind fun _ =>
    does_check_bind (read_does hinvalid _ _) fun _ _ _ => ?_
  have hfree : ∀ d', (∀ a, ¬InContainer f a → d' a = d.store (headerAt f) invalidHeader a) →
      Consistent sha256 f d₀ d' := fun d' hd' => hinvalid.of_invalid hfound.apart hzero hd'
  refine (writeExtents_does hfound.lbaBytes (fun e he => ?_) hfree).bind fun _ => ?_
  · obtain ⟨hfit, hpack, -⟩ := hf.extents e he
    exact ⟨hfit, by omega⟩
  have hwritten := hfree (applyOverlays (d.store (headerAt f) invalidHeader) (overlaysOf f data))
    fun a ha => hf.frame_overlays hdata ha
  refine (flush_does hwritten).bind fun _ => ?_
  refine does_check_bind (hashRange_does hwritten _ _ []) fun _ hvalue hwanted => ?_
  obtain ⟨hfinal, hback⟩ := hdone (hvalue.symm.trans (of_decide_eq_true hwanted))
  refine (checkIsc_does hwritten).bind fun _ => ?_
  refine does_check_bind (R := fun _ => True) ?_ fun _ _ _ => ?_
  · exact (edges_does hwritten _).post fun _ _ hs => ⟨hs, trivial⟩
  refine (write_page_does hfound.lbaBytes hnew.le hfinal).bind fun _ => ?_
  refine (flush_does hfinal).bind fun _ => (read_does hfinal _ _).bind fun _ => ?_
  refine (does_require _).post ?_
  rintro _ s ⟨⟨hs, -⟩, -⟩
  rw [hs]
  exact ⟨hfinal, hback⟩

theorem updateIn_does {mode : Mode} {regions : List (ℕ × ℕ)} {originalEdges : List D}
    (hf : Accepted f) (hfound : Found t f) (hd : Consistent sha256 f d₀ d)
    (happly : mode = .apply → d = d₀) (hrestore : mode = .restore → header f d₀ = f.headerBefore ∧
      container f (applyOverlays d (overlaysOf f f.before)) = container f d₀) :
    FromDisk (Consistent sha256 f d₀) d
      (updateIn sha256 t f regions originalEdges mode) fun _ s =>
        Consistent sha256 f d₀ s.disk ∧ (mode = .restore → s.disk = d₀) := by
  cases mode with
  | check =>
    refine does_pure fun s hs => ?_
    rw [hs]
    exact ⟨hd, by simp⟩
  | apply => exact update_does hf hfound (by decide) hd happly hrestore
  | restore => exact update_does hf hfound (by decide) hd happly hrestore

section

variable (hf : Accepted f) (hdistinct : Distinct f) (hsha : Function.Injective sha256)
  (hmatch : MatchesBefore sha256 f d₀)

include hf hdistinct hsha hmatch

theorem run_does {mode : Mode} (hd : Consistent sha256 f d₀ d) :
    FromDisk (Consistent sha256 f d₀) d (run sha256 t f mode) fun _ s =>
      Consistent sha256 f d₀ s.disk ∧ (mode = .restore → s.disk = d₀) := by
  refine (locate_does hd).bind fun regions => does_of_forall fun s hs => ?_
  obtain ⟨hdisk, hfound⟩ := hs
  refine Does.bind ((edges_does hd regions).pre fun u hu => hu ▸ hdisk) fun originalEdges => ?_
  refine does_check_bind (read_does hd _ _) fun _ hread haccepted => ?_
  refine ((read_does hd _ _).post fun _ _ hs => hs.1).bind fun sample => ?_
  refine does_check_bind (nativeHash_does hd _ _ _) fun _ _ _ => ?_
  refine (checkIsc_does hd).bind fun _ => ?_
  refine does_check_bind (hashRange_does hd _ _ _) fun _ hvalue hbefore => ?_
  have hcontainer := hvalue.symm.trans ((of_decide_eq_true hbefore).trans hmatch.container.symm)
  refine (updateIn_does hf hfound hd ?_ ?_).bind fun _ => ?_
  · rintro rfl
    refine hd.eq_of_before hf hdistinct ?_
    have := of_decide_eq_true haccepted
    rw [hread] at this
    exact mem_singleton.mp this
  · rintro rfl
    exact ⟨hmatch.header, hsha hcontainer⟩
  refine does_of_forall fun u hu => ?_
  refine ((setRanges_does hu.1 []).pre fun v hv => by rw [hv]).bind fun _ => ?_
  refine (edges_does hu.1 _).bind fun _ => (does_require _).post ?_
  rintro _ v ⟨hv, -⟩
  rw [hv]
  exact hu

/-! ## Interrupted runs -/

/-- A run against a target that stops after so many device commands, unless it ends before. -/
structure Attempt where
  target : Target
  mode : Mode
  commands : ℕ

def Attempt.result (sha256 : List UInt8 → D) (f : Files D) (a : Attempt) (d : Memory) :
    Bool × Memory :=
  let r := run sha256 a.target f a.mode ⟨d, a.commands, []⟩
  (r.1.isSome, r.2.disk)

def afterAttempts (sha256 : List UInt8 → D) (f : Files D) (d : Memory) (attempts : List Attempt) :
    Memory :=
  attempts.foldl (fun d a => (a.result sha256 f d).2) d

theorem Attempt.result_consistent (hd : Consistent sha256 f d₀ d) (a : Attempt) :
    Consistent sha256 f d₀ (a.result sha256 f d).2 ∧
      (a.mode = .restore → (a.result sha256 f d).1 = true → (a.result sha256 f d).2 = d₀) := by
  have hrun : FromDisk (Consistent sha256 f d₀) d (run sha256 a.target f a.mode) fun _ s =>
        Consistent sha256 f d₀ s.disk ∧ (a.mode = .restore → s.disk = d₀) :=
    run_does hf hdistinct hsha hmatch hd
  obtain ⟨hsteps, hdone⟩ := hrun ⟨d, a.commands, []⟩ rfl
  refine ⟨steps_keep (I := fun s : Device => Consistent sha256 f d₀ s.disk) (fun _ _ h _ => h)
    hsteps hd, ?_⟩
  intro hmode hresult
  obtain ⟨u, hu⟩ := Option.isSome_iff_exists.mp hresult
  exact (hdone u hu).2 hmode

theorem afterAttempts_consistent (hd : Consistent sha256 f d₀ d) (attempts : List Attempt) :
    Consistent sha256 f d₀ (afterAttempts sha256 f d attempts) := by
  induction attempts generalizing d with
  | nil => exact hd
  | cons a rest ih => exact ih (a.result_consistent hf hdistinct hsha hmatch hd).1

end

/-- Whatever attempts were made and wherever they stopped, the header tells what the container
holds, and a restore that runs to completion brings back every byte of the disk. -/
theorem afterAttempts_crashSafe {pin : D} (hpackage : package sha256 pin f = true)
    (hdistinct : Distinct f) (hsha : Function.Injective sha256)
    (hmatch : MatchesBefore sha256 f d₀) (attempts : List Attempt) :
    let d := afterAttempts sha256 f d₀ attempts
    (header f d = f.headerBefore → container f d = container f d₀) ∧
    (header f d = f.headerAfter → container f d = afterContents f d₀ ∧
      sha256 (container f d) = f.manifest.containerAfter) ∧
    (header f d = f.headerBefore ∨ header f d = f.headerAfter ∨ header f d = invalidHeader) ∧
    ∀ a : Attempt, a.mode = .restore → (a.result sha256 f d).1 = true →
      (a.result sha256 f d).2 = d₀ := by
  intro d
  have hf := package_accepted hpackage
  have hd : Consistent sha256 f d₀ d :=
    afterAttempts_consistent hf hdistinct hsha hmatch .refl attempts
  refine ⟨fun hheader => ?_, fun hheader => ?_, ?_, fun a hmode hresult => ?_⟩
  · rw [hd.eq_of_before hf hdistinct hheader]
  · rcases hd.state with h | ⟨h, hapart, hafter⟩ | h
    · rw [h, hmatch.header] at hheader
      exact absurd hheader hdistinct.before_after
    · refine ⟨?_, hafter⟩
      rw [h, published, hapart.container_store hf.headerAfter]
      rfl
    · exact absurd (hheader.symm.trans h) hdistinct.after_invalid
  · rcases hd.state with h | ⟨h, -⟩ | h
    · exact .inl (by rw [h, hmatch.header])
    · exact .inr (.inl (by rw [h, header_published hf]))
    · exact .inr (.inr h)
  · exact (a.result_consistent hf hdistinct hsha hmatch hd).2 hmode hresult

end

/-! ## Runs that complete -/

/-- With enough commands, `m` comes to `m'` on the disk `d'`, with the ranges `w'` enabled. -/
def Reaches {α : Type} (m : Op α) (d : Memory) (w : List (ℕ × ℕ)) (m' : Op α) (d' : Memory)
    (w' : List (ℕ × ℕ)) : Prop :=
  ∃ k, ∀ n, m ⟨d, n + k, w⟩ = m' ⟨d', n, w'⟩

abbrev Ends {α : Type} (m : Op α) (d : Memory) (w : List (ℕ × ℕ)) (a : α) (d' : Memory)
    (w' : List (ℕ × ℕ)) : Prop :=
  Reaches m d w (pure a) d' w'

section

variable {α β : Type} {m : Op α} {g : α → Op β} {l : Op β} {a : α} {d d' d'' : Memory}
  {w w' w'' : List (ℕ × ℕ)}

theorem Reaches.refl : Reaches m d w m d w := ⟨0, fun _ => rfl⟩

theorem Reaches.trans {m' m'' : Op α} (h : Reaches m d w m' d' w')
    (h' : Reaches m' d' w' m'' d'' w'') : Reaches m d w m'' d'' w'' := by
  obtain ⟨k, hk⟩ := h
  obtain ⟨k', hk'⟩ := h'
  exact ⟨k' + k, fun n => by rw [← add_assoc, hk, hk']⟩

theorem Reaches.bind (h : Ends m d w a d' w') (h' : Reaches (g a) d' w' l d'' w'') :
    Reaches (m >>= g) d w l d'' w'' := by
  obtain ⟨k, hk⟩ := h
  obtain ⟨k', hk'⟩ := h'
  refine ⟨k' + k, fun n => ?_⟩
  rw [← add_assoc, bind_of_some (hk _), hk']

theorem require_ends {c : Prop} {_ : Decidable c} (h : c) : Ends (require c) d w () d w :=
  ⟨0, fun _ => by rw [decide_eq_true h]; rfl⟩

variable {t : Target} {absolute size : ℕ} {bs : List UInt8} {overlays : List (ℕ × List UInt8)}

/-- Whole blocks of the namespace. -/
abbrev OnTarget (t : Target) (absolute size : ℕ) : Prop :=
  (absolute % t.lbaBytes = 0 ∧ size % t.lbaBytes = 0) ∧
    0 < size / t.lbaBytes ∧ absolute / t.lbaBytes + size / t.lbaBytes ≤ t.nsze

theorem OnTarget.blocks (h : OnTarget t absolute size) :
    absolute / t.lbaBytes * t.lbaBytes = absolute ∧ size / t.lbaBytes * t.lbaBytes = size :=
  ⟨Nat.div_mul_cancel (Nat.dvd_of_mod_eq_zero h.1.1),
    Nat.div_mul_cancel (Nat.dvd_of_mod_eq_zero h.1.2)⟩

theorem read_ends (h : OnTarget t absolute size) :
    Ends (read t absolute size) d w (d.load absolute size) d w := by
  refine (require_ends h.1).bind ((require_ends h.2).bind ⟨1, fun n => ?_⟩)
  rw [h.blocks.1, h.blocks.2]
  rfl

/-- What is written with one command, within the enabled ranges. -/
structure Writable (t : Target) (w : List (ℕ × ℕ)) (absolute size : ℕ) : Prop where
  on : OnTarget t absolute size
  le : size ≤ min t.maxTransfer (65536 * t.lbaBytes)
  enabled : Nvme.inRanges w (absolute / t.lbaBytes : ℕ) (size / t.lbaBytes : ℕ) = true

theorem write_ends (h : Writable t w absolute size) (hlength : bs.length = size) :
    Ends (write t absolute bs) d w () (d.store absolute bs) w := by
  subst hlength
  have hne : bs ≠ [] := fun hnil => absurd h.on.2.1 (by simp [hnil])
  refine (require_ends h.on.1.1).bind ((require_ends ⟨hne, h.on.1.2⟩).bind ⟨1, fun n => ?_⟩)
  rw [bind_of_some (get_apply _), h.enabled, slices_single hne h.le]
  show (some (), (⟨d.store (absolute / t.lbaBytes * t.lbaBytes) bs, n, w⟩ : Device)) = _
  rw [h.on.blocks.1]
  rfl

theorem flush_ends (h : w ≠ []) : Ends flush d w () d w := by
  refine ⟨1, fun n => ?_⟩
  rw [flush, bind_of_some (get_apply _), decide_eq_true h]
  rfl

theorem flush_cut : flush ⟨d, 0, w⟩ = (none, ⟨d, 0, w⟩) := by cases w <;> rfl

/-- The overlays that the helper takes. -/
abbrev Fit (t : Target) (overlays : List (ℕ × List UInt8)) : Prop :=
  (overlays.length ≤ 256 ∧ (overlays.map fun o => o.2.length).sum ≤ 2 ^ 20) ∧
    (overlays.all fun o => o.2 ≠ [] ∧ o.1 + o.2.length ≤ t.nsze * t.lbaBytes) = true

theorem Fit.nil : Fit t [] := ⟨by decide, rfl⟩

variable {D : Type} {sha256 : List UInt8 → D}

theorem nativeHash_ends (h : OnTarget t absolute size) (hfit : Fit t overlays) :
    Ends (nativeHash sha256 t (absolute / t.lbaBytes) (size / t.lbaBytes) overlays) d w
      (sha256 ((applyOverlays d overlays).load absolute size)) d w := by
  refine (require_ends h.2).bind ((require_ends hfit.1).bind ?_)
  rw [hfit.2]
  refine Reaches.bind (a := ()) .refl ⟨1, fun n => ?_⟩
  rw [h.blocks.1, h.blocks.2]
  rfl

theorem hashRange_ends (h : OnTarget t absolute size) (hfit : Fit t overlays) :
    Ends (hashRange sha256 t absolute size overlays) d w
      (sha256 ((applyOverlays d overlays).load absolute size)) d w :=
  (require_ends h.1).bind (nativeHash_ends h hfit)

theorem edges_ends {regions : List (ℕ × ℕ)} (h : ∀ r ∈ regions, OnTarget t r.1 r.2) :
    Ends (edges sha256 t regions) d w (regions.map fun r => sha256 (d.load r.1 r.2)) d w := by
  induction regions with
  | nil => exact .refl
  | cons r rest ih =>
    obtain ⟨hr, hrest⟩ := forall_mem_cons.mp h
    exact (read_ends hr).bind ((ih hrest).bind .refl)

variable {f : Files D} {regions : List (ℕ × ℕ)}

theorem writeExtents_ends {data : List UInt8} {extents : List (Extent D)}
    (h : ∀ e ∈ extents, e.packOffset + e.bytes ≤ data.length ∧
      Writable t w (containerAt f + e.containerOffset) e.bytes) :
    Ends (writeExtents t f data extents) d w () (applyOverlays d (extents.map fun e =>
      (containerAt f + e.containerOffset, slice data e.packOffset e.bytes))) w := by
  induction extents generalizing d with
  | nil => exact .refl
  | cons e rest ih =>
    obtain ⟨⟨hpack, hwritable⟩, hrest⟩ := forall_mem_cons.mp h
    have hlength := slice_length hpack
    refine (write_ends hwritable hlength).bind ((read_ends hwritable.on).bind
      ((require_ends ?_).bind (ih hrest)))
    nth_rewrite 2 [← hlength]
    exact load_store_self ..

/-- A target that serves the package, with the edges and the ranges of its runs. -/
structure Serves (t : Target) (f : Files D) (regions w : List (ℕ × ℕ)) : Prop where
  located : ∀ d, Ends (locate t f) d [] regions d []
  regions : ∀ r ∈ regions, OnTarget t r.1 r.2
  sample : OnTarget t (containerAt f) (4 * mib)
  container : OnTarget t (containerAt f) f.manifest.containerBytes
  image : OnTarget t (iscAt f) f.manifest.iscImage
  tail : OnTarget t (iscAt f + f.manifest.iscImage) (f.manifest.iscRegion - f.manifest.iscImage)
  image_le : f.manifest.iscImage ≤ f.manifest.iscRegion
  fit : Fit t (overlaysOf f f.before)
  enabled : ∀ d, Ends (enableWrites t ((headerAt f / t.lbaBytes, headerBytes / t.lbaBytes) ::
    f.manifest.extents.map fun e =>
      ((containerAt f + e.containerOffset) / t.lbaBytes, e.bytes / t.lbaBytes))) d [] () d w
  header : Writable t w (headerAt f) headerBytes
  extents : ∀ e ∈ f.manifest.extents, Writable t w (containerAt f + e.containerOffset) e.bytes

structure Isc (sha256 : List UInt8 → D) (f : Files D) (d : Memory) : Prop where
  image : sha256 (d.load (iscAt f) f.manifest.iscImage) = f.manifest.isc
  tail : sha256 (d.load (iscAt f + f.manifest.iscImage)
    (f.manifest.iscRegion - f.manifest.iscImage)) = f.manifest.iscZeroTail

variable [DecidableEq D] (ht : Serves t f regions w)
include ht

theorem checkIsc_ends {w' : List (ℕ × ℕ)} (h : Isc sha256 f d) :
    Ends (checkIsc sha256 t f) d w' () d w' := by
  refine (hashRange_ends ht.image .nil).bind ((require_ends h.image).bind ?_)
  refine (require_ends ht.image_le).bind ((hashRange_ends ht.tail .nil).bind ?_)
  exact require_ends h.tail

/-- A run comes to its update from every disk that it accepts. -/
theorem run_reaches {mode : Mode} (hheader : header f d ∈ acceptedHeaders f mode)
    (hisc : Isc sha256 f d)
    (hcontainer : sha256 (container f (applyOverlays d
      (if mode = .restore then overlaysOf f f.before else []))) = f.manifest.containerBefore) :
    let originalEdges := regions.map fun r => sha256 (d.load r.1 r.2)
    Reaches (run sha256 t f mode) d [] (do
      updateIn sha256 t f regions originalEdges mode
      Cut.modify fun s => { s with writeRanges := [] }
      require ((← edges sha256 t regions) = originalEdges)) d [] := by
  have hfit : Fit t (if mode = .restore then overlaysOf f f.before else []) := by
    split
    · exact ht.fit
    · exact .nil
  refine (ht.located d).bind ((edges_ends ht.regions).bind ((read_ends ht.header.on).bind ?_))
  refine (require_ends hheader).bind ((read_ends ht.sample).bind ?_)
  rw [load_length]
  refine (nativeHash_ends ht.sample .nil).bind ?_
  rw [show applyOverlays d [] = d from rfl]
  refine (require_ends rfl).bind ((checkIsc_ends ht hisc).bind ?_)
  exact (hashRange_ends ht.container hfit).bind ((require_ends hcontainer).bind .refl)

/-- Without a command left for the flush, an apply ends with the header invalid. -/
theorem apply_cut (hheader : header f d ∈ acceptedHeaders f .apply) (hisc : Isc sha256 f d)
    (hcontainer : sha256 (container f d) = f.manifest.containerBefore) :
    ∃ k, afterAttempts sha256 f d [⟨t, .apply, k⟩] = d.store (headerAt f) invalidHeader := by
  have hupdate (edges : List D) : ∃ rest, Reaches (updateIn sha256 t f regions edges .apply) d []
      (flush >>= rest) (d.store (headerAt f) invalidHeader) w :=
    ⟨_, (ht.enabled d).bind ((write_ends ht.header length_replicate).bind .refl)⟩
  obtain ⟨k, hk⟩ := run_reaches ht hheader hisc hcontainer
  obtain ⟨rest, k', hk'⟩ := hupdate (regions.map fun r => sha256 (d.load r.1 r.2))
  refine ⟨0 + k' + k, ?_⟩
  show (run sha256 t f .apply ⟨d, 0 + k' + k, []⟩).2.disk = _
  rw [hk, bind_of_none ((hk' 0).trans (bind_of_none flush_cut))]

/-- A restore completes from every disk that it accepts. -/
theorem restore_ends (hf : Accepted f) (hapart : Apart f)
    (hheader : header f d ∈ acceptedHeaders f .restore)
    (hcontainer : sha256 (container f (applyOverlays d (overlaysOf f f.before))) =
      f.manifest.containerBefore)
    (hkept : ∀ d' : Memory, (∀ a, ¬InHeader f a → ¬InContainer f a → d' a = d a) →
      Isc sha256 f d' ∧ ∀ r ∈ regions, d'.load r.1 r.2 = d.load r.1 r.2) :
    ∃ k, (Attempt.result sha256 f ⟨t, .restore, k⟩ d).1 = true := by
  have hw : w ≠ [] := by
    rintro rfl
    simpa [Nvme.inRanges] using ht.header.enabled
  obtain ⟨d₁, hd₁⟩ : ∃ d₁, d.store (headerAt f) invalidHeader = d₁ := ⟨_, rfl⟩
  obtain ⟨d₂, hd₂⟩ : ∃ d₂, applyOverlays d₁ (overlaysOf f f.before) = d₂ := ⟨_, rfl⟩
  obtain ⟨d₃, hd₃⟩ : ∃ d₃, d₂.store (headerAt f) f.headerBefore = d₃ := ⟨_, rfl⟩
  have hframe₁ : ∀ a, ¬InHeader f a → d₁ a = d a := fun a ha =>
    hd₁ ▸ store_header_of_outside length_invalidHeader ha
  have hframe₂ : ∀ a, ¬InHeader f a → ¬InContainer f a → d₂ a = d a := fun a ha hc =>
    hd₂ ▸ (hf.frame_overlays rfl hc).trans (hframe₁ a ha)
  have hframe₃ : ∀ a, ¬InHeader f a → ¬InContainer f a → d₃ a = d a := fun a ha hc =>
    hd₃ ▸ (store_header_of_outside hf.headerBefore ha).trans (hframe₂ a ha hc)
  have hread₁ : d₁.load (headerAt f) headerBytes = invalidHeader :=
    hd₁ ▸ header_store length_replicate
  have hread₃ : d₃.load (headerAt f) headerBytes = f.headerBefore :=
    hd₃ ▸ header_store hf.headerBefore
  have hwritten : sha256 (container f d₂) = f.manifest.containerBefore := by
    rw [← hcontainer, ← hd₂]
    refine congrArg sha256 (load_congr fun a ha _ => applyOverlays_congr (hframe₁ a fun hh => ?_))
    exact absurd (lt_of_lt_of_le hh.2 hapart) ha.not_gt
  have hedges {d' : Memory} (h : ∀ a, ¬InHeader f a → ¬InContainer f a → d' a = d a) :
      (regions.map fun r => sha256 (d'.load r.1 r.2)) =
        regions.map fun r => sha256 (d.load r.1 r.2) :=
    map_congr_left fun r hr => congrArg sha256 ((hkept d' h).2 r hr)
  have hupdate : Ends (update sha256 t f .restore regions
      (regions.map fun r => sha256 (d.load r.1 r.2))) d [] () d₃ w := by
    refine (ht.enabled d).bind ((write_ends ht.header length_replicate).bind ?_)
    rw [← invalidHeader, hd₁]
    refine (flush_ends hw).bind ((read_ends ht.header.on).bind ((require_ends hread₁).bind ?_))
    refine (writeExtents_ends fun e he => ⟨(hf.extents e he).2.1, ht.extents e he⟩).bind ?_
    rw [← overlaysOf, hd₂]
    refine (flush_ends hw).bind ((hashRange_ends ht.container .nil).bind ?_)
    refine (require_ends hwritten).bind ((checkIsc_ends ht (hkept d₂ hframe₂).1).bind ?_)
    refine (edges_ends ht.regions).bind ((require_ends (hedges hframe₂)).bind ?_)
    refine (write_ends ht.header hf.headerBefore).bind ?_
    rw [hd₃]
    exact (flush_ends hw).bind ((read_ends ht.header.on).bind (require_ends hread₃))
  have hrun := run_reaches ht hheader (hkept d fun _ _ _ => rfl).1 hcontainer
  have hends : Ends (run sha256 t f .restore) d [] () d₃ [] := by
    refine hrun.trans (hupdate.bind (Reaches.bind (a := ()) ⟨0, fun _ => rfl⟩ ?_))
    exact (edges_ends ht.regions).bind (require_ends (hedges hframe₃))
  obtain ⟨k, hk⟩ := hends
  exact ⟨0 + k, by rw [Attempt.result, hk]; rfl⟩

end

/-! A package of one extent, on a disk in its before state. -/

def onePage (v : UInt8) : List UInt8 := List.replicate 4096 v

def smallManifest : Manifest (List UInt8) where
  schemaKnown := true
  blockBytes := 4096
  payloadBytes := 4096
  beforePack := onePage 1
  afterPack := onePage 2
  extents := [⟨0, 4096, 0, onePage 1, onePage 2⟩]
  containerBytes := 4096
  containerBefore := onePage 1
  containerAfter := onePage 2
  diskBytes := 2 ^ 30
  diskGuid := 1
  diskId := 2
  partition := ⟨3, 4, 2 ^ 21, 2 ^ 29 + 2 ^ 25⟩
  headerOffset := 524288
  containerOffset := 537919488
  iscOffset := 2 ^ 20
  iscImage := 4096
  iscRegion := 8192
  isc := onePage 0
  iscZeroTail := onePage 0

def smallPackage : Files (List UInt8) where
  packageJson := []
  packagedLocalOnly := true
  manifestSha := []
  headerBeforeSha := onePage 3
  headerAfterSha := onePage 4
  extentCount := 1
  manifestJson := []
  manifest := smallManifest
  before := onePage 1
  after := onePage 2
  headerBefore := onePage 3
  headerAfter := onePage 4

def smallDisk : Memory :=
  Memory.store (Memory.store (fun _ => 0) (headerAt smallPackage) (onePage 3))
    (containerAt smallPackage) (onePage 1)

theorem onePage_length (v : UInt8) : (onePage v).length = 4096 := length_replicate

theorem onePage_inj {v v' : UInt8} (h : onePage v = onePage v') : v = v' :=
  Option.some.inj (congrArg List.head? h)

theorem slice_onePage (v : UInt8) : slice (onePage v) 0 4096 = onePage v :=
  take_of_length_le (onePage_length v).le

theorem smallPackage_accepted : package id [] smallPackage = true := by
  have hextents : checkExtents id 4096 (onePage 1) (onePage 2) 0 0 smallManifest.extents =
      some 4096 := by
    have hslices : id (slice (onePage 1) 0 4096) = onePage 1 ∧
        id (slice (onePage 2) 0 4096) = onePage 2 := ⟨slice_onePage 1, slice_onePage 2⟩
    rw [smallManifest, checkExtents, if_pos]
    · rfl
    · exact ⟨by decide, by decide, by decide, by decide, by decide, rfl, hslices⟩
  simp only [package, decide_eq_true_eq]
  refine ⟨rfl, rfl, rfl, ⟨rfl, rfl⟩, ?_, ⟨rfl, rfl⟩, ?_, ?_, rfl⟩
  · simp only [smallPackage, onePage_length]
    decide
  · simp only [smallPackage, onePage_length]
    exact ⟨trivial, trivial, rfl, rfl⟩
  · simp only [smallPackage, onePage_length]
    exact hextents

theorem smallPackage_distinct : Distinct smallPackage :=
  ⟨fun h => absurd (onePage_inj h) (by decide), fun h => absurd (onePage_inj h) (by decide),
    fun h => absurd (onePage_inj h) (by decide)⟩

theorem container_onePage {d : Memory} (v : UInt8) :
    container smallPackage (d.store (containerAt smallPackage) (onePage v)) = onePage v := by
  have hbytes : smallPackage.manifest.containerBytes = (onePage v).length :=
    (onePage_length v).symm
  rw [container, hbytes, load_store_self]

theorem smallDisk_matches : MatchesBefore id smallPackage smallDisk := by
  constructor
  · rw [header, smallDisk, load_store_of_disjoint _ (.inl (by decide))]
    exact header_store (f := smallPackage) (onePage_length 3)
  · exact (id_eq _).trans (container_onePage 1)

def smallTarget : Target where
  lbaBytes := 512
  nsze := 2 ^ 21
  maxTransfer := 2 ^ 18
  id := 2
  readGpt _ := ⟨true, 1, smallManifest.partition ::
    (List.replicate 9 ⟨5, 4, 2 ^ 20, 2 ^ 20⟩ ++ List.replicate 9 ⟨6, 4, 2 ^ 29 + 2 ^ 26, 2 ^ 20⟩)⟩
  transfer := ⟨18, by decide, rfl⟩

def smallEdges : List (ℕ × ℕ) :=
  [(0, mib), (2 ^ 30 - mib, mib), (2 ^ 20, mib), (2 ^ 29 + 2 ^ 26, mib)]

theorem smallPackage_overlays : overlaysOf smallPackage smallPackage.before =
    [(containerAt smallPackage, onePage 1)] := by
  simp only [overlaysOf, smallPackage, smallManifest, map_cons, map_nil, slice_onePage]
  rfl

theorem smallTarget_serves :
    Serves smallTarget smallPackage smallEdges [(5120, 5128), (1054720, 1054728)] where
  located _ := ⟨1, fun _ => rfl⟩
  regions := by decide
  sample := by decide
  container := by decide
  image := by decide
  tail := by decide
  image_le := by decide
  fit := by
    rw [smallPackage_overlays]
    refine ⟨⟨by decide, ?_⟩, ?_⟩
    · simp only [map_cons, map_nil, onePage_length]
      decide
    · simp only [all_cons, all_nil, onePage_length]
      decide
  enabled d := by
    have h : Nvme.checkRanges (2 ^ 21) [(.int 5120, .int 8), (.int 1054720, .int 8)] =
        some [(5120, 5128), (1054720, 1054728)] := by
      simp [Nvme.checkRanges, Nvme.checkRange, mergeSort, Nvme.rangeLe]
    refine (require_ends (by decide)).bind ⟨0, fun n => ?_⟩
    generalize hchecked : Nvme.checkRanges smallTarget.nsze _ = checked
    cases hchecked.symm.trans h
    rfl
  header := ⟨by decide, by decide, by decide⟩
  extents := forall_mem_singleton.mpr ⟨by decide, by decide, by decide⟩

section

variable {d : Memory}
  (h : ∀ a, ¬InHeader smallPackage a → ¬InContainer smallPackage a → d a = smallDisk a)
include h

theorem smallDisk_isc : Isc id smallPackage d := by
  have hzero {off : ℕ} (hlow : 2625536 ≤ off) (hhigh : off + 4096 ≤ 540016640) :
      d.load off 4096 = onePage 0 := by
    have hload : d.load off 4096 = Memory.load (fun _ => 0) off 4096 := by
      refine load_congr fun a ha hb => ?_
      have hheader : ¬(2621440 ≤ a ∧ a < 2625536) := by omega
      have hcontainer : ¬(540016640 ≤ a ∧ a < 540020736) := by omega
      refine (h a hheader hcontainer).trans ((store_apply_of_outside ?_).trans
        (store_apply_of_outside ?_))
      · rw [onePage_length]
        exact hcontainer
      · rw [onePage_length]
        exact hheader
    rw [hload]
    simp [load, onePage]
  exact ⟨(id_eq _).trans (hzero (by decide) (by decide)),
    (id_eq _).trans (hzero (by decide) (by decide))⟩

theorem smallEdges_kept : ∀ r ∈ smallEdges, d.load r.1 r.2 = smallDisk.load r.1 r.2 := by
  have hregion : ∀ r ∈ smallEdges, r.1 + r.2 ≤ 2621440 ∨ 2625536 ≤ r.1 ∧
      (r.1 + r.2 ≤ 540016640 ∨ 540020736 ≤ r.1) := by decide
  intro r hr
  refine load_congr fun a ha hb => h a ?_ ?_
  · show ¬(2621440 ≤ a ∧ a < 2625536)
    have := hregion r hr
    omega
  · show ¬(540016640 ≤ a ∧ a < 540020736)
    have := hregion r hr
    omega

end

theorem smallDisk_interrupted :
    ∃ k, afterAttempts id smallPackage smallDisk [⟨smallTarget, .apply, k⟩] =
      smallDisk.store (headerAt smallPackage) invalidHeader :=
  apply_cut smallTarget_serves (mem_singleton.mpr smallDisk_matches.header)
    (smallDisk_isc fun _ _ _ => rfl) smallDisk_matches.container

theorem smallDisk_restored : ∃ k, (Attempt.result id smallPackage ⟨smallTarget, .restore, k⟩
    (smallDisk.store (headerAt smallPackage) invalidHeader)).1 = true := by
  obtain ⟨d, hd⟩ : ∃ d, smallDisk.store (headerAt smallPackage) invalidHeader = d := ⟨_, rfl⟩
  have hframe : ∀ a, ¬InHeader smallPackage a → d a = smallDisk a := fun a ha =>
    hd ▸ store_header_of_outside length_invalidHeader ha
  have hheader : header smallPackage d = invalidHeader := hd ▸ header_store length_replicate
  rw [hd]
  refine restore_ends smallTarget_serves (package_accepted smallPackage_accepted)
    (by unfold Apart; decide) ?_ ?_ fun d' hd' => ?_
  · rw [hheader]
    exact .tail _ (.tail _ (.head _))
  · rw [smallPackage_overlays]
    exact (id_eq _).trans (container_onePage 1)
  · have h : ∀ a, ¬InHeader smallPackage a → ¬InContainer smallPackage a → d' a = smallDisk a :=
      fun a ha hc => (hd' a ha hc).trans (hframe a ha)
    exact ⟨smallDisk_isc h, fun r hr => (smallEdges_kept h r hr).trans
      (smallEdges_kept (fun a ha _ => hframe a ha) r hr).symm⟩

/-- The apply is cut behind the write that invalidates the header, and the restore completes. -/
theorem afterAttempts_crashSafe_small : ∃ k k',
    let d := afterAttempts id smallPackage smallDisk [⟨smallTarget, .apply, k⟩]
    header smallPackage d = invalidHeader ∧
      Attempt.result id smallPackage ⟨smallTarget, .restore, k'⟩ d = (true, smallDisk) := by
  obtain ⟨k, hk⟩ := smallDisk_interrupted
  obtain ⟨k', hk'⟩ := smallDisk_restored
  have hsafe := (afterAttempts_crashSafe smallPackage_accepted smallPackage_distinct
    Function.injective_id smallDisk_matches [⟨smallTarget, .apply, k⟩]).2.2.2
    ⟨smallTarget, .restore, k'⟩ rfl
  rw [hk] at hsafe
  refine ⟨k, k', ?_⟩
  rw [hk]
  exact ⟨header_store length_replicate, Prod.ext hk' (hsafe hk')⟩

end Q1n1.Window
