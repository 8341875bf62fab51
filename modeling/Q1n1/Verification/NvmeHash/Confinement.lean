import Q1n1.Model.NvmeHash.Run

/-! # The hash helper stays inside its window -/

namespace Q1n1.NvmeHash

open Cut List Function

variable {ε : Type}

/-- A run of bytes between two offsets of the window, in 64-bit addresses. -/
def InWindow (w : Work) (lo hi address size : ℕ) : Prop :=
  ∃ off, lo ≤ off ∧ off + size ≤ hi ∧ address = (w.window + off) % 2 ^ 64

def InPrpPage (w : Work) (address size : ℕ) : Prop :=
  ∃ slot < slotCount, InWindow w (prpOff + slot * page) (prpOff + slot * page + page) address size

def InDataSlot (w : Work) (address size : ℕ) : Prop :=
  ∃ slot < slotCount,
    InWindow w (dataOff + slot * slotBytes) (dataOff + slot * slotBytes + slotBytes) address size

/-- A command is a read of requested blocks into pages of the data slots. -/
structure ReadAllowed (w : Work) (c : Command) (pointers : List ℕ) : Prop where
  opcode : c.opcode = 0x02
  first : w.firstLba ≤ c.slba
  last : c.slba + (c.nlb + 1) ≤ w.firstLba + w.blocks
  prp1 : c.prp1 ∈ pointers
  prp2 : c.prp2 = 0 ∨ c.prp2 ∈ pointers ∨ InPrpPage w c.prp2 8
  pages : ∀ p ∈ pointers, InDataSlot w p page

def Allowed (record : ℕ) (w : Work) : Access → Prop
  | .store address size =>
    InWindow w 0x2000 0x3000 address size ∨ InPrpPage w address size ∨
      InDataSlot w address size ∨ (size = 4 ∧ (address = w.sqDb ∨ address = w.cqDb)) ∨
      (record = (w.window + stateOff) % 2 ^ 64 ∧ size = telemetryBytes ∧
        address = (record + telemetryOff) % 2 ^ 64)
  | .overlay address size => InWindow w 0x70000 0x170000 address size
  | .command c pointers => ReadAllowed w c pointers

/-! ## What a call does not change -/

/-- What the caller asks for. -/
structure Request where
  bar : ℕ
  window : ℕ
  firstLba : ℕ
  blocks : ℕ
  lbaBytes : ℕ
  maxTransfer : ℕ
  nsze : ℕ
  stride : ℕ
  overlayCount : ℕ

def Work.request (w : Work) : Request :=
  ⟨w.bar, w.window, w.firstLba, w.blocks, w.lbaBytes, w.maxTransfer, w.nsze, w.stride,
    w.overlayCount⟩

/-- Two records of one call. -/
def SameCall (w₀ w : Work) : Prop := w.request = w₀.request

variable {w : Work} {w₀ : Work}

section

variable (h : SameCall w₀ w)
include h

theorem SameCall.window : w.window = w₀.window :=
  congrArg Request.window h

theorem SameCall.firstLba : w.firstLba = w₀.firstLba :=
  congrArg Request.firstLba h

theorem SameCall.blocks : w.blocks = w₀.blocks :=
  congrArg Request.blocks h

theorem SameCall.lbaBytes : w.lbaBytes = w₀.lbaBytes :=
  congrArg Request.lbaBytes h

theorem SameCall.per : w.per = w₀.per :=
  congrArg (fun r => r.maxTransfer / r.lbaBytes) h

theorem SameCall.overlayCount : w.overlayCount = w₀.overlayCount :=
  congrArg Request.overlayCount h

end

/-- The facts about a record that passed the checks that the accesses rest on. -/
structure Checked (w : Work) : Prop where
  lbaBytes : w.lbaBytes = 512 ∨ w.lbaBytes = 4096
  maxTransfer : 0 < w.maxTransfer ∧ w.maxTransfer ≤ slotBytes
  whole : w.maxTransfer % w.lbaBytes = 0
  range : w.firstLba + w.blocks ≤ w.nsze

theorem checked_of_valid (h : w.valid = true) : Checked w ∧ w.tail < entries := by
  simp only [Work.valid, Bool.not_eq_true', Bool.or_eq_false_iff, Bool.and_eq_false_iff,
    decide_eq_false_iff_not, bne_eq_false_iff_eq, beq_eq_false_iff_ne] at h
  refine ⟨⟨by omega, ⟨by omega, ?_⟩, by omega, by omega⟩, by omega⟩
  rw [slotBytes]
  omega

theorem Checked.per_pos (h : Checked w) : 0 < w.per := by
  have hlba : 0 < w.lbaBytes := by rcases h.lbaBytes with h | h <;> omega
  refine Nat.div_pos (Nat.le_of_not_lt fun hlt => ?_) hlba
  have hmod := h.whole
  rw [Nat.mod_eq_of_lt hlt] at hmod
  have := h.maxTransfer.1
  omega

theorem Checked.transfer (h : Checked w) {k : ℕ} (hk : k < (w.blocks + w.per - 1) / w.per) :
    let count := if w.blocks - k * w.per < w.per then w.blocks - k * w.per else w.per
    0 < count ∧ k * w.per + count ≤ w.blocks ∧ count ≤ w.per := by
  have hper := h.per_pos
  have hlt : k * w.per < w.blocks := by
    have hle : (k + 1) * w.per ≤ w.blocks + w.per - 1 := (Nat.le_div_iff_mul_le hper).mp hk
    rw [Nat.succ_mul] at hle
    omega
  split <;> omega

theorem Checked.per_le (h : Checked w) : w.per * w.lbaBytes ≤ slotBytes :=
  (Nat.div_mul_le_self _ _).trans h.maxTransfer.2

/-! ## Steps and states -/

/-- Every new access is allowed. -/
def Step (record : ℕ) (w₀ : Work) (s t : Machine ε) : Prop :=
  ∀ a ∈ t.accesses, a ∈ s.accesses ∨ Allowed record w₀ a

/-- A machine in the call of `w₀`. -/
structure Ready (record : ℕ) (w₀ : Work) (table : ℕ → Overlay) (m : Machine ε) : Prop where
  same : SameCall w₀ m.w
  tail : m.w.tail < entries
  table : m.table = table
  record : m.record = record

/-- A machine in the call of `w₀` whose slots have the block counts `C`. -/
def Holds (record : ℕ) (w₀ : Work) (table : ℕ → Overlay) (C : (ℕ → ℕ) → Prop) (m : Machine ε) :
    Prop :=
  Ready record w₀ table m ∧ C fun i => (m.slots i).count

section

/-- What stays in the call of `w₀`, with every access allowed. -/
abbrev Stays {α : Type} (record : ℕ) (w₀ : Work) (table : ℕ → Overlay) (C : (ℕ → ℕ) → Prop)
    (m : Run ε α) : Prop :=
  Does (Step record w₀) (Holds record w₀ table C) m fun _ => Holds record w₀ table C

variable {record : ℕ} {w₀ : Work} {table : ℕ → Overlay} {C : (ℕ → ℕ) → Prop}

theorem does_quiet {P Q : Machine ε → Prop} {f : Machine ε → Machine ε}
    (h : ∀ m, P m → Q (f m)) (hf : ∀ m, (f m).accesses = m.accesses := by exact fun _ => rfl) :
    Does (Step record w₀) P (modify f) fun _ => Q :=
  does_modify (fun m _ _ ha => .inl (hf m ▸ ha)) h

variable (P : Platform ε)

theorem does_look : Stays record w₀ table C (look P) :=
  does_quiet fun _ h => ⟨{ h.1 with }, h.2⟩

theorem does_note {a : Access} (ha : Allowed record w₀ a) :
    Stays (ε := ε) record w₀ table C (note a) := by
  refine does_modify (fun m _ b hb => ?_) fun _ h =>
    ⟨{ h.1 with }, h.2⟩
  rcases mem_append.mp hb with hb | hb
  · exact .inl hb
  · exact .inr (mem_singleton.mp hb ▸ ha)

theorem does_setWork {f : Work → Work} (hs : ∀ w, SameCall w₀ w → SameCall w₀ (f w))
    (ht : ∀ w : Work, w.tail < entries → (f w).tail < entries) :
    Stays (ε := ε) record w₀ table C (setWork f) :=
  does_quiet fun _ h =>
    ⟨⟨hs _ h.1.same, ht _ h.1.tail, h.1.table, h.1.record⟩, h.2⟩

theorem does_setHash (sha : Work → State) (digest : Work → List UInt8) :
    Stays (ε := ε) record w₀ table C
      (setWork fun w => { w with sha := sha w, digest := digest w }) :=
  does_setWork (fun _ h => h) fun _ h => h

theorem does_setSlot {i : ℕ} {f : Slot → Slot} (hf : ∀ s, (f s).count = s.count) :
    Stays (ε := ε) record w₀ table C (setSlot i f) := by
  refine does_quiet fun m h =>
    ⟨{ h.1 with }, ?_⟩
  have hcount : (fun j => (Function.update m.slots i (f (m.slots i)) j).count) =
      fun j => (m.slots j).count := by
    funext j
    by_cases hj : j = i
    · rw [hj, update_self, hf]
    · rw [update_of_ne hj]
  simpa only [hcount] using h.2

theorem does_when {c : Prop} [Decidable c] {x : Run ε Unit}
    (h : c → Stays record w₀ table C x) : Stays record w₀ table C (when c x) :=
  does_ite h fun _ => does_skip

theorem does_store {address : ℕ} {bytes : List UInt8}
    (ha : Allowed record w₀ (.store address bytes.length)) :
    Stays (ε := ε) record w₀ table C (store address bytes) :=
  (does_note ha).bind fun _ => does_quiet fun _ h =>
    ⟨{ h.1 with }, h.2⟩

theorem does_store32 {address value : ℕ} (ha : address = w₀.sqDb ∨ address = w₀.cqDb) :
    Stays record w₀ table C (store32 P address value) :=
  have hallowed : Allowed record w₀ (.store address 4) :=
    .inr (.inr (.inr (.inl ⟨rfl, ha⟩)))
  (does_note hallowed).bind fun _ => does_quiet fun _ h =>
    ⟨{ h.1 with }, h.2⟩

theorem does_load32 (address : ℕ) : Stays record w₀ table C (load32 P address) :=
  (does_look P).bind fun _ => does_get fun _ _ => does_skip

/-! ## Overlays -/

/-- The source of an overlay does not reach the top of the address space, unless the staging
part of the window does. -/
def SourceFits (w : Work) (o : Overlay) : Prop :=
  (w.window + 0x170000) % 2 ^ 64 < (w.window + 0x70000) % 2 ^ 64 ∨ o.source + o.length < 2 ^ 64

theorem overlayValid_bounds {o : Overlay} (h : overlayValid w o = true) :
    0 < o.length ∧ o.length ≤ 0x100000 ∧ (w.window + 0x70000) % 2 ^ 64 ≤ o.source ∧
      (o.source + o.length) % 2 ^ 64 ≤ (w.window + 0x170000) % 2 ^ 64 ∧
      o.diskByte + o.length < 2 ^ 64 := by
  have hdisk : w.diskBytes < 2 ^ 64 := Nat.mod_lt _ (by decide)
  simp only [overlayValid, Bool.not_eq_true', Bool.or_eq_false_iff, beq_eq_false_iff_ne,
    decide_eq_false_iff_not] at h
  omega

theorem overlay_inWindow {o : Overlay} {lo hi : ℕ} (h : overlayValid w o = true)
    (hsource : o.source < 2 ^ 64) (hfits : SourceFits w o) (hlo : o.diskByte ≤ lo)
    (hhi : hi ≤ o.diskByte + o.length) (hlt : lo < hi) :
    InWindow w 0x70000 0x170000 ((o.source + (lo - o.diskByte)) % 2 ^ 64) (hi - lo) := by
  obtain ⟨hpos, hlen, hfirst, hlast, -⟩ := overlayValid_bounds h
  have hroom : o.source - (w.window + 0x70000) % 2 ^ 64 + o.length ≤ 0x100000 := by
    rcases hfits with hwrap | htop
    · omega
    · rw [Nat.mod_eq_of_lt htop] at hlast
      omega
  refine ⟨0x70000 + (o.source - (w.window + 0x70000) % 2 ^ 64) + (lo - o.diskByte), by omega,
    by omega, ?_⟩
  omega

variable {slot : ℕ} {size : ℕ}

theorem slotData_inDataSlot {off : ℕ} (hslot : slot < slotCount) (h : off + size ≤ slotBytes) :
    InDataSlot w ((slotData w slot + off) % 2 ^ 64) size := by
  refine ⟨slot, hslot, dataOff + slot * slotBytes + off, by omega, by omega, ?_⟩
  rw [slotData, Nat.mod_add_mod, add_assoc, add_assoc, add_assoc]

/-- An accepted table of 64-bit words whose sources fit. -/
structure TableFits (w : Work) (table : ℕ → Overlay) : Prop where
  valid : overlaysValid w table = true
  source : ∀ i, (table i).source < 2 ^ 64
  fits : ∀ i < w.overlayCount, SourceFits w (table i)

theorem applyOverlay_does {lba : ℕ} {o : Overlay} (ho : overlayValid w₀ o = true)
    (hsource : o.source < 2 ^ 64) (hfits : SourceFits w₀ o) (hslot : slot < slotCount)
    (hsize : size ≤ slotBytes) :
    Stays (ε := ε) record w₀ table C (applyOverlay lba (slotData w₀ slot) size o) := by
  refine does_get fun m hm => ?_
  obtain ⟨-, -, -, -, hdisk⟩ := overlayValid_bounds ho
  refine does_ite (fun hlt => ?_) fun _ => does_skip
  generalize lba * m.w.lbaBytes % 2 ^ 64 = first at hlt ⊢
  rw [Nat.mod_eq_of_lt hdisk] at hlt ⊢
  set lo := if first > o.diskByte then first else o.diskByte with hlo
  set hi := if (first + size) % 2 ^ 64 < o.diskByte + o.length then (first + size) % 2 ^ 64
    else o.diskByte + o.length with hhi
  have hread : Allowed record w₀ (.overlay ((o.source + (lo - o.diskByte)) % 2 ^ 64) (hi - lo)) :=
    overlay_inWindow ho hsource hfits (by rw [hlo]; split <;> omega)
      (by rw [hhi]; split <;> omega) hlt
  have hwrite : Allowed record w₀
      (.store ((slotData w₀ slot + (lo - first)) % 2 ^ 64) (hi - lo)) := by
    refine .inr (.inr (.inl (slotData_inDataSlot hslot ?_)))
    have hfirst : first ≤ lo := by rw [hlo]; split <;> omega
    have hend : hi ≤ (first + size) % 2 ^ 64 := by rw [hhi]; split <;> omega
    have := Nat.mod_le (first + size) (2 ^ 64)
    omega
  exact (does_note hread).bind fun _ => (does_note hwrite).bind fun _ =>
    does_quiet fun _ h =>
      ⟨{ h.1 with }, h.2⟩

theorem applyOverlaysFrom_does (htable : TableFits w₀ table) {lba : ℕ} (hslot : slot < slotCount)
    (hsize : size ≤ slotBytes) (n i : ℕ) (hn : i + n ≤ w₀.overlayCount) :
    Stays (ε := ε) record w₀ table C (applyOverlaysFrom lba (slotData w₀ slot) size n i) := by
  induction n generalizing i with
  | zero => exact does_skip
  | succ n ih =>
    refine does_get fun m hm => ?_
    rw [hm.1.table]
    have hvalid : overlayValid w₀ (table i) = true :=
      all_eq_true.mp htable.valid i (mem_range.mpr (by omega))
    exact (applyOverlay_does hvalid (htable.source i) (htable.fits i (by omega)) hslot
      hsize).bind fun _ => ih (i + 1) (by omega)

theorem applyOverlays_does (htable : TableFits w₀ table) {lba : ℕ} (hslot : slot < slotCount)
    (hsize : size ≤ slotBytes) :
    Stays (ε := ε) record w₀ table C (applyOverlays lba (slotData w₀ slot) size) := by
  refine does_get fun m hm => ?_
  rw [hm.1.same.overlayCount]
  exact applyOverlaysFrom_does htable hslot hsize _ 0 (by omega)

/-! ## Reads -/

theorem Command.bytes_length (c : Command) : c.bytes.length = 64 := by
  simp [Command.bytes]

theorem slotData_of_same (h : SameCall w₀ w) (slot : ℕ) : slotData w slot = slotData w₀ slot := by
  rw [slotData, slotData, h.window]

theorem pagePointers_inDataSlot (w₀ : Work) (hslot : slot < slotCount) (hsize : size ≤ slotBytes)
    (hpos : 0 < size) :
    ∀ p ∈ slotData w₀ slot :: pagePointers (slotData w₀ slot) ((size + page - 1) / page),
      InDataSlot w₀ p page := by
  have hpages : (size + page - 1) / page ≤ 64 := by
    simp only [page, slotBytes] at hsize ⊢
    omega
  intro p hp
  rcases mem_cons.mp hp with rfl | hp
  · have h : InDataSlot w₀ ((slotData w₀ slot + 0) % 2 ^ 64) page :=
      slotData_inDataSlot hslot (by decide)
    rwa [add_zero, slotData, Nat.mod_mod] at h
  · obtain ⟨i, hi, rfl⟩ := mem_map.mp hp
    have hi := mem_range.mp hi
    refine slotData_inDataSlot hslot ?_
    simp only [page, slotBytes] at hi hpages ⊢
    omega

theorem pointerBytes_length (data pages : ℕ) :
    ((pagePointers data pages).flatMap (Bytes.putLe 8)).length = 8 * (pages - 1) := by
  have hconst : ∀ l : List ℕ, (l.flatMap (Bytes.putLe 8)).length = 8 * l.length := by
    intro l
    induction l with
    | nil => rfl
    | cons v l ih => simp [ih, Nat.mul_succ, add_comm]
  rw [hconst, pagePointers, length_map, length_range]

theorem submit_does (hslot : slot < slotCount) :
    Does (Step record w₀)
      (fun m => Holds record w₀ table C m ∧ 0 < (m.slots slot).count ∧
        (m.slots slot).count * w₀.lbaBytes ≤ slotBytes ∧ 0 < w₀.lbaBytes ∧
        w₀.firstLba ≤ (m.slots slot).lba ∧
        (m.slots slot).lba + (m.slots slot).count ≤ w₀.firstLba + w₀.blocks)
      (submit P slot w₀.sqDb) fun _ => Holds record w₀ table C := by
  refine does_get_bind fun m hm => ?_
  obtain ⟨hm, hpos, hsize, hlba, hfirst, hlast⟩ := hm
  refine Does.pre (P := Holds record w₀ table C) ?_ fun _ h => h ▸ hm
  dsimp only
  rw [slotData_of_same hm.1.same, hm.1.same.lbaBytes, hm.1.same.window]
  generalize (m.slots slot).lba = lba at hfirst hlast ⊢
  generalize (m.slots slot).count = count at hpos hsize hlast ⊢
  have hpages : (count * w₀.lbaBytes + page - 1) / page ≤ 64 := by
    simp only [page, slotBytes] at hsize ⊢
    omega
  have hpointers := pagePointers_inDataSlot w₀ hslot hsize (Nat.mul_pos hpos hlba)
  have hprp : InPrpPage w₀ ((w₀.window + prpOff + slot * page) % 2 ^ 64)
      (8 * ((count * w₀.lbaBytes + page - 1) / page - 1)) := by
    refine ⟨slot, hslot, prpOff + slot * page, le_refl _, ?_, by rw [add_assoc]⟩
    simp only [page] at hpages ⊢
    omega
  have hlength := pointerBytes_length (slotData w₀ slot)
    ((count * w₀.lbaBytes + page - 1) / page)
  generalize (count * w₀.lbaBytes + page - 1) / page = pages at *
  refine (does_when fun _ => does_store (.inr (.inl (hlength ▸ hprp)))).bind fun _ => ?_
  refine (does_store ?_).bind fun _ => (does_note ?_).bind fun _ =>
    (does_setSlot ?_).bind fun _ => (does_setWork ?_ ?_).bind fun _ => ?_
  · refine .inl ⟨0x2000 + m.w.tail * 64, by omega, ?_, by rw [add_assoc]⟩
    have := hm.1.tail
    simp only [Command.bytes_length, entries] at this ⊢
    omega
  · refine ⟨rfl, hfirst, ?_, mem_cons_self, ?_, hpointers⟩
    · have := Nat.mod_le (count - 1) (2 ^ 32)
      show lba + ((count - 1) % 2 ^ 32 + 1) ≤ _
      omega
    · by_cases htwo : pages = 2
      · subst htwo
        refine .inr (.inl (mem_cons_of_mem _ ?_))
        simp only [if_true]
        exact mem_map.mpr ⟨0, mem_range.mpr (by decide), by rw [zero_add, mul_one]⟩
      · by_cases hmany : pages > 2
        · obtain ⟨i, hi, off, hlo, hhi, heq⟩ := hprp
          simp only [if_neg htwo, if_pos hmany]
          exact .inr (.inr ⟨i, hi, off, hlo, by omega, heq⟩)
        · exact .inl (by simp only [if_neg htwo, if_neg hmany])
  · exact fun _ => rfl
  · exact fun _ h => h
  · exact fun _ _ => Nat.mod_lt _ (by decide)
  · exact does_get fun _ _ => does_store32 P (.inl rfl)

theorem reap_does : Stays record w₀ table C (reap P w₀.cqDb) := by
  refine does_get fun m hm => ?_
  refine (does_load32 P _).bind fun dw3 => does_cond ?_ ?_
  · exact (does_look P).bind fun _ => does_get fun _ _ => does_skip
  · refine (does_setWork ?_ ?_).bind fun _ => does_get fun m' _ => ?_
    · exact fun _ h => h
    · exact fun _ h => h
    cases findSlot m'.slots (dw3 % 2 ^ 16) with
    | none => exact does_skip
    | some i =>
      refine (does_load32 P _).bind fun dw2 => does_ite (fun _ => does_skip)
        fun _ => ?_
      refine (does_setWork ?_ ?_).bind fun _ =>
        (does_store32 P (.inr rfl)).bind fun _ => does_ite (fun _ => does_skip)
          fun _ => (does_setSlot ?_).bind fun _ => does_skip
      · exact fun _ h => h
      · exact fun _ h => h
      · exact fun _ => rfl

theorem await_does (slot fuel : ℕ) : Stays record w₀ table C (await P slot w₀.cqDb fuel) := by
  induction fuel with
  | zero => exact does_stop
  | succ fuel ih =>
    refine does_get fun m _ => ?_
    refine does_cond does_skip ?_
    refine (reap_does P).bind fun result => does_ite (fun _ => does_skip) fun _ =>
      does_cond ?_ ih
    refine (does_look P).bind fun _ => does_get fun m' _ => ?_
    exact does_cond does_skip ih

/-! ## The loop -/

/-- The slots of the transfers from `hashed` to `submitted` hold transfers of legal size. -/
def Filled (w₀ : Work) (hashed submitted : ℕ) (count : ℕ → ℕ) : Prop :=
  submitted ≤ hashed + slotCount ∧ ∀ k, hashed ≤ k → k < submitted → count (k % slotCount) ≤ w₀.per

theorem Filled.submit {hashed submitted : ℕ} {count : ℕ → ℕ} {n : ℕ}
    (h : Filled w₀ hashed submitted count) (hroom : submitted - hashed < slotCount)
    (hle : hashed ≤ submitted) (hn : n ≤ w₀.per) :
    Filled w₀ hashed (submitted + 1) (Function.update count (submitted % slotCount) n) := by
  refine ⟨by omega, fun k hk hlt => ?_⟩
  by_cases heq : k % slotCount = submitted % slotCount
  · rw [heq, update_self]
    exact hn
  · rw [update_of_ne heq]
    have hne : k ≠ submitted := fun h => heq (h ▸ rfl)
    exact h.2 k hk (by omega)

theorem readAhead_does (hw : Checked w₀) (hnsze : w₀.nsze < 2 ^ 64) {total hashed : ℕ}
    (htotal : total = (w₀.blocks + w₀.per - 1) / w₀.per) (n submitted : ℕ)
    (hle : hashed ≤ submitted) :
    Does (Step record w₀) (Holds record w₀ table (Filled w₀ hashed submitted))
      (readAhead P total hashed w₀.sqDb n submitted) fun submitted' m =>
        (submitted ≤ submitted' ∧ (0 < n → hashed < total → hashed < submitted')) ∧
          Holds record w₀ table (Filled w₀ hashed submitted') m := by
  induction n generalizing submitted with
  | zero => exact does_pure fun _ h => ⟨⟨le_refl _, fun h0 => absurd h0 (lt_irrefl 0)⟩, h⟩
  | succ n ih =>
    refine does_ite (fun hmore => ?_) fun hfull => does_pure fun _ h =>
      ⟨⟨le_refl _, fun _ htodo => ?_⟩, h⟩
    swap
    · by_contra hnot
      have heq : submitted = hashed := by omega
      exact hfull ⟨heq ▸ htodo, by rw [heq, Nat.sub_self]; decide⟩
    obtain ⟨hpos, hlast, hper⟩ := hw.transfer (htotal ▸ hmore.1)
    refine does_get_bind fun m hm => ?_
    refine Does.bind (Q := fun _ m' =>
      Holds record w₀ table (Filled w₀ hashed (submitted + 1)) m' ∧
        0 < (m'.slots (submitted % slotCount)).count ∧
        (m'.slots (submitted % slotCount)).count * w₀.lbaBytes ≤ slotBytes ∧ 0 < w₀.lbaBytes ∧
        w₀.firstLba ≤ (m'.slots (submitted % slotCount)).lba ∧
        (m'.slots (submitted % slotCount)).lba + (m'.slots (submitted % slotCount)).count ≤
          w₀.firstLba + w₀.blocks) ?_ fun _ =>
      (submit_does P (Nat.mod_lt _ (by decide))).bind fun _ =>
        (ih (submitted + 1) (by omega)).post fun _ _ h =>
          ⟨⟨by omega, fun _ _ => by omega⟩, h.2⟩
    refine does_quiet fun m' heq => ?_
    rw [heq]
    have hroom : hashed ≤ submitted ∧ submitted - hashed < slotCount := ⟨hle, hmore.2⟩
    have hlba : 0 < w₀.lbaBytes := by rcases hw.lbaBytes with h | h <;> omega
    have hbound : w₀.firstLba + submitted * w₀.per < 2 ^ 64 := by
      have := hw.range
      omega
    have hcounts : (fun i => (Function.update m.slots (submitted % slotCount)
        { m.slots (submitted % slotCount) with
          lba := (m.w.firstLba + submitted * m.w.per) % 2 ^ 64
          count := if m.w.blocks - submitted * m.w.per < m.w.per
            then m.w.blocks - submitted * m.w.per else m.w.per } i).count) =
        Function.update (fun i => (m.slots i).count) (submitted % slotCount)
          (if w₀.blocks - submitted * w₀.per < w₀.per then w₀.blocks - submitted * w₀.per
            else w₀.per) := by
      funext i
      rw [hm.1.same.per, hm.1.same.blocks]
      by_cases hi : i = submitted % slotCount
      · rw [hi, update_self, update_self]
      · rw [update_of_ne hi, update_of_ne hi]
    refine ⟨⟨{ hm.1 with }, ?_⟩, ?_⟩
    · rw [hcounts]
      exact hm.2.submit hroom.2 hroom.1 hper
    · simp only [update_self]
      rw [hm.1.same.per, hm.1.same.blocks, hm.1.same.firstLba, Nat.mod_eq_of_lt hbound]
      exact ⟨hpos, (Nat.mul_le_mul_right _ hper).trans hw.per_le, hlba, by omega, by omega⟩

theorem hashSlot_does (sha2 : Bool) (hw : Checked w₀) (htable : TableFits w₀ table)
    {hashed submitted : ℕ} (hlt : hashed < submitted) :
    Does (Step record w₀) (Holds record w₀ table (Filled w₀ hashed submitted))
      (hashSlot P sha2 (hashed % slotCount)) fun _ =>
        Holds record w₀ table (Filled w₀ (hashed + 1) submitted) := by
  refine does_get fun m hm => ?_
  have hsize : (m.slots (hashed % slotCount)).count * w₀.lbaBytes ≤ slotBytes :=
    (Nat.mul_le_mul_right _ (hm.2.2 hashed (Nat.le_refl _) hlt)).trans hw.per_le
  rw [slotData_of_same hm.1.same, hm.1.same.lbaBytes]
  refine (does_look P).bind fun _ =>
    (applyOverlays_does htable (Nat.mod_lt _ (by decide)) hsize).bind fun _ =>
      does_get fun m' _ => ?_
  refine (does_setHash _ fun w => w.digest).bind fun _ => (does_setSlot ?_).bind fun _ =>
    (does_setWork ?_ ?_).post fun _ m'' h => ⟨h.1, ?_, ?_⟩
  · exact fun _ => rfl
  · exact fun _ h => h
  · exact fun _ h => h
  · exact h.2.1.trans (by omega)
  · exact fun k hk hk' => h.2.2 k (by omega) hk'

theorem hashLoop_does (sha2 : Bool) (hw : Checked w₀) (hnsze : w₀.nsze < 2 ^ 64)
    (htable : TableFits w₀ table) {total : ℕ} (htotal : total = (w₀.blocks + w₀.per - 1) / w₀.per)
    (fuel n hashed submitted : ℕ) (hn : hashed + n = total) (hle : hashed ≤ submitted) :
    Does (Step record w₀) (Holds record w₀ table (Filled w₀ hashed submitted))
      (hashLoop P sha2 total w₀.sqDb w₀.cqDb fuel n hashed submitted) fun _ =>
        Holds record w₀ table fun _ => True := by
  induction n generalizing hashed submitted with
  | zero => exact does_pure fun _ h => ⟨h.1, trivial⟩
  | succ n ih =>
    refine (readAhead_does P hw hnsze htotal slotCount submitted hle).bind fun submitted' => ?_
    refine does_of_forall fun m hm => ?_
    obtain ⟨⟨-, hlt⟩, hm⟩ := hm
    have hlt := hlt (by decide) (by omega)
    refine Does.pre (P := Holds record w₀ table (Filled w₀ hashed submitted')) ?_
      fun _ h => h ▸ hm
    refine (await_does P _ _).bind fun status => does_ite
      (fun _ => does_pure fun _ h => ⟨h.1, trivial⟩) fun _ => ?_
    exact (hashSlot_does P sha2 hw htable hlt).bind fun _ =>
      ih (hashed + 1) submitted' (by omega) hlt

theorem finish_does (status : ℕ) (final : Bool) :
    Stays (ε := ε) record w₀ table (fun _ => True) (finish status final) := by
  refine (does_when fun _ => does_setHash _ _).bind fun _ => (does_setWork ?_ ?_).bind fun _ =>
    does_get fun m hm => ?_
  · exact fun _ h => h
  · exact fun _ h => h
  rw [hm.1.record, hm.1.same.window]
  refine (does_when fun hrecord => does_note ?_).bind fun _ => does_skip
  exact .inr (.inr (.inr (.inr ⟨hrecord, rfl, rfl⟩)))

end

/-! ## Calls -/

/-- The machine before a call: a record and a table of 64-bit words, and nothing done yet. -/
structure Fresh (m : Machine ε) : Prop where
  nsze : m.w.nsze < 2 ^ 64
  source : ∀ i, (m.table i).source < 2 ^ 64
  accesses : m.accesses = []

/-- A byte that the helper or the controller may store to, the telemetry behind the record apart:
of the two queues, the PRP pages, the data slots and the doorbells. -/
def Written (w : Work) (a : ℕ) : Prop :=
  InWindow w 0x2000 0x4000 a 1 ∨ InPrpPage w a 1 ∨ InDataSlot w a 1 ∨
    ∃ k < 4, a = (w.sqDb + k) % 2 ^ 64 ∨ a = (w.cqDb + k) % 2 ^ 64

/-- The record and the overlay table lie apart from each other and from all of that. -/
structure Apart (m : Machine ε) : Prop where
  record : ∀ k < recordBytes, ¬Written m.w ((m.record + k) % 2 ^ 64)
  table : ∀ k < overlayBytes * m.w.overlayCount, ¬Written m.w ((m.w.overlayTable + k) % 2 ^ 64)
  between : ∀ j < telemetryOff + telemetryBytes, ∀ k < overlayBytes * m.w.overlayCount,
    (m.record + j) % 2 ^ 64 ≠ (m.w.overlayTable + k) % 2 ^ 64

/-- A store leaves the record and the overlay table alone. -/
def Access.Spares (m : Machine ε) : Access → Prop
  | .store address size => ∀ i < size,
    (∀ k < recordBytes, (address + i) % 2 ^ 64 ≠ (m.record + k) % 2 ^ 64) ∧
      ∀ k < overlayBytes * m.w.overlayCount,
        (address + i) % 2 ^ 64 ≠ (m.w.overlayTable + k) % 2 ^ 64
  | _ => True

theorem InWindow.byte {lo hi address size i : ℕ} (h : InWindow w lo hi address size)
    (hlt : i < size) : InWindow w lo hi ((address + i) % 2 ^ 64) 1 := by
  obtain ⟨off, hlo, hhi, rfl⟩ := h
  exact ⟨off + i, by omega, by omega, by rw [Nat.mod_add_mod, add_assoc]⟩

theorem Allowed.spares {m : Machine ε} {a : Access} (h : Allowed m.record m.w a) (hm : Apart m) :
    a.Spares m := by
  cases a with
  | overlay => trivial
  | command => trivial
  | store address size =>
    intro i hi
    by_cases htelemetry : address = (m.record + telemetryOff) % 2 ^ 64 ∧ size = telemetryBytes
    · obtain ⟨hstart, hsize⟩ := htelemetry
      rw [hsize] at hi
      rw [hstart, Nat.mod_add_mod, add_assoc]
      refine ⟨fun k hk => ?_, hm.between _ (Nat.add_lt_add_left hi _)⟩
      simp only [telemetryOff, telemetryBytes, recordBytes] at hi hk ⊢
      omega
    · have hwritten : Written m.w ((address + i) % 2 ^ 64) := by
        rcases h with h | ⟨slot, hslot, h⟩ | ⟨slot, hslot, h⟩ | ⟨rfl, rfl | rfl⟩ |
          ⟨-, hsize, haddress⟩
        · obtain ⟨off, hlow, hhigh, heq⟩ := h.byte hi
          exact .inl ⟨off, hlow, hhigh.trans (by decide), heq⟩
        · exact .inr (.inl ⟨slot, hslot, h.byte hi⟩)
        · exact .inr (.inr (.inl ⟨slot, hslot, h.byte hi⟩))
        · exact .inr (.inr (.inr ⟨i, hi, .inl rfl⟩))
        · exact .inr (.inr (.inr ⟨i, hi, .inr rfl⟩))
        · exact absurd ⟨haddress, hsize⟩ htelemetry
      exact ⟨fun k hk heq => hm.record k hk (heq ▸ hwritten),
        fun k hk heq => hm.table k hk (heq ▸ hwritten)⟩

theorem nvmeHashRun_does (P : Platform ε) (fuel : ℕ) (reset final : Bool) (m : Machine ε)
    (hm : Fresh m) (hfits : ∀ i < m.w.overlayCount, SourceFits m.w (m.table i)) :
    Does (Step m.record m.w) (fun s => s = m) (nvmeHashRun P fuel reset final) fun _ _ => True := by
  refine Does.bind (Q := fun _ s => s = { m with w := { m.w with status := 1, doneBlocks := 0 } })
    ?_ fun _ => ?_
  · refine does_quiet ?_
    rintro _ rfl
    rfl
  refine does_get_bind fun s hs => ?_
  subst hs
  refine does_ite (fun _ => does_pure fun _ _ => trivial) fun hvalid => ?_
  obtain ⟨hchecked, htail⟩ := checked_of_valid (by simpa using hvalid)
  have hw : Checked m.w := { hchecked with }
  refine Does.pre (P := Holds m.record m.w m.table fun _ => True) ?_ ?_
  swap
  · rintro _ rfl
    exact ⟨⟨rfl, htail, rfl, rfl⟩, trivial⟩
  refine does_ite (fun _ => (finish_does 6 final).post fun _ _ _ => trivial) fun htable => ?_
  refine (does_when fun _ => does_setHash _ fun w => w.digest).bind fun _ => ?_
  refine Does.bind (Q := fun _ => Holds m.record m.w m.table (Filled m.w 0 0)) ?_ fun _ => ?_
  · exact does_quiet fun s h =>
      ⟨{ h.1 with }, Nat.zero_le _, fun k _ hk => by omega⟩
  refine Does.bind (Q := fun _ => Holds m.record m.w m.table fun _ => True) ?_ fun status =>
    (finish_does status final).post fun _ _ _ => trivial
  by_cases hblocks : m.w.blocks = 0
  · -- A call for no blocks makes no turn of the loop.
    have htotal : (m.w.blocks + m.w.per - 1) / m.w.per = 0 := by
      rw [hblocks, zero_add]
      exact Nat.div_eq_of_lt (Nat.sub_lt hw.per_pos Nat.one_pos)
    show Does _ _ (hashLoop P _ _ _ _ fuel ((m.w.blocks + m.w.per - 1) / m.w.per) 0 0) _
    rw [htotal]
    exact does_pure fun _ h => ⟨h.1, trivial⟩
  · have hall : overlaysValid m.w m.table = true := by
      by_contra hnot
      have hfalse : overlaysValid m.w m.table = false := by simpa using hnot
      refine htable ⟨hblocks, ?_⟩
      show (!overlaysValid m.w m.table) = true
      rw [hfalse]
      rfl
    exact hashLoop_does P _ hw hm.nsze ⟨hall, hm.source, hfits⟩ rfl fuel _ 0 0 (zero_add _)
      (le_refl _)

/-- Whatever the platform does, however long a call is watched and whatever its record holds,
every access of the call is allowed and spares the record and the table, if these lie apart
from what is stored to and no overlay's source reaches the top of memory. -/
theorem nvmeHashRun_confined (P : Platform ε) (fuel : ℕ) (reset final : Bool) (m : Machine ε)
    (hm : Fresh m) (hapart : Apart m)
    (hfits : ∀ i < m.w.overlayCount, SourceFits m.w (m.table i)) :
    ∀ a ∈ (nvmeHashRun P fuel reset final m).2.accesses, Allowed m.record m.w a ∧ a.Spares m := by
  suffices h : ∀ a ∈ (nvmeHashRun P fuel reset final m).2.accesses, Allowed m.record m.w a from
    fun a ha => ⟨h a ha, (h a ha).spares hapart⟩
  refine steps_keep (I := fun s : Machine ε => ∀ a ∈ s.accesses, Allowed m.record m.w a) ?_
    (nvmeHashRun_does P fuel reset final m hm hfits m rfl).1 ?_
  · intro s t hstep hs a ha
    exact (hstep a ha).elim (hs a) id
  · simp [hm.accesses]

/-- A platform whose controller has always just completed command 1. -/
def oneRead : Platform Unit where
  act _ m := ((), m.store 0x80003008 [0, 0, 1, 0, 1, 0, 1, 0])
  ring _ _ _ _ := ()
  csts _ := 0
  late _ := false
  currentEl := 1
  isar0 := 0
  pfr0 := 0
  hcr := 0
  cptr := 0
  vectors _ := ⟨0, 0, 0, 0⟩

/-- A call for one block of 512 bytes under one overlay of the disk's first bytes. -/
def oneBlock (source length : ℕ) : Machine Unit where
  record := 0x80060000
  w :=
    { magic := magic, bar := 0x40000000, window := 0x80000000, firstLba := 0, blocks := 1
      lbaBytes := 512, maxTransfer := 4096, nsze := 64, tail := 0, head := 0, phase := 1
      nextCid := 1, stride := 0, ioEntries := 64, status := 0, doneBlocks := 0
      lastCompletion := 0, commands := 0, overlayTable := 0x80061000, overlayCount := 1
      sha := ⟨Sha256.initial, 0, fun _ => 0⟩, digest := [] }
  table _ := ⟨0, source, length⟩
  memory _ := 0
  world := ()

theorem oneBlock_fresh {source : ℕ} (h : source < 2 ^ 64) (length : ℕ) :
    Fresh (oneBlock source length) :=
  ⟨by show 64 < 2 ^ 64; decide, fun _ => h, rfl⟩

theorem oneBlock_apart (source length : ℕ) : Apart (oneBlock source length) := by
  have hclear : ∀ a, 0x80060000 ≤ a → a < 0x80061018 →
      ¬Written (oneBlock source length).w a := by
    rintro a hlow hhigh (⟨off, h⟩ | ⟨slot, hslot, off, h⟩ | ⟨slot, hslot, off, h⟩ | ⟨k, hk, h⟩)
    · simp only [oneBlock] at h
      omega
    · simp only [oneBlock, slotCount, prpOff, page] at hslot h
      omega
    · simp only [oneBlock, slotCount, dataOff, slotBytes] at hslot h
      omega
    · simp only [oneBlock, Work.sqDb, Work.cqDb] at h
      omega
  refine ⟨fun k hk => ?_, fun k hk => ?_, fun j hj k hk => ?_⟩ <;>
    simp only [oneBlock, recordBytes, overlayBytes, telemetryOff, telemetryBytes] at *
  · exact hclear _ (by omega) (by omega)
  · exact hclear _ (by omega) (by omega)
  · omega

/-- A call whose overlay lies in the staging part, with the read of its bytes. -/
theorem nvmeHashRun_confined_staged :
    .overlay 0x80070000 512 ∈
      (nvmeHashRun oneRead 4 true true (oneBlock 0x80070000 512)).2.accesses ∧
      ∀ a ∈ (nvmeHashRun oneRead 4 true true (oneBlock 0x80070000 512)).2.accesses,
        Allowed 0x80060000 (oneBlock 0x80070000 512).w a ∧ a.Spares (oneBlock 0x80070000 512) :=
  ⟨by decide +kernel, nvmeHashRun_confined oneRead 4 true true (oneBlock 0x80070000 512)
    (oneBlock_fresh (by decide) 512) (oneBlock_apart _ _) fun _ _ =>
      .inr (by show 0x80070000 + 512 < 2 ^ 64; decide)⟩

/-- An overlay whose source reaches past the top of memory passes the check on its end, and
its bytes are read from outside the window. -/
theorem nvmeHashRun_source_wraps :
    Fresh (oneBlock 0xfffffffffffff000 0x1001) ∧
      ¬∀ a ∈ (nvmeHashRun oneRead 4 true true (oneBlock 0xfffffffffffff000 0x1001)).2.accesses,
        Allowed 0x80060000 (oneBlock 0xfffffffffffff000 0x1001).w a := by
  refine ⟨oneBlock_fresh (by decide) _, fun h => ?_⟩
  obtain ⟨off, hlo, hhi, heq⟩ := h (.overlay 0xfffffffffffff000 512) (by decide +kernel)
  simp only [oneBlock] at heq
  omega

end Q1n1.NvmeHash
