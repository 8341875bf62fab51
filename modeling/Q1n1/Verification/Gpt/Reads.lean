import Q1n1.Library.Attempt
import Q1n1.Model.Gpt.Reads

/-! # The reads of a survey stay on the disk -/

namespace Q1n1.Gpt

open List

/-! ## Places and flags -/

theorem flag_and_flag (t t' : Target) : t.flag &&& t'.flag ≠ 0 ↔ t' = t := by
  rcases t with _ | ⟨_ | _⟩ | ⟨_ | _⟩ <;> rcases t' with _ | ⟨_ | _⟩ | ⟨_ | _⟩ <;> decide

theorem or_and_flag (flags flag : ℕ) (t : Target) :
    (flags ||| flag) &&& t.flag ≠ 0 ↔ flags &&& t.flag ≠ 0 ∨ flag &&& t.flag ≠ 0 := by
  rw [Nat.and_or_distrib_right, Ne, Nat.or_eq_zero_iff, not_and_or]

theorem Disk.at_put (d : Disk) (data : List UInt8) (t t' : Target) :
    (d.put data t).at t' = if t' = t then data else d.at t' := by
  rcases t with _ | ⟨_ | _⟩ | ⟨_ | _⟩ <;> rcases t' with _ | ⟨_ | _⟩ | ⟨_ | _⟩ <;> rfl

theorem Disk.put_flags (d : Disk) (data : List UInt8) (t : Target) :
    (d.put data t).flags = d.flags ∧ (d.put data t).reads = d.reads ∧
      (d.put data t).blockSize = d.blockSize ∧ (d.put data t).lastBlock = d.lastBlock := by
  rcases t with _ | ⟨_ | _⟩ | ⟨_ | _⟩ <;> exact ⟨rfl, rfl, rfl, rfl⟩

theorem and_flag_eq_zero {flags : ℕ} (h : flags &&& 31 = 0) (t : Target) :
    flags &&& t.flag = 0 := by
  have hflag : 31 &&& t.flag = t.flag := by rcases t with _ | ⟨_ | _⟩ | ⟨_ | _⟩ <;> rfl
  rw [← hflag, ← Nat.and_assoc, h, Nat.zero_and]

theorem arrayExtent_error {h : List UInt8} {bs lb flag : ℕ} {c : Copy}
    (he : arrayExtent h bs lb c.flags.2.2 = .error flag) : flag &&& 31 = 0 := by
  have hnotGpt : c.flags.2.2 &&& 31 = 0 := by cases c <;> rfl
  simp only [arrayExtent] at he
  split at he
  · cases he
    exact hnotGpt
  split at he
  · cases he
    exact hnotGpt
  split at he
  · cases he
    rfl
  split at he
  · cases he
    rfl
  · cases he

theorem arrayExtent_ok {h : List UInt8} {bs lb notGpt lba bytes : ℕ}
    (he : arrayExtent h bs lb notGpt = .ok (lba, bytes)) (hbytes : bytes ≠ 0) :
    le 4 80 h * le 4 84 h ≤ bytes := by
  simp only [arrayExtent] at he
  generalize le 4 80 h = count, le 4 84 h = size at he ⊢
  split at he
  · cases he
  split at he
  · cases he
  split at he
  · cases he
  split at he
  · cases he
  obtain ⟨-, rfl⟩ := Prod.mk.inj (Except.ok.inj he)
  have hpos : 0 < bs := pos_of_ne_zero fun h => hbytes (by rw [h, mul_zero])
  have hlt := Nat.lt_div_mul_add hpos (a := count * size + bs - 1)
  omega

theorem copyPathFrom_fits (path : ℕ → UInt8) (n : ℕ) {out : List UInt8} {flags : ℕ}
    (hout : out.length ≤ pathBytes) (hflags : flags &&& 31 = 0) :
    (copyPathFrom path n out flags).1.length ≤ pathBytes ∧
      (copyPathFrom path n out flags).2 &&& 31 = 0 := by
  have hor {flags flag : ℕ} (hflags : flags &&& 31 = 0) (hflag : flag &&& 31 = 0) :
      (flags ||| flag) &&& 31 = 0 := by
    rw [Nat.and_or_distrib_right, hflags, hflag, Nat.or_zero]
  induction n generalizing out flags with
  | zero => exact ⟨hout, hor hflags rfl⟩
  | succ n ih =>
    simp only [copyPathFrom]
    split
    · exact ⟨hout, hor hflags rfl⟩
    rename_i hroom
    have hnew : (if path (out.length + 0) = 3 ∧ path (out.length + 1) = 0x17 then
        flags ||| nvmePath else flags) &&& 31 = 0 := by
      split
      · exact hor hflags rfl
      · exact hflags
    split
    · exact ⟨by simp; omega, hnew⟩
    · exact ih (by simp; omega) hnew

/-! ## What a survey has done -/

/-- The range that a place is read from. -/
def Issued.Asks (bs lb : ℕ) (d : Disk) (r : Issued) : Prop :=
  match r.target with
  | .lba0 => r.lba = 0 ∧ r.bytes = bs
  | .header .primary => r.lba = 1 ∧ r.bytes = bs
  | .header .backup => r.lba = lb ∧ r.bytes = bs
  | .array c => arrayExtent (d.at (.header c)) bs lb c.flags.2.2 = .ok (r.lba, r.bytes)

/-- How many bytes a place has to hold: a block, or the entries that a header counts. -/
def Disk.extent (d : Disk) : Target → ℕ
  | .array c => le 4 80 (d.at (.header c)) * le 4 84 (d.at (.header c))
  | _ => d.blockSize

/-- Whole blocks of the disk, which fit their place and the buffer they pass through. -/
structure Issued.Inside (bs lb : ℕ) (r : Issued) : Prop where
  some_bytes : r.bytes ≠ 0
  whole : r.bytes % bs = 0
  on_disk : r.lba + r.bytes / bs ≤ lb + 1
  fits : r.bytes ≤ r.target.capacity
  passes : r.bytes ≤ arrayBytes

/-- The invariant of a survey whose reads were all for the places in `done`. -/
structure Sound (bs lb : ℕ) (done : List Target) (s : Survey) : Prop where
  blockSize : s.disk.blockSize = bs
  lastBlock : s.disk.lastBlock = lb
  path : s.path.length ≤ pathBytes
  reads : s.issued.length = s.disk.reads
  bounded : s.disk.reads ≤ 5
  inside : ∀ r ∈ s.issued, r.Inside bs lb
  asks : ∀ r ∈ s.issued, r.Asks bs lb s.disk
  targets : ∀ r ∈ s.issued, r.target ∈ done
  flags : ∀ t : Target, s.disk.flags &&& t.flag ≠ 0 ↔
    ∃ r ∈ s.issued, r.target = t ∧ r.answer = .ok (s.disk.at t)

variable {io : BlockIo} {bs lb lba bytes : ℕ} {done done' : List Target} {t : Target}
  {s s' : Survey}

theorem Issued.Asks.congr {d d' : Disk} {r : Issued} (hr : r.Asks bs lb d)
    (h : ∀ c, r.target = .array c → d'.at (.header c) = d.at (.header c)) : r.Asks bs lb d' := by
  rcases r with ⟨lba, bytes, _ | ⟨_ | _⟩ | c, answer⟩
  · exact hr
  · exact hr
  · exact hr
  · simp only [Issued.Asks, h c rfl] at hr ⊢
    exact hr

theorem Issued.Asks.extent_le {d : Disk} {r : Issued} (hr : r.Asks bs lb d) (hin : r.Inside bs lb)
    (hblock : d.blockSize = bs) : d.extent r.target ≤ r.bytes := by
  rcases r with ⟨lba, bytes, _ | ⟨_ | _⟩ | c, answer⟩
  · exact (hblock.trans hr.2.symm).le
  · exact (hblock.trans hr.2.symm).le
  · exact (hblock.trans hr.2.symm).le
  · exact arrayExtent_ok hr hin.some_bytes

/-- A step that leaves what was captured alone: it may read a place of `done'` and set the place's
flag. -/
theorem Sound.step (hs : Sound bs lb done s) (hsub : done ⊆ done') {new : List Issued}
    (hissued : s'.issued = s.issued ++ new) (hblock : s'.disk.blockSize = s.disk.blockSize)
    (hlast : s'.disk.lastBlock = s.disk.lastBlock) (hpath : s'.path = s.path)
    (hreads : s'.disk.reads = s.disk.reads + new.length) (hbounded : s'.disk.reads ≤ 5)
    (hat : ∀ t ∈ done, s'.disk.at t = s.disk.at t)
    (hheader : ∀ c, .array c ∈ done → s'.disk.at (.header c) = s.disk.at (.header c))
    (hnew : ∀ r ∈ new, r.Inside bs lb ∧ r.Asks bs lb s'.disk ∧ r.target ∈ done')
    (hflags : ∀ t : Target, s'.disk.flags &&& t.flag ≠ 0 ↔ s.disk.flags &&& t.flag ≠ 0 ∨
      ∃ r ∈ new, r.target = t ∧ r.answer = .ok (s'.disk.at t)) :
    Sound bs lb done' s' where
  blockSize := hblock.trans hs.blockSize
  lastBlock := hlast.trans hs.lastBlock
  path := hpath ▸ hs.path
  reads := by rw [hissued, length_append, hs.reads, hreads]
  bounded := hbounded
  inside := by
    rw [hissued]
    exact forall_mem_append.mpr ⟨hs.inside, fun r hr => (hnew r hr).1⟩
  asks := by
    rw [hissued]
    refine forall_mem_append.mpr ⟨fun r hr => ?_, fun r hr => (hnew r hr).2.1⟩
    exact (hs.asks r hr).congr fun c hc => hheader c (hc ▸ hs.targets r hr)
  targets := by
    rw [hissued]
    exact forall_mem_append.mpr
      ⟨fun r hr => hsub (hs.targets r hr), fun r hr => (hnew r hr).2.2⟩
  flags := by
    intro t
    have hold : (∃ r ∈ s.issued, r.target = t ∧ r.answer = .ok (s.disk.at t)) ↔
        ∃ r ∈ s.issued, r.target = t ∧ r.answer = .ok (s'.disk.at t) := by
      refine exists_congr fun r => and_congr_right fun hr => and_congr_right fun ht => ?_
      rw [hat t (ht ▸ hs.targets r hr)]
    rw [hflags, hs.flags, hold, hissued]
    simp only [mem_append, or_and_right, exists_or]

namespace Survey

theorem inside_of_not_refuses {d : Disk} (answer : Except ℕ (List UInt8))
    (hblock : d.blockSize = bs) (hlast : d.lastBlock = lb) (h : ¬d.Refuses lba bytes t) :
    d.reads < 5 ∧ Issued.Inside bs lb ⟨lba, bytes, t, answer⟩ := by
  simp only [Disk.Refuses, not_or, hblock, hlast] at h
  obtain ⟨hreads, hbytes, hcapacity, hpasses, hwhole, hlba, hroom⟩ := h
  exact ⟨by omega, hbytes, not_not.mp hwhole, by dsimp only; omega, not_lt.mp hcapacity,
    not_lt.mp hpasses⟩

theorem read_sound (ht : t ∉ done) (hheader : ∀ c, t = .header c → .array c ∉ done) :
    Meets (fun s => Sound bs lb done s ∧
        Issued.Asks bs lb s.disk ⟨lba, bytes, t, io.read lba bytes⟩)
      (read io lba bytes t) (fun _ => Sound bs lb (t :: done))
      fun _ s => ∃ done, Sound bs lb done s := by
  rintro s ⟨hs, hask⟩
  by_cases hrefused : s.disk.Refuses lba bytes t
  · simp only [read, if_pos hrefused]
    exact ⟨done, hs⟩
  obtain ⟨hreads, hinside⟩ :=
    inside_of_not_refuses (io.read lba bytes) hs.blockSize hs.lastBlock hrefused
  have hsub : done ⊆ t :: done := subset_cons_self t done
  cases hanswer : io.read lba bytes with
  | error status =>
    rw [hanswer] at hask hinside
    simp only [read, if_neg hrefused, hanswer]
    refine ⟨t :: done, hs.step hsub rfl rfl rfl rfl rfl hreads (fun _ _ => rfl)
      (fun _ _ => rfl) ?_ ?_⟩
    · exact forall_mem_singleton.mpr ⟨hinside, hask, mem_cons_self⟩
    · simp
  | ok data =>
    rw [hanswer] at hask hinside
    simp only [read, if_neg hrefused, hanswer]
    have hat (t' : Target) :
        ((({ s.disk with reads := s.disk.reads + 1 } : Disk).put data t).withFlag t.flag).at t' =
          if t' = t then data else s.disk.at t' :=
      Disk.at_put { s.disk with reads := s.disk.reads + 1 } data t t'
    obtain ⟨hflags, hcount, hblock, hlast⟩ :=
      Disk.put_flags { s.disk with reads := s.disk.reads + 1 } data t
    refine hs.step hsub rfl hblock hlast rfl hcount (hcount.trans_le hreads) ?_ ?_ ?_ ?_
    · intro t' ht'
      rw [hat, if_neg (ne_of_mem_of_not_mem ht' ht)]
    · intro c hc
      rw [hat, if_neg fun heq => hheader c heq.symm hc]
    · refine forall_mem_singleton.mpr ⟨hinside, hask.congr fun c hc => ?_, mem_cons_self⟩
      rw [hat, if_neg fun heq => ?_]
      cases heq.trans hc
    · intro t'
      rw [Disk.withFlag, or_and_flag, hflags, flag_and_flag]
      refine or_congr_right ⟨?_, ?_⟩
      · rintro rfl
        have hself := hat t'
        rw [if_pos rfl] at hself
        exact ⟨_, mem_singleton_self _, rfl, congrArg Except.ok hself.symm⟩
      · rintro ⟨r, hr, rfl, -⟩
        rw [mem_singleton.mp hr]

theorem array_sound {c : Copy} (ht : .array c ∉ done) :
    Meets (Sound bs lb done) (array io c) (fun _ => Sound bs lb (.array c :: done))
      fun _ s => ∃ done, Sound bs lb done s := by
  intro s hs
  cases hext : arrayExtent (s.disk.block c) s.disk.blockSize s.disk.lastBlock c.flags.2.2 with
  | error flag =>
    simp only [array, hext]
    refine hs.step (subset_cons_self _ done) (append_nil _).symm rfl rfl rfl rfl hs.bounded
      (fun _ _ => rfl) (fun _ _ => rfl) (by simp) fun t => ?_
    rw [Disk.withFlag, or_and_flag, and_flag_eq_zero (arrayExtent_error hext)]
    simp
  | ok extent =>
    obtain ⟨lba, bytes⟩ := extent
    simp only [array, hext]
    rw [hs.blockSize, hs.lastBlock] at hext
    have hat (t : Target) (hne : t ≠ .array c) :
        (s.disk.put (replicate bytes 0) (.array c)).at t = s.disk.at t := by
      rw [Disk.at_put, if_neg hne]
    obtain ⟨hflags, hcount, hblock, hlast⟩ :=
      s.disk.put_flags (replicate bytes 0) (.array c)
    have hzeros : Sound bs lb done
        { s with disk := s.disk.put (replicate bytes 0) (.array c) } := by
      refine hs.step (List.Subset.refl done) (append_nil _).symm hblock hlast rfl hcount
        (hcount.trans_le hs.bounded) ?_ ?_ (by simp) ?_
      · exact fun t' ht' => hat t' (ne_of_mem_of_not_mem ht' ht)
      · exact fun c' _ => hat _ nofun
      · simp [hflags]
    refine read_sound ht nofun _ ⟨hzeros, ?_⟩
    simp only [Issued.Asks, hat (.header c) nofun]
    exact hext

theorem reads_sound : Meets (Sound bs lb []) (reads io bs lb)
    (fun _ => Sound bs lb
      [.array .backup, .header .backup, .array .primary, .header .primary, .lba0])
    fun _ s => ∃ done, Sound bs lb done s := by
  have hread (lba bytes : ℕ) {done : List Target} (t : Target) (ht : t ∉ done)
      (hheader : ∀ c, t = .header c → .array c ∉ done)
      (hask : ∀ d answer, Issued.Asks bs lb d ⟨lba, bytes, t, answer⟩) :
      Meets (Sound bs lb done) (read io lba bytes t) (fun _ => Sound bs lb (t :: done))
        fun _ s => ∃ done, Sound bs lb done s :=
    (read_sound ht hheader).pre fun s hs => ⟨hs, hask s.disk _⟩
  refine (hread 0 bs .lba0 (by simp) nofun fun _ _ => ⟨rfl, rfl⟩).bind fun _ => ?_
  refine (hread 1 bs (.header .primary) (by simp) (by simp) fun _ _ => ⟨rfl, rfl⟩).bind fun _ => ?_
  refine (array_sound (by simp)).bind fun _ => ?_
  refine (hread lb bs (.header .backup) (by simp) (by simp) fun _ _ => ⟨rfl, rfl⟩).bind fun _ => ?_
  exact array_sound (by simp)

end Survey

/-- Every read that a survey makes is of blocks of the disk, and no more than its place and the
buffer can hold; there are at most five; and the flag of a place is set exactly when a read of
the place's whole range has filled it. -/
theorem Survey.run_reads (io : BlockIo) (blockSize lastBlock : ℕ) (path : Option (ℕ → UInt8)) :
    let s := Survey.run io blockSize lastBlock path
    (∀ r ∈ s.issued, r.Inside blockSize lastBlock) ∧ s.issued.length ≤ 5 ∧
      s.path.length ≤ pathBytes ∧ ∀ t : Target, s.disk.flags &&& t.flag ≠ 0 ↔
        ∃ r ∈ s.issued, r.target = t ∧ r.Asks blockSize lastBlock s.disk ∧
          r.answer = .ok (s.disk.at t) ∧ s.disk.extent t ≤ r.bytes := by
  intro s
  suffices hsound : ∃ done, Sound blockSize lastBlock done s by
    obtain ⟨done, hs⟩ := hsound
    refine ⟨hs.inside, hs.reads.trans_le hs.bounded, hs.path, fun t => (hs.flags t).trans ?_⟩
    refine exists_congr fun r => and_congr_right fun hr => and_congr_right ?_
    rintro rfl
    have hextent := (hs.asks r hr).extent_le (hs.inside r hr) hs.blockSize
    exact ⟨fun hanswer => ⟨hs.asks r hr, hanswer, hextent⟩, fun h => h.2.1⟩
  have hpath : (path.elim ([], 0) fun path => copyPathFrom path 64 [] 0).1.length ≤ pathBytes ∧
      (path.elim ([], 0) fun path => copyPathFrom path 64 [] 0).2 &&& 31 = 0 := by
    cases path with
    | none => exact ⟨by decide, rfl⟩
    | some path => exact copyPathFrom_fits path 64 (by decide) rfl
  generalize hkept : (path.elim ([], 0) fun path => copyPathFrom path 64 [] 0) = kept at hpath
  obtain ⟨kept, flags⟩ := kept
  simp only [s, Survey.run, hkept]
  generalize hstart : (Survey.mk _ _ _) = start
  have hsound : Sound blockSize lastBlock [] start := by
    subst hstart
    exact ⟨rfl, rfl, hpath.1, rfl, Nat.zero_le 5, by simp, by simp, by simp,
      by simp [and_flag_eq_zero hpath.2]⟩
  have hrun := @Survey.reads_sound io blockSize lastBlock start hsound
  cases hreads : Survey.reads io blockSize lastBlock start with
  | ok _ s =>
    rw [hreads] at hrun
    exact ⟨_, hrun⟩
  | error status s =>
    rw [hreads] at hrun
    obtain ⟨done, hs⟩ := hrun
    exact ⟨done, hs.blockSize, hs.lastBlock, hs.path, hs.reads, hs.bounded, hs.inside, hs.asks,
      hs.targets, hs.flags⟩

end Q1n1.Gpt
