import Q1n1.Model.Gpt.Reads

/-! # What a survey without errors says -/

namespace Q1n1.Gpt

open CallService List Memory Option

/-! ## Verified tables -/

/-- A header that is present, with a matching CRC and entries of a valid shape. -/
structure SoundHeader (block : List UInt8) (blockSize : ℕ) (h : Header) : Prop where
  of_eq : h = Header.of block
  signed : block.take 8 = signature
  size : 92 ≤ h.headerSize ∧ h.headerSize ≤ blockSize
  crc : crc32 (unsummed block h.headerSize) = h.headerCrc
  shape : 128 ≤ h.entrySize ∧ h.entrySize &&& (h.entrySize - 1) = 0 ∧ 0 < h.count

/-- An entry array that is present in full, with a matching CRC. -/
structure SoundArray (array : List UInt8) (h : Header) : Prop where
  full : h.count * h.entrySize ≤ array.length
  crc : crc32 (array.take (h.count * h.entrySize)) = h.arrayCrc

/-- The headers name each other and the same table. -/
structure CrossChecked (lastBlock : ℕ) (p b : Header) : Prop where
  primary_lba : p.myLba = 1 ∧ p.alternateLba = lastBlock
  backup_lba : b.myLba = lastBlock ∧ b.alternateLba = 1
  usable : 2 ≤ p.entriesLba ∧ p.firstUsable ≤ p.lastUsable ∧ p.lastUsable < lastBlock
  diskGuid : p.diskGuid = b.diskGuid
  firstUsable : p.firstUsable = b.firstUsable
  lastUsable : p.lastUsable = b.lastUsable
  count : p.count = b.count
  entrySize : p.entrySize = b.entrySize
  arrayCrc : p.arrayCrc = b.arrayCrc

/-- The disk has the two headers and arrays of one table, and `out` has its partitions. -/
structure Table (d : Disk) (out : Decoded) (p b : Header) : Prop where
  have_primary : d.flags &&& havePrimary ≠ 0
  have_backup : d.flags &&& haveBackup ≠ 0
  primary : SoundHeader d.primary d.blockSize p
  backup : SoundHeader d.backup d.blockSize b
  crossChecked : CrossChecked d.lastBlock p b
  primaryArray : SoundArray d.primaryArray p
  backupArray : SoundArray d.backupArray b
  agree : partitionsOf d.primaryArray p = partitionsOf d.backupArray b
  partitions : out.partitions = sortByFirst (partitionsOf d.primaryArray p)

def Verified (d : Disk) (out : Decoded) : Prop := ∃ p b, Table d out p b

variable {block array : List UInt8} {blockSize : ℕ}

theorem SoundArray.ne_nil {h : Header} (harray : SoundArray array h)
    (hheader : SoundHeader block blockSize h) : array ≠ [] := by
  intro hnil
  have hfull := harray.full
  rw [hnil, length_nil] at hfull
  have hneed := Nat.mul_pos hheader.shape.2.2 (show 0 < h.entrySize by have := hheader.shape; omega)
  omega

/-! ## No error, no flaw -/

theorem ite_singleton_eq_nil {α : Type*} {c : Prop} [Decidable c] {a : α} :
    (if c then [a] else []) = [] ↔ ¬c := by
  split <;> simp_all

theorem ite_nil_singleton {α : Type*} {c : Prop} [Decidable c] {a : α} :
    (if c then [] else [a]) = [] ↔ c := by
  split <;> simp_all

theorem header_sound {c : Copy} {h : Header} (hsome : (header block blockSize c).1 = some h)
    (hnil : (header block blockSize c).2 = []) : SoundHeader block blockSize h := by
  unfold header at hsome hnil
  by_cases hsigned : block.take 8 ≠ signature
  · simp [hsigned] at hnil
  by_cases hsize : ¬(92 ≤ (Header.of block).headerSize ∧ (Header.of block).headerSize ≤ blockSize)
  · rw [if_neg hsigned] at hnil
    simp only [if_pos hsize] at hnil
    simp at hnil
  rw [if_neg hsigned] at hsome hnil
  simp only [if_neg hsize, append_eq_nil_iff, ite_nil_singleton, ite_singleton_eq_nil] at hsome hnil
  obtain rfl : Header.of block = h := Option.some.inj hsome
  refine ⟨rfl, not_not.mp hsigned, not_not.mp hsize, hnil.1, ?_⟩
  have hshape := hnil.2
  push Not at hshape
  exact ⟨hshape.1, hshape.2.1, pos_of_ne_zero hshape.2.2⟩

theorem entries_sound {h : Header} {c : Copy} (hnil : (entries array h c).2 = []) :
    (entries array h c).1 = some (partitionsOf array h) ∧ SoundArray array h := by
  unfold entries at hnil ⊢
  by_cases hshort : array.length < h.count * h.entrySize
  · simp [hshort] at hnil
  · simp only [if_neg hshort, ite_nil_singleton] at hnil ⊢
    exact ⟨trivial, by omega, hnil⟩

theorem readCopy_sound {c : Copy} (hsome : (readCopy block array blockSize c).1 ≠ none)
    (hheader : (readCopy block array blockSize c).2.1 = [])
    (harray : (readCopy block array blockSize c).2.2.2 = []) :
    ∃ h, (readCopy block array blockSize c).1 = some h ∧ block ≠ [] ∧
      SoundHeader block blockSize h ∧
      (array ≠ [] → (readCopy block array blockSize c).2.2.1 = some (partitionsOf array h) ∧
        SoundArray array h) := by
  by_cases hblock : block = []
  · simp [readCopy, hblock] at hsome
  simp only [readCopy, if_neg hblock] at hsome hheader harray ⊢
  obtain ⟨h, hh⟩ := ne_none_iff_exists'.mp hsome
  refine ⟨h, hh, hblock, header_sound hh hheader, ?_⟩
  intro hne
  simp only [hh, if_neg hne] at harray ⊢
  exact entries_sound harray

theorem crossChecked_of_nil {lastBlock : ℕ} {p b : Header}
    (hp : primaryProblems lastBlock p = []) (hb : backupProblems lastBlock b = [])
    (hd : differences p b = []) : CrossChecked lastBlock p b := by
  simp only [primaryProblems, backupProblems, differences, append_eq_nil_iff,
    ite_singleton_eq_nil, not_not, not_or] at hp hb hd
  exact ⟨hp.1, hb, hp.2, hd.1.1.1.1.1, hd.1.1.1.1.2, hd.1.1.1.2, hd.1.1.2, hd.1.2, hd.2⟩

theorem decodeGpt_table {lastBlock : ℕ} {lba0 primary primaryArray backup backupArray : List UInt8}
    (hnil : (decodeGpt blockSize lastBlock lba0 primary primaryArray backup
      backupArray).errors = [])
    (hp : primaryArray ≠ []) (hb : backupArray ≠ []) :
    ∃ p b, primary ≠ [] ∧ backup ≠ [] ∧ SoundHeader primary blockSize p ∧
      SoundHeader backup blockSize b ∧ CrossChecked lastBlock p b ∧ SoundArray primaryArray p ∧
      SoundArray backupArray b ∧ partitionsOf primaryArray p = partitionsOf backupArray b ∧
      (decodeGpt blockSize lastBlock lba0 primary primaryArray backup backupArray).partitions =
        sortByFirst (partitionsOf primaryArray p) := by
  simp only [decodeGpt, append_eq_nil_iff, ite_singleton_eq_nil] at hnil ⊢
  obtain ⟨⟨⟨⟨⟨⟨⟨⟨⟨⟨⟨-, hph⟩, hbh⟩, hpn⟩, hbn⟩, hpe⟩, hbe⟩, hpp⟩, hbp⟩, hdiff⟩, hsame⟩, -⟩ := hnil
  obtain ⟨p, hpe₁, hpne, hps, hpa⟩ := readCopy_sound hpn hph hpe
  obtain ⟨b, hbe₁, hbne, hbs, hba⟩ := readCopy_sound hbn hbh hbe
  obtain ⟨hpl, hpa⟩ := hpa hp
  obtain ⟨hbl, hba⟩ := hba hb
  rw [hpe₁, elim_some] at hpp hdiff
  rw [hbe₁, elim_some] at hbp hdiff
  rw [hpl, hbl, elim_some, elim_some, ite_singleton_eq_nil, not_not] at hsame
  refine ⟨p, b, hpne, hbne, hps, hbs, crossChecked_of_nil hpp hbp hdiff, hpa, hba, hsame, ?_⟩
  rw [hpl, getD_some]

/-- A disk of a survey that is reported without an error has a verified table if and only if both
entry arrays were recorded. -/
theorem survey_verified_iff (raw : Raw) (results : List (Disk × Decoded))
    (hdecoded : decodeRecord raw = some results) (d : Disk) (out : Decoded)
    (hmem : (d, out) ∈ results) (hnil : out.errors = []) :
    Verified d out ↔ d.primaryArray ≠ [] ∧ d.backupArray ≠ [] := by
  obtain ⟨disks, -, rfl⟩ := map_eq_some_iff.mp hdecoded
  obtain ⟨d', -, heq⟩ := mem_map.mp hmem
  obtain ⟨rfl, rfl⟩ := Prod.mk.inj heq
  constructor
  · intro h
    obtain ⟨p, b, h⟩ := h
    exact ⟨h.primaryArray.ne_nil h.primary, h.backupArray.ne_nil h.backup⟩
  · intro h
    simp only [decodeDisk, append_eq_nil_iff] at hnil
    obtain ⟨p, b, hpne, hbne, hp, hb, hcross, hpa, hba, hagree, hparts⟩ :=
      decodeGpt_table hnil.1.1 h.1 h.2
    -- A header that was not flagged is passed as no bytes.
    have hhp : d'.flags &&& havePrimary ≠ 0 := by
      intro h0
      simp [h0] at hpne
    have hhb : d'.flags &&& haveBackup ≠ 0 := by
      intro h0
      simp [h0] at hbne
    rw [if_pos hhp] at hp
    rw [if_pos hhb] at hb
    exact ⟨p, b, hhp, hhb, hp, hb, hcross, hpa, hba, hagree, hparts⟩

/-! ## Records of one disk -/

def putWords (n : ℕ) (word : ℕ → ℕ) : List UInt8 :=
  (List.range n).flatMap fun i => Bytes.putLe 8 (word i)

@[simp] theorem putWords_length (n : ℕ) (word : ℕ → ℕ) : (putWords n word).length = 8 * n := by
  simp [putWords, mul_comm]

theorem word_of_load {raw : Raw} {off n i : ℕ} {word : ℕ → ℕ}
    (h : raw.bytes.load off (8 * n) = putWords n word) (hi : i < n) (hword : word i < 2 ^ 64) :
    raw.word (off + 8 * i) = word i := by
  rw [Raw.word, load_piece (fun i => Bytes.putLe_length 8 (word i)) h hi]
  simpa using Bytes.getLe_putLe_of_lt (n := 8) (by simpa using hword) []

def headWord : ℕ → ℕ
  | 0 => 0x31545047314e3151
  | 1 => 1
  | 17 => 1
  | 18 => 1
  | n + 2 => layout.getD n 0

def Disk.scalar (d : Disk) : ℕ → ℕ
  | 0 => d.status
  | 1 => d.flags
  | 5 => d.blockSize
  | 7 => d.lastBlock
  | 12 => d.reads
  | 15 => d.primaryArray.length
  | 18 => d.backupArray.length
  | _ => 0

def rawOf (d : Disk) : Raw where
  bytes := ((((((Memory.store (fun _ => 0) 0 (putWords headerWords headWord)).store
    offDisks d.lba0).store
    (offDisks + offPrimary) d.primary).store
    (offDisks + offBackup) d.backup).store
    (offDisks + offPrimaryArray) d.primaryArray).store
    (offDisks + offBackupArray) d.backupArray).store
    (offDisks + offScalars) (putWords diskWords d.scalar)
  length := recordSize

/-- What the fields of a record can hold. -/
structure Disk.Fits (d : Disk) : Prop where
  blockSize : d.blockSize ∈ [512, 1024, 2048, 4096]
  blocks : d.lba0.length = d.blockSize ∧ d.primary.length = d.blockSize ∧
    d.backup.length = d.blockSize
  primaryArray : d.primaryArray.length ≤ arrayBytes ∧ d.primaryArray.length % d.blockSize = 0
  backupArray : d.backupArray.length ≤ arrayBytes ∧ d.backupArray.length % d.blockSize = 0
  reads : d.reads ≤ 5
  words : d.status < 2 ^ 64 ∧ d.flags < 2 ^ 64 ∧ d.lastBlock < 2 ^ 64

theorem Disk.Fits.blockSize_le {d : Disk} (h : d.Fits) : d.blockSize ≤ blockBytes := by
  have hmem := h.blockSize
  simp only [mem_cons, not_mem_nil, or_false] at hmem
  simp only [blockBytes]
  omega

section

variable {d : Disk} (h : d.Fits)

theorem scalars_rawOf (d : Disk) :
    (rawOf d).bytes.load (offDisks + offScalars) (8 * diskWords) = putWords diskWords d.scalar := by
  rw [← putWords_length diskWords d.scalar]
  exact load_store_self _ _ _

include h

theorem loads_rawOf : (rawOf d).bytes.load 0 (8 * headerWords) = putWords headerWords headWord ∧
      (rawOf d).bytes.load offDisks d.blockSize = d.lba0 ∧
      (rawOf d).bytes.load (offDisks + offPrimary) d.blockSize = d.primary ∧
      (rawOf d).bytes.load (offDisks + offBackup) d.blockSize = d.backup ∧
      (rawOf d).bytes.load (offDisks + offPrimaryArray) d.primaryArray.length = d.primaryArray ∧
      (rawOf d).bytes.load (offDisks + offBackupArray) d.backupArray.length = d.backupArray := by
  have hsize := h.blockSize_le
  have hp := h.primaryArray.1
  have hb := h.backupArray.1
  obtain ⟨h0, h1, h2⟩ := h.blocks
  simp only [blockBytes, arrayBytes] at hsize hp hb
  simp only [rawOf, offDisks, offPrimary, offBackup, offPrimaryArray, offBackupArray, offScalars,
    blockBytes, arrayBytes, pathBytes, headerWords]
  refine ⟨?_, ?_, ?_, ?_, ?_, ?_⟩
  all_goals simp (disch := omega) only [load_store_of_disjoint]
  · rw [← putWords_length 25 headWord]
    exact load_store_self _ _ _
  · rw [← h0]
    exact load_store_self _ _ _
  · rw [← h1]
    exact load_store_self _ _ _
  · rw [← h2]
    exact load_store_self _ _ _
  all_goals exact load_store_self _ _ _

theorem scalar_rawOf {i : ℕ} (hi : i < diskWords) :
    (rawOf d).word (offDisks + offScalars + 8 * i) = d.scalar i := by
  apply word_of_load (scalars_rawOf d) hi
  have hsize := h.blockSize_le
  have hp := h.primaryArray.1
  have hb := h.backupArray.1
  have hreads := h.reads
  obtain ⟨hstatus, hflags, hlast⟩ := h.words
  simp only [blockBytes, arrayBytes] at hsize hp hb
  unfold Disk.scalar
  split <;> omega

theorem head_rawOf {i : ℕ} (hi : i < headerWords) : (rawOf d).word (8 * i) = headWord i := by
  have hall : ∀ i < headerWords, headWord i < 2 ^ 64 := by decide
  have hword := word_of_load (loads_rawOf h).1 hi (hall i hi)
  rwa [zero_add] at hword

theorem disk_rawOf : (rawOf d).disk offDisks = some d := by
  obtain ⟨-, hlba0, hprimary, hbackup, hparray, hbarray⟩ := loads_rawOf h
  have hscalar {i : ℕ} (hi : i < diskWords) := scalar_rawOf h hi
  unfold Raw.disk
  simp only [hscalar (i := 0) (by decide), hscalar (i := 1) (by decide),
    hscalar (i := 5) (by decide), hscalar (i := 7) (by decide), hscalar (i := 12) (by decide),
    hscalar (i := 13) (by decide), hscalar (i := 15) (by decide), hscalar (i := 18) (by decide),
    Disk.scalar, hlba0, hprimary, hbackup, hparray, hbarray]
  rw [if_neg, if_neg, if_neg]
  · have hb := h.backupArray
    omega
  · have hp := h.primaryArray
    omega
  · have hreads := h.reads
    have hmem := h.blockSize
    simp only [pathBytes, hmem, not_true_eq_false, false_or]
    omega

theorem decodeRecord_rawOf : decodeRecord (rawOf d) = some [(d, decodeDisk d)] := by
  have hhead {i : ℕ} (hi : i < headerWords) := head_rawOf h hi
  have hlayout : (range 11).map (fun n => (rawOf d).word (8 * (n + 2))) = layout := by
    have hmap : (range 11).map (fun n => (rawOf d).word (8 * (n + 2))) =
        (range 11).map fun n => headWord (n + 2) := by
      apply map_congr_left
      intro n hn
      exact hhead (by have := mem_range.mp hn; simp only [headerWords]; omega)
    rw [hmap]
    decide
  have hmagic : (rawOf d).word 0 = 0x31545047314e3151 := hhead (i := 0) (by decide)
  have hversion : (rawOf d).word 8 = 1 := hhead (i := 1) (by decide)
  have hcandidates : (rawOf d).word (8 * 17) = 1 := hhead (i := 17) (by decide)
  have hrecorded : (rawOf d).word (8 * 18) = 1 := hhead (i := 18) (by decide)
  have hlength : (rawOf d).length = recordSize := rfl
  unfold decodeRecord parseRecord
  simp only [hmagic, hversion, hcandidates, hrecorded, hlength, hlayout]
  rw [if_neg (by decide), if_neg (by decide), if_neg (by decide), if_neg (by decide)]
  have hdisk := disk_rawOf h
  simp [range_succ, hdisk]

end

/-! ## A disk whose entry arrays lie past its end -/

def headerBlock (crc mine other entriesLba : ℕ) : List UInt8 :=
  signature ++ Bytes.putLe 4 0x10000 ++ Bytes.putLe 4 92 ++ Bytes.putLe 4 crc ++ Bytes.putLe 4 0 ++
    Bytes.putLe 8 mine ++ Bytes.putLe 8 other ++ Bytes.putLe 8 3 ++ Bytes.putLe 8 98 ++
    List.replicate 16 7 ++ Bytes.putLe 8 entriesLba ++ Bytes.putLe 4 1 ++ Bytes.putLe 4 128 ++
    Bytes.putLe 4 2862767626 ++ List.replicate 420 0

def protectiveMbr : List UInt8 :=
  List.replicate 450 0 ++ 0xee :: List.replicate 59 0 ++ [0x55, 0xaa]

def oneEntry : List UInt8 :=
  List.replicate 32 5 ++ Bytes.putLe 8 3 ++ Bytes.putLe 8 9 ++ List.replicate 464 0

/-- A disk of 101 blocks with these headers. -/
def smallDisk (primary backup : List UInt8) : BlockIo where
  read lba bytes :=
    .ok (((if lba = 0 then protectiveMbr else if lba = 1 then primary else if lba = 100 then backup
      else oneEntry) ++ List.replicate bytes 0).take bytes)
  length_eq lba bytes out h := by
    cases h
    simp
  status_ne lba bytes status h := by cases h

def soundDisk : Disk :=
  (Survey.run (smallDisk (headerBlock 1745781354 1 100 2) (headerBlock 932752108 100 1 99)) 512 100
    none).disk

/-- Both headers name an array past the end of the disk. -/
def lostDisk : Disk :=
  (Survey.run (smallDisk (headerBlock 1628619374 1 100 200) (headerBlock 1961304499 100 1 200))
    512 100 none).disk

theorem soundDisk_fits : soundDisk.Fits :=
  ⟨by decide +kernel, by decide +kernel, by decide +kernel, by decide +kernel, by decide +kernel,
    by decide +kernel⟩

theorem lostDisk_fits : lostDisk.Fits :=
  ⟨by decide +kernel, by decide +kernel, by decide +kernel, by decide +kernel, by decide +kernel,
    by decide +kernel⟩

theorem survey_verified_iff_soundDisk :
    (decodeDisk soundDisk).errors = [] ∧ Verified soundDisk (decodeDisk soundDisk) := by
  have hnil : (decodeDisk soundDisk).errors = [] := by decide +kernel
  have hiff := survey_verified_iff (rawOf soundDisk) _ (decodeRecord_rawOf soundDisk_fits)
    soundDisk (decodeDisk soundDisk) mem_cons_self hnil
  exact ⟨hnil, hiff.mpr (by decide +kernel)⟩

/-- The firmware side reads no array and says so in a flag that the host does not look at: the
disk is reported without an error, as one without partitions. -/
theorem survey_lostArrays :
    decodeRecord (rawOf lostDisk) = some [(lostDisk,
        { errors := [], partitions := [], unallocated := some [⟨3, 98⟩] })] ∧
      lostDisk.primaryArray = [] ∧ lostDisk.backupArray = [] ∧
      lostDisk.flags &&& arrayOutOfRange ≠ 0 := by
  have hdecoded : decodeDisk lostDisk =
      { errors := [], partitions := [], unallocated := some [⟨3, 98⟩] } := by
    decide +kernel
  refine ⟨?_, by decide +kernel, by decide +kernel, by decide +kernel⟩
  rw [decodeRecord_rawOf lostDisk_fits, hdecoded]

end Q1n1.Gpt
