import Q1n1.Library.History
import Q1n1.Verification.Preload.Paths

/-! # The tool and the firmware agree on manifests -/

namespace Q1n1.Preload

open List

open Bytes (putLe getLe putLe_length putLe_getLe getLe_putLe_of_lt getLe_lt)

theorem takeWhile_ljust {text : List UInt8} (h : Canonical text) (n : ℕ) :
    (ljust n text).takeWhile (· ≠ 0) = text := by
  have hzeros (n : ℕ) : (List.replicate n (0 : UInt8)).takeWhile (· ≠ 0) = [] := by
    cases n with
    | zero => rfl
    | succ n => simp [replicate_succ]
  rw [ljust, takeWhile_append_of_pos, hzeros, append_nil]
  intro c hc
  simpa using h.ne_zero hc

variable {earlier : List File}

theorem samePath_iff {a b : List UInt8} (ha : a.length = pathBytes) (hb : b.length = pathBytes) :
    samePath a b = true ↔ a.map lower = b.map lower := by
  simp only [samePath, all_eq_true, mem_range, decide_eq_true_eq]
  constructor
  · intro h
    apply ext_getElem (by simp [ha, hb])
    intro i hi hi'
    simp only [length_map] at hi hi'
    simpa [hi, hi'] using h i (ha ▸ hi)
  · intro h i hi
    have hi' := congrArg (·.getD i (lower 0)) h
    simpa [ha ▸ hi, hb ▸ hi] using hi'

theorem hexDigit?_hexChar {n : ℕ} (h : n < 16) :
    hexDigit? (hexChar n) = some n ∧ isSpace (hexChar n) = false := by
  revert n
  decide

theorem fromHex_toHex (bs : List UInt8) : fromHex (toHex bs) = some bs := by
  induction bs with
  | nil => rfl
  | cons b bs ih =>
    have hb := b.toNat_lt
    obtain ⟨hhigh, hspace⟩ := hexDigit?_hexChar (show b.toNat / 16 < 16 by omega)
    obtain ⟨hlow, -⟩ := hexDigit?_hexChar (show b.toNat % 16 < 16 by omega)
    have hbyte : 16 * (b.toNat / 16) + b.toNat % 16 = b.toNat := by omega
    show fromHex (hexChar (b.toNat / 16) :: hexChar (b.toNat % 16) :: toHex bs) = _
    rw [fromHex, hspace, hhigh, hlow, ih]
    simp only [Option.bind_eq_bind, Option.bind_some, hbyte, UInt8.ofNat_toNat]
    rfl

/-! ## Entries -/

theorem packFile_length {size : ℕ} {hashed raw : List UInt8} (hhashed : hashed.length = 32)
    (hraw : raw.length = pathBytes) : (packFile size hashed raw).length = fileBytes := by
  simp [packFile, hhashed, hraw, pathBytes, fileBytes]

theorem fileOf_packFile {size : ℕ} {hashed raw : List UInt8} (hsize : size < 256 ^ 8)
    (hhashed : hashed.length = 32) (hraw : raw.length = pathBytes) (rest : List UInt8) :
    fileOf (packFile size hashed raw ++ rest) = ⟨size, hashed, raw⟩ := by
  simp only [fileOf, packFile, append_assoc, File.mk.injEq]
  refine ⟨getLe_putLe_of_lt hsize _, ?_, ?_⟩
  · rw [drop_left' (putLe_length 8 size), take_left' hhashed]
  · rw [← append_assoc, drop_left' (by simp [hhashed]), take_left' hraw]

variable {bytes : List UInt8}

theorem packFile_fileOf (h : fileBytes ≤ bytes.length) :
    packFile (fileOf bytes).size (fileOf bytes).sha256 (fileOf bytes).path =
      bytes.take fileBytes := by
  have hlength : 296 ≤ bytes.length := h
  show putLe 8 (getLe 8 bytes) ++ (bytes.drop 8).take 32 ++ (bytes.drop 40).take 256 =
    bytes.take 296
  rw [putLe_getLe (by omega), ← take_add, ← take_add]

theorem fileOf_lengths (h : fileBytes ≤ bytes.length) :
    (fileOf bytes).sha256.length = 32 ∧ (fileOf bytes).path.length = pathBytes := by
  have hlength : 296 ≤ bytes.length := h
  simp only [fileOf, length_take, length_drop, pathBytes]
  omega

theorem filesOf_length (n : ℕ) (bytes : List UInt8) : (filesOf n bytes).length = n := by
  induction n generalizing bytes with
  | zero => rfl
  | succ n ih => rw [filesOf, length_cons, ih]

/-- An entry says what the tool was given. -/
structure Encodes (s : Source) (f : File) : Prop where
  path : s.path = codes f.text
  size : s.size = f.size
  digest : fromHex s.digest = some f.sha256

/-! ## The tables -/

/-- What `records` has seen, and the entries that it came from. -/
def lowered (earlier : List File) : List (List UInt8) := earlier.map fun f => f.path.map lower

theorem any_samePath {path : List UInt8} (hpath : path.length = pathBytes)
    (hearlier : ∀ g ∈ earlier, g.path.length = pathBytes) :
    (earlier.any fun g => samePath path g.path) = (lowered earlier).contains (path.map lower) := by
  rw [Bool.eq_iff_iff]
  simp only [any_eq_true, contains_iff_mem, lowered, mem_map]
  constructor
  · rintro ⟨g, hg, hsame⟩
    exact ⟨g, hg, ((samePath_iff hpath (hearlier g hg)).mp hsame).symm⟩
  · rintro ⟨g, hg, heq⟩
    exact ⟨g, hg, (samePath_iff hpath (hearlier g hg)).mpr heq.symm⟩

variable {files : List Source} {table : List UInt8}

theorem records_cons {seen : List (List UInt8)} {total : ℤ} {s : Source} :
    records seen total (s :: files) = some table ↔
      ∃ raw hashed more, encodePath s.path = some raw ∧ seen.contains (raw.map lower) = false ∧
        (0 < s.size ∧ s.size ≤ limit - total) ∧ fromHex s.digest = some hashed ∧
        hashed.length = 32 ∧
        records (seen ++ [raw.map lower]) (total + s.size) files = some more ∧
        packFile s.size.toNat hashed raw ++ more = table := by
  rw [records]
  cases encodePath s.path with
  | none => simp
  | some raw =>
    simp only [Option.bind_eq_bind, Option.bind_some, Option.some.injEq, exists_and_left,
      exists_eq_left']
    split
    · rename_i hrefused
      simp only [Bool.or_eq_true, Bool.not_eq_true', Bool.and_eq_false_iff,
        decide_eq_false_iff_not] at hrefused
      constructor
      · intro h
        cases h
      · rintro ⟨hfresh, hsize, -⟩
        rw [hfresh] at hrefused
        simp [hsize] at hrefused
    · rename_i haccepted
      simp only [Bool.or_eq_true, Bool.not_eq_true', Bool.and_eq_false_iff,
        decide_eq_false_iff_not, not_or, not_not, Bool.not_eq_true] at haccepted
      simp only [haccepted, and_self, true_and]
      cases fromHex s.digest with
      | none => simp
      | some hashed =>
        by_cases hlength : hashed.length = 32
        · simp [hlength, Option.bind_eq_some_iff]
        · simp [hlength]

theorem validFiles_cons {total : ℕ} {f : File} {rest : List File} :
    validFiles earlier total (f :: rest) = true ↔
      (0 < f.size ∧ f.size ≤ limit - total) ∧ validPath f.path = true ∧
        (earlier.any fun g => samePath f.path g.path) = false ∧
        validFiles (earlier ++ [f]) (total + f.size) rest = true := by
  rw [validFiles]
  by_cases hsize : 0 < f.size ∧ f.size ≤ limit - total
  · cases hpath : validPath f.path with
    | false => simp
    | true =>
      cases hany : earlier.any fun g => samePath f.path g.path with
      | true => simp
      | false => simp [hsize, Nat.pos_iff_ne_zero.mp hsize.1]
  · rw [if_pos (by simp; omega)]
    simp [hsize]

theorem records_valid {total : ℕ} (hearlier : ∀ g ∈ earlier, g.path.length = pathBytes)
    (h : records (lowered earlier) total files = some table) :
    table.length = files.length * fileBytes ∧
      validFiles earlier total (filesOf files.length table) = true ∧
      List.Forall₂ Encodes files (filesOf files.length table) := by
  induction files generalizing table earlier total with
  | nil =>
    obtain rfl : [] = table := Option.some.inj h
    exact ⟨rfl, rfl, .nil⟩
  | cons s files ih =>
    obtain ⟨raw, hashed, more, hraw, hfresh, hsize, hdigest, hhashed, hmore, rfl⟩ :=
      records_cons.mp h
    obtain ⟨text, htext, hpath, rfl⟩ := encodePath_eq_some.mp hraw
    have hlength : (ljust pathBytes text).length = pathBytes := ljust_length htext.length.le
    obtain ⟨n, hn⟩ : ∃ n : ℕ, s.size = n := ⟨s.size.toNat, by omega⟩
    have hnlimit : 0 < n ∧ n ≤ limit - total := by omega
    have hn64 : n < 256 ^ 8 := by
      have : limit < 256 ^ 8 := by decide
      omega
    have hfile := fileOf_packFile hn64 hhashed hlength more
    have hsplit : (packFile n hashed (ljust pathBytes text) ++ more).drop fileBytes = more :=
      drop_left' (packFile_length hhashed hlength)
    set f : File := ⟨n, hashed, ljust pathBytes text⟩ with hf
    have hmore' : records (lowered (earlier ++ [f])) (total + n : ℕ) files = some more := by
      rw [hn] at hmore
      simpa [lowered, hf] using hmore
    obtain ⟨hcount, hvalid, hencodes⟩ := ih (History.forall_concat hearlier hlength) hmore'
    rw [hn, Int.toNat_natCast]
    refine ⟨?_, ?_, ?_⟩
    · rw [length_append, packFile_length hhashed hlength, hcount, length_cons]
      ring
    · rw [length_cons, filesOf, hfile, hsplit, validFiles_cons]
      refine ⟨hnlimit, (validPath_iff hlength).mpr ⟨text, htext, rfl⟩, ?_, hvalid⟩
      rw [any_samePath hlength hearlier]
      exact hfresh
    · rw [length_cons, filesOf, hfile, hsplit]
      refine .cons ⟨?_, hn, hdigest⟩ hencodes
      rw [File.text, takeWhile_ljust htext]
      exact hpath

theorem records_of_valid {n : ℕ} {total : ℕ} (hearlier : ∀ g ∈ earlier, g.path.length = pathBytes)
    (hlength : table.length = n * fileBytes)
    (h : validFiles earlier total (filesOf n table) = true) :
    records (lowered earlier) total ((filesOf n table).map File.source) = some table := by
  induction n generalizing table earlier total with
  | zero =>
    obtain rfl : table = [] := eq_nil_of_length_eq_zero (by simpa using hlength)
    rfl
  | succ n ih =>
    have hfits : fileBytes ≤ table.length := by
      rw [hlength, Nat.succ_mul]
      exact Nat.le_add_left _ _
    obtain ⟨hsha, hpathLength⟩ := fileOf_lengths hfits
    rw [filesOf, validFiles_cons] at h
    obtain ⟨hsize, hpath, hfresh, hrest⟩ := h
    obtain ⟨text, htext, heq⟩ := (validPath_iff hpathLength).mp hpath
    have htext' : (fileOf table).text = text := by
      rw [File.text, heq, takeWhile_ljust htext]
    rw [filesOf, map_cons, records_cons]
    refine ⟨(fileOf table).path, (fileOf table).sha256, table.drop fileBytes,
      encodePath_eq_some.mpr ⟨text, htext, ?_, heq⟩, ?_, ?_, fromHex_toHex _, hsha, ?_, ?_⟩
    · show codes (fileOf table).text = codes text
      rw [htext']
    · rw [← any_samePath hpathLength hearlier]
      exact hfresh
    · have hlimit : total ≤ limit := by omega
      simp only [File.source]
      omega
    · have hdrop : (table.drop fileBytes).length = n * fileBytes := by
        rw [length_drop, hlength, Nat.succ_mul, Nat.add_sub_cancel]
      have hmore := ih (History.forall_concat hearlier hpathLength) hdrop hrest
      rw [lowered, map_append] at hmore
      exact hmore
    · rw [show (fileOf table).source.size.toNat = (fileOf table).size from Int.toNat_natCast _,
        packFile_fileOf hfits, take_append_drop]

/-! ## Manifests -/

theorem no_paths : ∀ g ∈ ([] : List File), g.path.length = pathBytes := by simp

def header (count : ℕ) : List UInt8 :=
  putLe 8 magic ++ putLe 8 1 ++ putLe 8 count ++ putLe 8 fileBytes

theorem header_length (count : ℕ) : (header count).length = headerBytes := by
  simp [header, headerBytes]

theorem header_fields {count : ℕ} (hcount : count < 256 ^ 8) (table : List UInt8) :
    getLe 8 (header count ++ table) = magic ∧ getLe 8 ((header count ++ table).drop 8) = 1 ∧
      countOf (header count ++ table) = count ∧
      getLe 8 ((header count ++ table).drop 24) = fileBytes := by
  simp only [countOf, header, append_assoc]
  refine ⟨getLe_putLe_of_lt (by decide) _, ?_, ?_, ?_⟩
  · rw [drop_left' (putLe_length ..)]
    exact getLe_putLe_of_lt (by decide) _
  · rw [← append_assoc, drop_left' (by simp)]
    exact getLe_putLe_of_lt hcount _
  · rw [← append_assoc, ← append_assoc, drop_left' (by simp)]
    exact getLe_putLe_of_lt (by decide) _

theorem header_of_fields (hlength : headerBytes ≤ bytes.length) (hmagic : getLe 8 bytes = magic)
    (hversion : getLe 8 (bytes.drop 8) = 1) (hentry : getLe 8 (bytes.drop 24) = fileBytes) :
    bytes = header (countOf bytes) ++ bytes.drop headerBytes := by
  have hlength : 32 ≤ bytes.length := hlength
  have hword (k : ℕ) (hk : k + 8 ≤ 32) : putLe 8 (getLe 8 (bytes.drop k)) = (bytes.drop k).take 8 :=
    putLe_getLe (by simp; omega)
  have hheader : header (countOf bytes) = bytes.take 32 := by
    rw [header, ← hmagic, ← hversion, ← hentry, countOf, hword 8 (by omega), hword 16 (by omega),
      hword 24 (by omega), putLe_getLe (by omega), ← take_add, ← take_add,
      ← take_add]
  rw [hheader]
  exact (take_append_drop 32 bytes).symm

theorem manifest_eq_some :
    manifest files = some bytes ↔ (1 ≤ files.length ∧ files.length ≤ maxFiles) ∧
      ∃ table, records [] 0 files = some table ∧ header files.length ++ table = bytes := by
  rw [manifest]
  split
  · rename_i hcount
    constructor
    · intro h
      cases h
    · rintro ⟨hfiles, -⟩
      simp [hfiles] at hcount
  · rename_i hcount
    simp only [Bool.not_eq_true', Bool.and_eq_false_iff, decide_eq_false_iff_not, not_or,
      not_not] at hcount
    simp [hcount, Option.bind_eq_some_iff, header]

theorem manifestValid_iff :
    manifestValid bytes = true ↔ headerBytes ≤ bytes.length ∧ getLe 8 bytes = magic ∧
      getLe 8 (bytes.drop 8) = 1 ∧ (1 ≤ countOf bytes ∧ countOf bytes ≤ maxFiles) ∧
      getLe 8 (bytes.drop 24) = fileBytes ∧
      bytes.length = headerBytes + countOf bytes * fileBytes ∧
      validFiles [] 0 (entries bytes) = true := by
  rw [manifestValid]
  split
  · rename_i hrefused
    simp only [Bool.or_eq_true, decide_eq_true_eq] at hrefused
    constructor
    · intro h
      cases h
    · rintro ⟨h₁, h₂, h₃, h₄, h₅, h₆, -⟩
      omega
  · rename_i haccepted
    simp only [Bool.or_eq_true, decide_eq_true_eq, not_or, not_lt, not_not] at haccepted
    obtain ⟨⟨⟨⟨⟨⟨hlength, hmagic⟩, hversion⟩, hnone⟩, hmax⟩, hentry⟩, hsize⟩ := haccepted
    constructor
    · intro h
      exact ⟨hlength, hmagic, hversion, ⟨pos_of_ne_zero hnone, hmax⟩, hentry, hsize, h⟩
    · rintro ⟨-, -, -, -, -, -, h⟩
      exact h

/-- The tool and the firmware agree: what the tool writes is accepted and says what the tool was
given, and what is accepted is what the tool writes for what it says. -/
theorem manifest_agreement : (∀ files bytes, manifest files = some bytes →
      manifestValid bytes = true ∧ List.Forall₂ Encodes files (entries bytes)) ∧
    ∀ bytes, manifestValid bytes = true →
      manifest ((entries bytes).map File.source) = some bytes := by
  constructor
  · intro files bytes h
    obtain ⟨hcount, table, htable, rfl⟩ := manifest_eq_some.mp h
    have hsmall : files.length < 256 ^ 8 := hcount.2.trans_lt (by decide)
    obtain ⟨hmagic, hversion, hfiles, hentry⟩ := header_fields hsmall table
    obtain ⟨hlength, hvalid, hencodes⟩ := records_valid no_paths htable
    have hentries : entries (header files.length ++ table) = filesOf files.length table := by
      rw [entries, hfiles, drop_left' (header_length _)]
    rw [hentries, manifestValid_iff, hentries, hfiles]
    refine ⟨⟨?_, hmagic, hversion, hcount, hentry, ?_, hvalid⟩, hencodes⟩
    · simp [header_length]
    · rw [length_append, header_length, hlength]
  · intro bytes h
    obtain ⟨hlength, hmagic, hversion, hcount, hentry, hsize, hvalid⟩ := manifestValid_iff.mp h
    have htable : (bytes.drop headerBytes).length = countOf bytes * fileBytes := by
      rw [length_drop, hsize, Nat.add_sub_cancel_left]
    have hrecords := records_of_valid no_paths htable hvalid
    have hfiles : ((entries bytes).map File.source).length = countOf bytes := by
      rw [length_map, entries, filesOf_length]
    rw [manifest_eq_some, hfiles]
    exact ⟨hcount, bytes.drop headerBytes, hrecords,
      (header_of_fields hlength hmagic hversion hentry).symm⟩

def oneFile : Source := ⟨[0x5c, 0x6b], 5, List.replicate 64 0x30⟩

theorem manifest_agreement_oneFile : ∃ bytes, manifest [oneFile] = some bytes ∧
    manifestValid bytes = true ∧ manifest ((entries bytes).map File.source) = some bytes := by
  obtain ⟨bytes, hbytes⟩ := Option.isSome_iff_exists.mp
    (by decide +kernel : (manifest [oneFile]).isSome = true)
  have hvalid := (manifest_agreement.1 [oneFile] bytes hbytes).1
  exact ⟨bytes, hbytes, hvalid, manifest_agreement.2 bytes hvalid⟩

end Q1n1.Preload
