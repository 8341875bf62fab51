import Q1n1.Model.Preload.Manifest

/-! # Both sides accept the same paths -/

namespace Q1n1.Preload

open List

/-! ## What a path should be -/

def OkPart (part : List UInt8) : Prop := part ≠ [] ∧ part ≠ [dot] ∧ part ≠ [dot, dot]

/-- An absolute, canonical path of fewer than 256 printable bytes. -/
structure Canonical (text : List UInt8) : Prop where
  absolute : text.head? = some backslash
  parts : ∀ part ∈ (text.drop 1).splitOn backslash, OkPart part
  plain : ∀ c ∈ text, forbidden c = false
  length : text.length < pathBytes

theorem not_forbidden_backslash : forbidden backslash = false := by decide

theorem forbidden_zero : forbidden 0 = true := by decide

theorem Canonical.ne_zero {text : List UInt8} (h : Canonical text) {c : UInt8} (hc : c ∈ text) :
    c ≠ 0 := by
  rintro rfl
  have := h.plain 0 hc
  rw [forbidden_zero] at this
  cases this

theorem ljust_length {n : ℕ} {bs : List UInt8} (h : bs.length ≤ n) : (ljust n bs).length = n := by
  simp [ljust]
  omega

/-- The loop on lists: `part` is the component so far. -/
def scan : (part rest : List UInt8) → Bool
  | _, [] => false
  | part, c :: rest =>
    if c = 0 || c = backslash then
      if part = [] || part = [dot] || part = [dot, dot] then false
      else if c = 0 then rest.all (· = 0)
      else scan [] rest
    else if forbidden c then false
    else scan (part ++ [c]) rest

theorem getD_drop_take (p : List UInt8) (start : ℕ) {k j : ℕ} (hj : j < k) :
    ((p.drop start).take k).getD j 0 = p.getD (start + j) 0 := by
  simp [getD_eq_getElem?_getD, hj]

variable {p : List UInt8}

theorem bad_part {i start : ℕ} (hi : i < p.length) (hstart : start ≤ i) :
    (decide (i = start) || (decide (i - start = 1) && decide (p.getD start 0 = dot)) ||
      (decide (i - start = 2) && decide (p.getD start 0 = dot) &&
        decide (p.getD (start + 1) 0 = dot))) = (decide ((p.drop start).take (i - start) = []) ||
      decide ((p.drop start).take (i - start) = [dot]) ||
      decide ((p.drop start).take (i - start) = [dot, dot])) := by
  have hlength : ((p.drop start).take (i - start)).length = i - start := by
    simp
    omega
  have hget (j : ℕ) (hj : j < i - start) := getD_drop_take p start hj
  generalize (p.drop start).take (i - start) = part at hlength hget
  cases part with
  | nil =>
    have hi : i = start := by
      simp at hlength
      omega
    simp [hi]
  | cons a part =>
    have hne : i ≠ start := by
      simp at hlength
      omega
    have ha : a = p.getD start 0 := hget 0 (by simp at hlength; omega)
    cases part with
    | nil =>
      have hone : i - start = 1 := by simpa using hlength.symm
      simp [hne, hone, ha]
    | cons b part =>
      have hb : b = p.getD (start + 1) 0 := hget 1 (by simp at hlength; omega)
      cases part with
      | nil =>
        have htwo : i - start = 2 := by simpa using hlength.symm
        simp [hne, htwo, ha, hb]
      | cons c part =>
        have hmore : 2 < i - start := by
          simp at hlength
          omega
        simp [hne, show i - start ≠ 1 by omega, show i - start ≠ 2 by omega]

theorem validPathFrom_eq_scan {n i start : ℕ} (hn : i + n = p.length) (hstart : start ≤ i) :
    validPathFrom p n i start = scan ((p.drop start).take (i - start)) (p.drop i) := by
  induction n generalizing i start with
  | zero =>
    rw [drop_of_length_le (by omega : p.length ≤ i)]
    rfl
  | succ n ih =>
    have hi : i < p.length := by omega
    have hget : p.getD i 0 = p[i] := by simp [hi]
    have hpart : (p.drop start).take (i + 1 - start) =
        (p.drop start).take (i - start) ++ [p[i]] := by
      rw [show i + 1 - start = (i - start) + 1 by omega, take_add_one]
      simp [hi, show start + (i - start) = i by omega]
    rw [drop_eq_getElem_cons hi, validPathFrom, scan]
    simp only [hget, bad_part hi hstart, ih (show i + 1 + n = p.length by omega) (le_refl _),
      ih (show i + 1 + n = p.length by omega) (show start ≤ i + 1 by omega), hpart,
      Nat.sub_self, take_zero]

theorem okPart_iff (part : List UInt8) :
    (decide (part = []) || decide (part = [dot]) || decide (part = [dot, dot])) = false ↔
      OkPart part := by
  simp [OkPart, and_assoc]

theorem cons_eq_append_zeros {c : UInt8} {rest : List UInt8} (hc : c ≠ 0) (P : List UInt8 → Prop) :
    (∃ text n, c :: rest = text ++ replicate (n + 1) 0 ∧ P text) ↔
      ∃ text n, rest = text ++ replicate (n + 1) 0 ∧ P (c :: text) := by
  constructor
  · rintro ⟨text, n, heq, htext⟩
    cases text with
    | nil => exact absurd (List.cons.inj heq).1 hc
    | cons a text =>
      obtain ⟨rfl, hrest⟩ := List.cons.inj heq
      exact ⟨text, n, hrest, htext⟩
  · rintro ⟨text, n, rfl, htext⟩
    exact ⟨c :: text, n, rfl, htext⟩

theorem scan_iff {part rest : List UInt8} (hsep : backslash ∉ part) :
    scan part rest = true ↔ ∃ text n, rest = text ++ replicate (n + 1) 0 ∧
      (∀ c ∈ text, forbidden c = false) ∧
      ∀ piece ∈ (part ++ text).splitOn backslash, OkPart piece := by
  induction rest generalizing part with
  | nil => simp [scan]
  | cons c rest ih =>
    rw [scan]
    by_cases hzero : c = 0
    · subst hzero
      constructor
      · intro h
        by_cases hbad : OkPart part
        · rw [if_pos (by simp), (okPart_iff part).mpr hbad] at h
          simp only [Bool.false_eq_true, if_false, if_true, all_eq_true, decide_eq_true_eq] at h
          refine ⟨[], rest.length, ?_, by simp, ?_⟩
          · rw [replicate_succ, nil_append, ← eq_replicate_of_mem h]
          · rw [append_nil, splitOn_eq_singleton hsep]
            simpa using hbad
        · rw [if_pos (by simp), if_pos] at h
          · cases h
          · rwa [← okPart_iff, Bool.not_eq_false] at hbad
      · rintro ⟨text, n, heq, hplain, hparts⟩
        cases text with
        | nil =>
          rw [append_nil, splitOn_eq_singleton hsep] at hparts
          have hok := hparts part (by simp)
          rw [if_pos (by simp), (okPart_iff part).mpr hok]
          have hrest : rest = replicate n 0 := (List.cons.inj heq).2
          simp [hrest]
        | cons a text =>
          have ha := hplain a (by simp)
          rw [← (List.cons.inj heq).1, forbidden_zero] at ha
          cases ha
    · rw [cons_eq_append_zeros hzero]
      by_cases hc : c = backslash
      · subst hc
        have hsplit (text : List UInt8) : (part ++ backslash :: text).splitOn backslash =
            part :: text.splitOn backslash :=
          splitOn_append_cons_self_of_not_mem hsep text
        simp only [hsplit, mem_cons, forall_eq_or_imp, not_forbidden_backslash, true_and]
        by_cases hok : OkPart part
        · rw [if_pos (by simp), (okPart_iff part).mpr hok]
          simp only [Bool.false_eq_true, if_false, if_neg hzero, hok, true_and]
          rw [ih (by simp)]
          simp
        · rw [if_pos (by simp), if_pos (by rwa [← okPart_iff, Bool.not_eq_false] at hok)]
          simp [hok]
      · rw [if_neg (by simp [hzero, hc])]
        cases hforbidden : forbidden c with
        | true => simp [hforbidden]
        | false =>
          rw [if_neg (by simp), ih (by simp [hsep, Ne.symm hc])]
          simp [hforbidden]

/-- The firmware accepts exactly the canonical paths, filled up with zeros. -/
theorem validPath_iff (hp : p.length = pathBytes) :
    validPath p = true ↔ ∃ text, Canonical text ∧ p = ljust pathBytes text := by
  have hp : p.length = 256 := hp
  rw [validPath, validPathFrom_eq_scan (by omega) (le_refl 1), Nat.sub_self, take_zero,
    Bool.and_eq_true, scan_iff (by simp)]
  cases p with
  | nil => simp at hp
  | cons a p =>
    simp only [getD_cons_zero, decide_eq_true_eq, drop_succ_cons, drop_zero, nil_append]
    constructor
    · rintro ⟨rfl, text, n, rfl, hplain, hparts⟩
      have hn : text.length + (n + 1) = 255 := by simpa using hp
      refine ⟨backslash :: text, ⟨rfl, hparts, ?_, ?_⟩, ?_⟩
      · intro c hc
        rcases mem_cons.mp hc with rfl | hc
        · exact not_forbidden_backslash
        · exact hplain c hc
      · show text.length + 1 < 256
        omega
      · rw [ljust, cons_append, length_cons,
          show pathBytes - (text.length + 1) = n + 1 from (by show 256 - _ = _; omega)]
    · rintro ⟨text, htext, heq⟩
      obtain ⟨rest, rfl⟩ : ∃ rest, text = backslash :: rest :=
        List.head?_eq_some_iff.mp htext.absolute
      rw [ljust, cons_append] at heq
      obtain ⟨rfl, rfl⟩ := List.cons.inj heq
      have hlength : rest.length + 1 < 256 := htext.length
      refine ⟨rfl, rest, 254 - rest.length, ?_, fun c hc => htext.plain c (by simp [hc]),
        htext.parts⟩
      rw [length_cons, show pathBytes - (rest.length + 1) = 254 - rest.length + 1 from
        (by show 256 - _ = _; omega)]

/-! ## The tool's check -/

/-- The code points of a text in ASCII. -/
def codes (text : List UInt8) : Str := text.map UInt8.toNat

theorem codes_inj {a b : List UInt8} : codes a = codes b ↔ a = b :=
  map_inj_right fun _ _ h => UInt8.toNat_inj.mp h

theorem encodeAscii_eq_some {s : Str} {raw : List UInt8} :
    encodeAscii s = some raw ↔ s = codes raw ∧ ∀ c ∈ raw, c.toNat < 128 := by
  rw [encodeAscii]
  constructor
  · intro h
    split at h
    · rename_i hall
      obtain rfl := Option.some.inj h
      simp only [all_eq_true, decide_eq_true_eq] at hall
      have hback (n : ℕ) (hn : n ∈ s) : (UInt8.ofNat n).toNat = n := by
        have := hall n hn
        simp
        omega
      refine ⟨?_, ?_⟩
      · rw [codes, map_map]
        exact (map_id s).symm.trans (map_congr_left fun n hn => (hback n hn).symm)
      · intro c hc
        obtain ⟨n, hn, rfl⟩ := mem_map.mp hc
        rw [hback n hn]
        exact hall n hn
    · cases h
  · rintro ⟨rfl, hall⟩
    rw [if_pos (by simpa [codes] using hall), codes, map_map]
    simp [Function.comp_def]

theorem splitOn_codes (text : List UInt8) (c : UInt8) :
    (codes text).splitOn c.toNat = (text.splitOn c).map codes := by
  induction text with
  | nil => simp [codes]
  | cons a text ih =>
    rw [codes, map_cons, ← codes, splitOn_cons_eq_if_modifyHead, splitOn_cons_eq_if_modifyHead, ih]
    by_cases ha : a = c
    · simp [ha, codes]
    · have hne : a.toNat ≠ c.toNat := fun h => ha (UInt8.toNat_inj.mp h)
      cases htext : text.splitOn c with
      | nil => simp [ha, hne]
      | cons part parts => simp [ha, hne, codes]

theorem forbidden_eq_false (c : UInt8) :
    forbidden c = false ↔ c.toNat ∉ badChars ∧ (decide (c < 32) || decide (126 < c)) = false := by
  simp only [forbidden, badChars, ← UInt8.toNat_inj, UInt8.lt_iff_toNat_lt]
  simp
  omega

theorem canonical_iff {text : List UInt8} :
    Canonical text ↔ ((codes text).head? = some 0x5c ∧ (∀ c ∈ text, c.toNat ∉ badChars) ∧
        ∀ part ∈ (codes (text.drop 1)).splitOn 0x5c, part ≠ [] ∧ part ≠ [0x2e] ∧
          part ≠ [0x2e, 0x2e]) ∧
      text.length < pathBytes ∧ ∀ c ∈ text, (decide (c < 32) || decide (126 < c)) = false := by
  have hhead : (codes text).head? = some 0x5c ↔ text.head? = some backslash := by
    cases text with
    | nil => simp [codes]
    | cons a text => simp [codes, backslash, ← UInt8.toNat_inj]
  have hparts : (∀ part ∈ (codes (text.drop 1)).splitOn 0x5c, part ≠ [] ∧ part ≠ [0x2e] ∧
      part ≠ [0x2e, 0x2e]) ↔ ∀ part ∈ (text.drop 1).splitOn backslash, OkPart part := by
    rw [show (0x5c : ℕ) = backslash.toNat from rfl, splitOn_codes]
    simp only [forall_mem_map, OkPart]
    have hnil (part : List UInt8) : codes part = [] ↔ part = [] := codes_inj (b := [])
    have hdot (part : List UInt8) : codes part = [0x2e] ↔ part = [dot] := codes_inj (b := [dot])
    have hdots (part : List UInt8) : codes part = [0x2e, 0x2e] ↔ part = [dot, dot] :=
      codes_inj (b := [dot, dot])
    simp only [ne_eq, hnil, hdot, hdots]
  rw [hhead, hparts]
  constructor
  · intro h
    have hplain (c : UInt8) (hc : c ∈ text) := (forbidden_eq_false c).mp (h.plain c hc)
    exact ⟨⟨h.absolute, fun c hc => (hplain c hc).1, h.parts⟩, h.length,
      fun c hc => (hplain c hc).2⟩
  · rintro ⟨⟨habsolute, hbad, hparts⟩, hlength, hprintable⟩
    exact ⟨habsolute, hparts, fun c hc => (forbidden_eq_false c).mpr ⟨hbad c hc, hprintable c hc⟩,
      hlength⟩

theorem shape_iff (path : Str) :
    (decide (path.head? ≠ some 0x5c) || badChars.any (path.contains ·) ||
      ((path.drop 1).splitOn 0x5c).any fun part => decide (part = []) || decide (part = [0x2e]) ||
        decide (part = [0x2e, 0x2e])) = false ↔
      path.head? = some 0x5c ∧ (∀ c ∈ path, c ∉ badChars) ∧
        ∀ part ∈ (path.drop 1).splitOn 0x5c, part ≠ [] ∧ part ≠ [0x2e] ∧ part ≠ [0x2e, 0x2e] := by
  simp only [Bool.or_eq_false_iff, decide_eq_false_iff_not, not_not, any_eq_false,
    contains_iff_mem, and_assoc, ne_eq, Bool.not_eq_true]
  refine and_congr_right fun _ => and_congr_left fun _ => ?_
  exact ⟨fun h c hc hbad => h c hbad hc, fun h c hbad hc => h c hc hbad⟩

theorem encodePath_eq_some {path : Str} {raw : List UInt8} : encodePath path = some raw ↔
      ∃ text, Canonical text ∧ path = codes text ∧ raw = ljust pathBytes text := by
  constructor
  · intro h
    rw [encodePath] at h
    split at h
    · cases h
    rename_i hshape
    rw [Bool.not_eq_true, shape_iff] at hshape
    cases htext : encodeAscii path with
    | none => simp [htext] at h
    | some text =>
      obtain ⟨rfl, -⟩ := encodeAscii_eq_some.mp htext
      simp only [htext, Option.bind_eq_bind, Option.bind_some] at h
      split at h
      · cases h
      rename_i hlength
      simp only [Bool.or_eq_true, decide_eq_true_eq, not_or, not_le, Bool.not_eq_true,
        any_eq_false] at hlength
      refine ⟨text, canonical_iff.mpr ⟨⟨hshape.1, ?_, ?_⟩, hlength.1, ?_⟩, rfl,
        (Option.some.inj h).symm⟩
      · intro c hc
        exact hshape.2.1 c.toNat (mem_map_of_mem hc)
      · simpa [codes] using hshape.2.2
      · intro c hc
        simpa using hlength.2 c hc
  · rintro ⟨text, htext, rfl, rfl⟩
    obtain ⟨⟨hhead, hbad, hparts⟩, hlength, hprintable⟩ := canonical_iff.mp htext
    have hascii : encodeAscii (codes text) = some text := by
      refine encodeAscii_eq_some.mpr ⟨rfl, fun c hc => ?_⟩
      have := hprintable c hc
      simp only [Bool.or_eq_false_iff, decide_eq_false_iff_not, UInt8.lt_iff_toNat_lt] at this
      have h126 : (126 : UInt8).toNat = 126 := rfl
      omega
    have hshape := (shape_iff (codes text)).mpr ⟨hhead, ?_, ?_⟩
    · rw [encodePath, if_neg (by rw [hshape]; simp), hascii]
      simp only [Option.bind_eq_bind, Option.bind_some]
      rw [if_neg]
      simp only [Bool.or_eq_true, decide_eq_true_eq, not_or, not_le, Bool.not_eq_true, any_eq_false]
      refine ⟨hlength, fun c hc => ?_⟩
      simpa using hprintable c hc
    · intro n hn
      obtain ⟨c, hc, rfl⟩ := mem_map.mp hn
      exact hbad c hc
    · simpa [codes] using hparts

end Q1n1.Preload
