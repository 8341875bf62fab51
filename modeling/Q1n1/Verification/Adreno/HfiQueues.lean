import Mathlib.Tactic.Ring
import Q1n1.Library.History
import Q1n1.Library.MessageRing
import Q1n1.Model.Adreno.Hfi

/-! # HFI commands and acknowledgements

Both queues hold exactly what was put in and not yet taken out, whatever the GMU does between
two accesses of the host. -/

namespace Q1n1.Adreno.Hfi

open MessageRing List

/-! ## What the queues hold -/

/-- A message whose header gives its length. -/
def Framed (words : List ℕ) : Prop :=
  0 < words.length ∧ words.length < 256 ∧ dwordsOf (words.headD 0) = words.length

/-- All that was put in a queue has been taken out of it, but for what it holds. -/
structure Carries (q : Queue) (put out : List (List ℕ)) : Prop where
  size_eq : q.size = queueDwords
  framed : ∀ m ∈ put, Framed m
  held : ∃ ms, put = out ++ ms ∧ Holds queueDwords 4 q.data q.read q.write ms

theorem align4_eq (k n : ℕ) (hn : 4 ∣ n) : align4 n (k % n) = align 4 k % n := by
  obtain ⟨c, rfl⟩ := hn
  have hdiv := Nat.div_add_mod k (4 * c)
  have hsplit : (k + 3) / 4 * 4 = (k % (4 * c) + 3) / 4 * 4 + 4 * c * (k / (4 * c)) := by
    have hk : k + 3 = (k % (4 * c) + 3) + 4 * (c * (k / (4 * c))) := by
      rw [← Nat.mul_assoc]; omega
    rw [hk, Nat.add_mul_div_left _ _ (by decide)]
    ring
  rw [align4, align, hsplit, Nat.add_mul_mod_self_left]

theorem align_add (i k : ℕ) (hi : 4 ∣ i) : align 4 (i + k) = i + align 4 k := by
  obtain ⟨c, rfl⟩ := hi
  simp only [align]
  omega

variable {i : ℕ}

theorem align4_next (hi : 4 ∣ i) (k : ℕ) :
    align4 queueDwords ((i + k) % queueDwords) = (i + align 4 k) % queueDwords := by
  rw [align4_eq _ _ (by decide), align_add i k hi]

theorem copyOut_headD (n : ℕ) (data : ℕ → ℕ) (i : ℕ) {m : List ℕ} (hm : 0 < m.length)
    (h : Ring.copyOut n data i m.length = m) : m.headD 0 = data i := by
  cases m with
  | nil => simp at hm
  | cons a m =>
    simp only [length_cons, Ring.copyOut, List.cons.injEq] at h
    simp [h.1]

theorem Carries.blank : Carries .blank [] [] :=
  ⟨rfl, by simp, [], rfl, Holds.nil (by decide) (by decide) (by decide)⟩

variable {q : Queue} {put out : List (List ℕ)} {m : List ℕ}

section

variable (h : Carries q put out)
include h

theorem Carries.head {ms : List (List ℕ)} (hput : put = out ++ m :: ms) :
    dwordsOf (q.data q.read) = m.length ∧ Ring.copyOut q.size q.data q.read m.length = m ∧
      Carries { q with read := align4 q.size ((q.read + m.length) % q.size) } put (out ++ [m]) := by
  obtain ⟨ms', hput', hholds⟩ := h.held
  have hms : ms' = m :: ms := append_cancel_left (hput'.symm.trans hput)
  rw [hms] at hholds
  have hm : Framed m := h.framed m (by simp [hput])
  obtain ⟨hout, hrest⟩ := hholds.pop
  refine ⟨?_, ?_, ?_⟩
  · rw [← copyOut_headD _ _ _ hm.1 hout]
    exact hm.2.2
  · rw [h.size_eq]
    exact hout
  · rw [h.size_eq, align4_next hholds.read_dvd]
    exact ⟨rfl, h.framed, ms, by simp [hput], hrest⟩

theorem Carries.read_eq_iff : q.read = q.write ↔ put = out := by
  obtain ⟨ms, hput, hholds⟩ := h.held
  have hne : ∀ m ∈ ms, m ≠ [] := by
    intro m hm
    have hframed : Framed m := h.framed m (by simp [hput, hm])
    exact length_pos_iff.mp hframed.1
  rw [hholds.eq_iff hne, hput]
  simp

theorem Carries.exists_head (hne : q.read ≠ q.write) : ∃ m ms, put = out ++ m :: ms := by
  obtain ⟨ms, hput, _⟩ := h.held
  cases ms with
  | nil => exact absurd (h.read_eq_iff.mpr (by simpa using hput)) hne
  | cons m ms => exact ⟨m, ms, hput⟩

theorem Carries.withData (hidle : q.read = q.write) (data : ℕ → ℕ) :
    Carries { q with data := data } put out := by
  have hput := h.read_eq_iff.mp hidle
  obtain ⟨_, _, hholds⟩ := h.held
  refine ⟨h.size_eq, h.framed, [], by simp [hput], ?_⟩
  simp only [← hidle]
  exact Holds.nil hholds.grid hholds.read_lt hholds.read_dvd

theorem Carries.push (pad : List ℕ) (hm : Framed m) (hpad : (m ++ pad).length ≤ align 4 m.length)
    (hroom : Ring.dist q.size q.read q.write + align 4 m.length < q.size) :
    Carries { q with
      data := (Ring.copyIn q.size q.data q.write (m ++ pad)).1
      write := (q.write + align 4 m.length) % q.size } (put ++ [m]) out := by
  obtain ⟨ms, hput, hholds⟩ := h.held
  rw [h.size_eq, hholds.held] at hroom
  rw [h.size_eq]
  refine ⟨rfl, ?_, ms ++ [m], by simp [hput], hholds.push pad hpad hroom⟩
  exact History.forall_concat h.framed hm

end

/-! ## The GMU's turn -/

/-- The queues carry the messages and the responses, and the answers follow the order of the
messages read, each with the header of its message. -/
structure Sound (w : World) : Prop where
  cmd : Carries w.cmd w.queued w.got
  rsp : Carries w.rsp (w.posted.map Reply.words) w.taken
  ordered : (w.posted.filterMap Reply.answers).Pairwise (· < ·)
  answered : ∀ r ∈ w.posted, ∀ i ∈ r.answers, ∃ m ∈ w.got[i]?,
    ∀ header ∈ r.words[1]?, header = m.headD 0
  reported : ∀ r ∈ w.posted, r.answers = none → r.words.headD 0 &&& 0xff = msgError

variable {w : World}

theorem Sound.gmuRead (h : Sound w) : Sound w.gmuRead := by
  unfold World.gmuRead
  split
  · exact h
  · rename_i hne
    obtain ⟨m, ms, hput⟩ := h.cmd.exists_head hne
    obtain ⟨hlength, hout, hpop⟩ := h.cmd.head hput
    simp only [hlength, hout]
    refine ⟨hpop, h.rsp, h.ordered, ?_, h.reported⟩
    intro r hr i hi
    obtain ⟨m, hm, hheader⟩ := h.answered r hr i hi
    have hlt := (List.getElem?_eq_some_iff.mp hm).1
    exact ⟨m, by simpa [getElem?_append_left hlt] using hm, hheader⟩

theorem Sound.post (h : Sound w) (r : Reply) (hfits : w.Fits r.words)
    (hordered : ∀ r' ∈ w.posted, ∀ i ∈ r'.answers, ∀ j ∈ r.answers, i < j)
    (hanswered : ∀ i ∈ r.answers, ∃ m ∈ w.got[i]?, ∀ header ∈ r.words[1]?, header = m.headD 0)
    (hreported : r.answers = none → r.words.headD 0 &&& 0xff = msgError) : Sound (w.post r) := by
  obtain ⟨hpos, hlt, hsize, hroom⟩ := hfits
  obtain ⟨ms, hput, hholds⟩ := h.rsp.held
  have hpush := h.rsp.push (m := r.words) [] ⟨hpos, hlt, hsize⟩
    (by simpa using le_align (by decide) r.words.length) hroom
  refine ⟨h.cmd, ?_, ?_, ?_, ?_⟩
  · simp only [World.post, map_append, map_cons, map_nil]
    rw [h.rsp.size_eq, align4_next hholds.write_dvd]
    rw [h.rsp.size_eq, append_nil] at hpush
    exact hpush
  · simp only [World.post, filterMap_append]
    refine pairwise_append.mpr ⟨h.ordered, ?_, ?_⟩
    · cases hr : r.answers <;> simp [hr]
    · intro i hi j hj
      obtain ⟨r', hr', hi⟩ := mem_filterMap.mp hi
      exact hordered r' hr' i hi j (by simpa using hj)
  · exact History.forall_concat h.answered hanswered
  · exact History.forall_concat h.reported hreported

theorem Sound.gmuAct (h : Sound w) (a : GmuAct) : Sound (w.gmuAct a) := by
  cases a with
  | read => exact h.gmuRead
  | answer message words =>
    simp only [World.gmuAct]
    split
    · rename_i hmay
      apply h.post _ hmay.1
      · intro r hr i hi j hj
        cases hj
        exact hmay.2.1 r hr i hi
      · intro i hi
        cases hi
        exact hmay.2.2
      · intro hnone
        cases hnone
    · exact h
  | report words =>
    simp only [World.gmuAct]
    split
    · rename_i hmay
      apply h.post _ hmay.1
      · intro r hr i hi j hj
        cases hj
      · intro i hi
        cases hi
      · exact fun _ => hmay.2
    · exact h

theorem Sound.gmu (h : Sound w) (acts : List GmuAct) : Sound (acts.foldl World.gmuAct w) := by
  induction acts generalizing w with
  | nil => exact h
  | cons a acts ih => exact ih (h.gmuAct a)

theorem sound_boot (turns : List Turn) : Sound (boot turns) :=
  ⟨.blank, .blank, by simp [boot], by simp [boot], by simp [boot]⟩

def seqOf (header : ℕ) : ℕ := header >>> 20 &&& 0xfff
def idOf (header : ℕ) : ℕ := header &&& 0xff

theorem hfiHeader_eq {seq id dwords : ℕ} (hseq : seq < 4096) (hid : id < 256)
    (hdwords : dwords < 256) : hfiHeader seq id dwords = seq * 2 ^ 20 + (dwords * 2 ^ 8 + id) := by
  have hs : seq &&& 0xfff = seq := by
    rw [show 0xfff = 2 ^ 12 - 1 by decide, Nat.and_two_pow_sub_one_eq_mod]
    exact Nat.mod_eq_of_lt hseq
  have hd : dwords &&& 0xff = dwords := by
    rw [show 0xff = 2 ^ 8 - 1 by decide, Nat.and_two_pow_sub_one_eq_mod]
    exact Nat.mod_eq_of_lt hdwords
  have hlow : dwords <<< 8 + id = dwords <<< 8 ||| id :=
    Nat.shiftLeft_add_eq_or_of_lt (by simpa using hid) dwords
  have hsmall : dwords <<< 8 + id < 2 ^ 20 := by
    rw [Nat.shiftLeft_eq]
    omega
  rw [hfiHeader, hs, hd, Nat.zero_shiftLeft, Nat.or_zero, Nat.lor_assoc, ← hlow,
    ← Nat.shiftLeft_add_eq_or_of_lt hsmall, Nat.shiftLeft_eq, Nat.shiftLeft_eq]

theorem dwordsOf_eq (header : ℕ) : dwordsOf header = header / 2 ^ 8 % 2 ^ 8 := by
  rw [dwordsOf, show 0xff = 2 ^ 8 - 1 by decide, Nat.and_two_pow_sub_one_eq_mod,
    Nat.shiftRight_eq_div_pow]

variable {seq : ℕ}

theorem Message.framed (m : Message) (hseq : seq < 4096) : Framed (m.words seq) := by
  have hid := m.id_lt
  have hshort := m.short
  refine ⟨by simp [Message.words], by simp [Message.words]; omega, ?_⟩
  rw [Message.words, headD_cons, hfiHeader_eq hseq hid (by omega), dwordsOf_eq,
    length_cons]
  omega

/-! ## Writing a message -/

def storeWord (data : ℕ → ℕ) (p : ℕ × ℕ) : ℕ → ℕ := Function.update data p.1 p.2

theorem foldl_storeWord_indexed {n : ℕ} (hi : i < n) (data : ℕ → ℕ) (words : List ℕ) :
    (indexed n i words).foldl storeWord data = (Ring.copyIn n data i words).1 := by
  induction words generalizing data i with
  | nil => rfl
  | cons word words ih =>
    rw [indexed, foldl_cons, Ring.copyIn, Ring.next_eq_mod hi]
    exact ih (Nat.mod_lt _ (by omega)) _

variable (data : ℕ → ℕ)

theorem storeRun_append (i : ℕ) (words : List ℕ) (word : ℕ) : storeRun data (i, words ++ [word]) =
      storeWord (storeRun data (i, words)) (i + words.length, word) := by
  funext a
  simp only [storeRun, storeWord, Function.update_apply, length_append, length_singleton]
  rcases Nat.lt_trichotomy a (i + words.length) with hlt | heq | hgt
  · by_cases hle : i ≤ a
    · rw [if_pos ⟨hle, by omega⟩, if_neg (by omega), if_pos ⟨hle, hlt⟩,
        getD_append _ _ _ _ (by omega)]
    · rw [if_neg (by omega), if_neg (by omega), if_neg (by omega)]
  · subst heq
    simp
  · rw [if_neg (by omega), if_neg (by omega), if_neg (by omega)]

theorem foldl_storeRun_addRun (runs : List (ℕ × List ℕ)) (p : ℕ × ℕ) :
    (addRun runs p).foldl storeRun data = storeWord (runs.foldl storeRun data) p := by
  have hsingle (d : ℕ → ℕ) : storeRun d (p.1, [p.2]) = storeWord d p := by
    have happend := storeRun_append d p.1 [] p.2
    have hnil : storeRun d (p.1, []) = d := by
      funext a
      exact if_neg (by simp)
    simpa [hnil] using happend
  unfold addRun
  split
  · rename_i run hlast
    obtain ⟨front, rfl⟩ := List.getLast?_eq_some_iff.mp hlast
    split
    · rename_i hat
      simp only [dropLast_concat, foldl_append, foldl_cons, foldl_nil]
      rw [storeRun_append, ← hat]
    · simp only [foldl_append, foldl_cons, foldl_nil, hsingle]
  · rename_i hlast
    rw [List.getLast?_eq_none_iff] at hlast
    simp [hlast, hsingle]

theorem foldl_storeRun_foldl_addRun (ps : List (ℕ × ℕ)) (runs : List (ℕ × List ℕ)) :
    (ps.foldl addRun runs).foldl storeRun data = ps.foldl storeWord (runs.foldl storeRun data) := by
  induction ps generalizing runs with
  | nil => rfl
  | cons p ps ih => rw [foldl_cons, ih, foldl_storeRun_addRun, foldl_cons]

theorem foldl_storeRun_runs {n : ℕ} (hi : i < n) (data : ℕ → ℕ) (words : List ℕ) :
    ((indexed n i words).foldl addRun []).foldl storeRun data = (Ring.copyIn n data i words).1 := by
  rw [foldl_storeRun_foldl_addRun, foldl_nil, foldl_storeWord_indexed hi]

theorem padFrom_length {n : ℕ} (hn : 4 ∣ n) (fuel : ℕ) (hfuel : (4 - i % 4) % 4 ≤ fuel) :
    (padFrom n fuel i).length = (4 - i % 4) % 4 := by
  induction fuel generalizing i with
  | zero =>
    rw [padFrom, length_nil]
    omega
  | succ fuel ih =>
    rw [padFrom]
    split
    · rename_i hi
      simp [hi]
    · rename_i hi
      have hmod : (i + 1) % n % 4 = (i + 1) % 4 := Nat.mod_mod_of_dvd _ hn
      rw [length_cons, ih (by omega), hmod]
      omega

theorem length_append_padFrom (hi : 4 ∣ i) (words : List ℕ) :
    (words ++ padFrom queueDwords 4 ((i + words.length) % queueDwords)).length =
      align 4 words.length := by
  have hmod : (i + words.length) % queueDwords % 4 = words.length % 4 := by
    rw [Nat.mod_mod_of_dvd _ (by decide)]
    omega
  rw [length_append, padFrom_length (by decide) 4 (by omega), hmod, align]
  omega

end Q1n1.Adreno.Hfi
