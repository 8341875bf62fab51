import Q1n1.Verification.Proxy.Strict

/-! # Strict mode over a session

Memory reads, the SError record, and whole sequences of requests. -/

namespace Q1n1.Proxy

open Bytes List Does

variable {M : Type} {P : Platform M} {w : World (M × List Touch)}

/-- The second pass of a read may do anything, as its status has been sent. It does not poll
over the record. -/
theorem memoryReadFrom_does (address size : ℕ) (record : Bool) (done : ℕ) :
    Does (memoryReadFrom P.traced address size record done) w fun _ w' _ =>
      ∃ t, w'.touches = w.touches ++ t ∧ (record = true → ∀ q ∈ t, q.isPoll = false) := by
  induction hm : size - done using Nat.strong_induction_on generalizing done w with
  | _ m ih =>
    by_cases hlt : done < size
    · have hless : size - (done + chunk size done) < m := by
        have := chunk_pos hlt
        omega
      have hrest : ∀ (w₀ w₁ : World (M × List Touch)) (t : List Touch),
          w₁.touches = w.touches ++ t → (record = true → ∀ q ∈ t, q.isPoll = false) →
          Does (do
            if ← writeFull (w₀.bounce.load 0 (chunk size done)) then
              memoryReadFrom P.traced address size record (done + chunk size done)
            else return false) w₁ fun _ w' _ =>
              ∃ t, w'.touches = w.touches ++ t ∧ (record = true → ∀ q ∈ t, q.isPoll = false) := by
        intro w₀ w₁ t h₁ hpolls
        refine writeFull_bind fun ok => ?_
        cases ok with
        | true =>
          refine (ih _ hless _ rfl).mono ?_
          rintro _ w₂ _ ⟨t', h₂, hpolls'⟩
          refine ⟨t ++ t', by rw [h₂, h₁, append_assoc], fun hrecord => ?_⟩
          exact forall_mem_append.mpr ⟨hpolls hrecord, hpolls' hrecord⟩
        | false => exact pure ⟨t, h₁, hpolls⟩
      rw [memoryReadFrom, dif_pos hlt]
      refine unmarked_bind fun _ w₁ h₁ => ?_
      refine accesses_bind (accesses_copyToBounce P _ _ _) fun _ w₂ t h₂ hpolls => ?_
      refine unmarked_bind fun _ w₃ h₃ => ?_
      have htouches : w₃.touches = w.touches ++ t := by rw [h₃, h₂, h₁]
      cases record with
      | true =>
        exact unmarked_bind fun w₀ w₄ h₄ =>
          hrest w₀ w₄ t (h₄.trans htouches) fun _ => hpolls
      | false =>
        obtain ⟨outcome, hpoll, -⟩ := serrorCheck_touches P .during reqMemread
          ((address + done) % 2 ^ 64) w₃
        refine of_bind ?_
        refine unmarked_bind fun w₀ w₄ h₄ => ?_
        rw [hpoll, htouches, append_assoc] at h₄
        exact hrest w₀ w₄ _ h₄ fun h => absurd h Bool.false_ne_true
    · rw [memoryReadFrom, dif_neg hlt]
      exact pure ⟨[], by simp, by simp⟩

variable {address size : ℕ}

/-- A read that is not of the record: both checks come before the status, and a second pass
only follows a good status that went out. -/
theorem memoryRead_does (hrecord : serrorRecordRead P address size = false) :
    Does (memoryRead P.traced reqMemread address size) w fun _ w' o =>
      ∃ first second, w'.touches = w.touches ++ (first ++ second) ∧ Halts reqMemread first o ∧
        (second ≠ [] → ∃ data, o.head? = some (replyBytes reqMemread stOk data, true)) ∧
        ∃ p rest, first = p :: rest ∧ p.isPoll = true := by
  have hfail : ∀ ok, ¬Succeeds reqMemread [(replyBytes reqMemread stXfrerr [], ok)] :=
    fun ok => not_succeeds_of_status (by decide) (by decide)
  have hrecord' : serrorRecordRead P.traced address size = false := hrecord
  simp only [memoryRead, hrecord', Bool.false_eq_true, if_false]
  refine unmarked_bind fun _ w₁ h₁ => bars_bind fun p w₂ h₂ hpoll => ?_
  cases hbar : p.barring with
  | true =>
    refine unmarked_bind fun _ w₃ h₃ => sendReply_bind fun ok => ?_
    refine pure ⟨[p], [], by rw [h₃, h₂, h₁]; simp, ?_, by simp, p, [], rfl, hpoll⟩
    exact .inr ⟨[], p, rfl, hbar, by simp, hfail ok⟩
  | false =>
    refine unmarked_bind fun _ w₃ h₃ => ?_
    refine accesses_bind (accesses_checksumMemory P _ _ _) fun sum w₄ t h₄ hpolls => ?_
    refine unmarked_bind fun _ w₅ h₅ => bars_bind fun q w₆ h₆ _ => ?_
    refine unmarked_bind fun w₀ w₇ h₇ => ?_
    have htouches : w₇.touches = w.touches ++ ([p] ++ t ++ [q]) := by
      rw [h₇, h₆, h₅, h₄, h₃, h₂, h₁]
      simp
    have hhalts : ∀ o, (q.barring = true → ¬Succeeds reqMemread o) →
        Halts reqMemread ([p] ++ t ++ [q]) o := fun o ho => Halts.bracket hbar hpolls ho
    split
    · refine sendReply_bind fun ok => pure ⟨[p] ++ t ++ [q], [], ?_, ?_, ?_, ?_⟩
      · rw [htouches, append_nil]
      · exact hhalts _ fun _ => hfail ok
      · simp
      · exact ⟨p, t ++ [q], by simp, hpoll⟩
    · rename_i hgood
      have hq : q.barring = false := by
        simp only [Bool.or_eq_true, not_or, Bool.not_eq_true] at hgood
        exact hgood.2
      have hok : ∀ o, Halts reqMemread ([p] ++ t ++ [q]) o :=
        fun o => hhalts o fun h => absurd h (by simp [hq])
      refine checksumsOff_bind fun off => sendReply_bind fun ok => ?_
      cases ok with
      | false =>
        exact pure ⟨_, [], by rw [htouches, append_nil], hok _, by simp, p, t ++ [q],
          by simp, hpoll⟩
      | true =>
        refine (memoryReadFrom_does address size false 0).bind ?_
        rintro sent w₈ o ⟨second, h₈, -⟩
        have hend : ∀ o', ∃ first second', w₈.touches = w.touches ++ (first ++ second') ∧
            Halts reqMemread first ((replyBytes reqMemread stOk (putLe 4 (if off = true then
              checksumSentinel else sum ^^^ checksumFinal)), true) :: (o ++ o')) ∧
            (second' ≠ [] → ∃ data, ((replyBytes reqMemread stOk (putLe 4 (if off = true then
              checksumSentinel else sum ^^^ checksumFinal)), true) :: (o ++ o')).head? =
                some (replyBytes reqMemread stOk data, true)) ∧
            ∃ p rest, first = p :: rest ∧ p.isPoll = true := by
          intro o'
          refine ⟨_, second, by rw [h₈, htouches, append_assoc], hok _, ?_, p, t ++ [q],
            by simp, hpoll⟩
          exact fun _ => ⟨_, rfl⟩
        cases sent with
        | false => exact pure (hend [])
        | true =>
          refine checksumsOff_bind fun off' => ?_
          cases off' with
          | false => exact pure (hend [])
          | true => exact writeFull_bind fun ok => pure (hend [_])

/-! ## Reads of the record -/

theorem memoryRead_unpolled (hrecord : serrorRecordRead P address size = true) :
    Does (memoryRead P.traced reqMemread address size) w fun _ w' _ =>
      ∃ t, w'.touches = w.touches ++ t ∧ ∀ q ∈ t, q.isPoll = false := by
  have hrecord' : serrorRecordRead P.traced address size = true := hrecord
  simp only [memoryRead, hrecord', if_true]
  refine unmarked_bind fun _ w₁ h₁ => pure_bind ?_
  simp only [Bool.false_eq_true, if_false]
  refine unmarked_bind fun _ w₂ h₂ => ?_
  refine accesses_bind (accesses_checksumMemory P _ _ _) fun sum w₃ t h₃ hpolls => ?_
  refine unmarked_bind fun _ w₄ h₄ => pure_bind ?_
  refine unmarked_bind fun w₀ w₅ h₅ => ?_
  have htouches : w₅.touches = w.touches ++ t := by rw [h₅, h₄, h₃, h₂, h₁]
  split
  · exact sendReply_bind fun ok => pure ⟨t, htouches, hpolls⟩
  · refine checksumsOff_bind fun off => sendReply_bind fun ok => ?_
    cases ok with
    | false => exact pure ⟨t, htouches, hpolls⟩
    | true =>
      refine (memoryReadFrom_does address size true 0).bind ?_
      rintro sent w₆ o ⟨t', h₆, hpolls'⟩
      have hend : ∃ t, w₆.touches = w.touches ++ t ∧ ∀ q ∈ t, q.isPoll = false := by
        refine ⟨t ++ t', by rw [h₆, htouches, append_assoc], ?_⟩
        exact forall_mem_append.mpr ⟨hpolls, hpolls' rfl⟩
      cases sent with
      | false => exact pure hend
      | true =>
        refine checksumsOff_bind fun off' => ?_
        cases off' with
        | false => exact pure hend
        | true => exact writeFull_bind fun ok => pure hend

/-- The address is one of the record's. -/
def Platform.InRecord (P : Platform M) (address : ℕ) : Prop :=
  P.serrorRecord ≤ address ∧ address < P.serrorRecord + serrorBytes

/-- Every byte of the range is one of the record's; a range may wrap around. -/
def Platform.Inside (P : Platform M) (address size : ℕ) : Prop :=
  ∀ i, i < size → P.InRecord ((address + i) % 2 ^ 64)

/-- Loading from the record does not change it: it is plain memory. -/
def Platform.LoadsKeepRecord (P : Platform M) : Prop :=
  ∀ width address r, P.InRecord address → (P.load width address r).2.serror = r.serror

theorem serrorRecordRead_of_inside (haddress : address < 2 ^ 64) (hsize : 0 < size)
    (h : P.Inside address size) : serrorRecordRead P address size = true := by
  obtain ⟨hlow, hhigh⟩ := h 0 hsize
  rw [add_zero, Nat.mod_eq_of_lt haddress] at hlow hhigh
  have hend : address - P.serrorRecord + size ≤ serrorBytes := by
    by_contra hpast
    -- The byte right behind the record belongs to the range.
    obtain ⟨hl, hh⟩ := h (P.serrorRecord + serrorBytes - address) (by omega)
    rw [Nat.add_sub_cancel' hhigh.le] at hl hh
    simp only [serrorBytes] at *
    omega
  simp only [serrorRecordRead, Bool.and_eq_true, decide_eq_true_eq]
  simp only [serrorBytes] at *
  omega

def Touch.faulted : Touch → Bool
  | .load _ _ faulted => faulted
  | .store _ _ _ faulted => faulted
  | _ => false

theorem Platform.Inside.tail (h : P.Inside address (size + 1)) :
    P.Inside ((address + 1) % 2 ^ 64) size := by
  intro i hi
  rw [Nat.mod_add_mod, add_assoc, add_comm 1 i]
  exact h (i + 1) (by omega)

theorem Platform.Inside.head (haddress : address < 2 ^ 64) (h : P.Inside address (size + 1)) :
    P.InRecord address := by
  have hfirst := h 0 (by omega)
  rwa [add_zero, Nat.mod_eq_of_lt haddress] at hfirst

theorem Platform.Inside.slice {done n : ℕ} (h : P.Inside address size) (hn : done + n ≤ size) :
    P.Inside ((address + done) % 2 ^ 64) n := by
  intro i hi
  rw [Nat.mod_add_mod, add_assoc]
  exact h (done + i) (by omega)

/-- What code that reads the record leaves behind: the record as it was, no mark of a poll,
and no exception counted unless a load faulted. -/
structure ReadsRecord (w w' : World (M × List Touch)) : Prop where
  record : w'.ram.serror = w.ram.serror
  marks : ∃ t, w'.touches = w.touches ++ t ∧ (∀ q ∈ t, q.isPoll = false) ∧
    ((∀ q ∈ t, q.faulted = false) → w'.excCount = w.excCount)

theorem ReadsRecord.refl (w : World (M × List Touch)) : ReadsRecord w w :=
  ⟨rfl, [], by simp, by simp, by simp⟩

theorem ReadsRecord.trans {w₁ w₂ w₃ : World (M × List Touch)} (h : ReadsRecord w₁ w₂)
    (h' : ReadsRecord w₂ w₃) : ReadsRecord w₁ w₃ := by
  obtain ⟨t, ht, hpolls, hcount⟩ := h.marks
  obtain ⟨t', ht', hpolls', hcount'⟩ := h'.marks
  refine ⟨h'.record.trans h.record, t ++ t', by rw [ht', ht, append_assoc], ?_, ?_⟩
  · exact forall_mem_append.mpr ⟨hpolls, hpolls'⟩
  · intro hclean
    rw [hcount' fun q hq => hclean q (mem_append_right t hq),
      hcount fun q hq => hclean q (mem_append_left t' hq)]

theorem readsRecord_setGuard (guard : ℕ) (w : World (M × List Touch)) :
    ReadsRecord w (setGuard guard w).2 :=
  ⟨rfl, [], by rw [append_nil]; rfl, by simp, fun _ => rfl⟩

theorem succeeds_of_ok {type : ℕ} {data : List UInt8} {ok : Bool} {rest : List Written}
    (htype : type ≠ reqProxy) : Succeeds type ((replyBytes type stOk data, ok) :: rest) := by
  refine ⟨_, rfl, ?_⟩
  rw [OkReply, if_neg htype, replyBytes_status]
  rfl

/-- What serving a read of the record does: no poll, the record stays as it is, and the read
succeeds unless one of its own loads faults. -/
def KeepsRecord (w w' : World (M × List Touch)) (out : List Written) : Prop :=
  w'.ram.serror = w.ram.serror ∧ ∃ t, w'.touches = w.touches ++ t ∧
    (∀ q ∈ t, q.isPoll = false) ∧ ((∀ q ∈ t, q.faulted = false) → Succeeds reqMemread out)

section

variable (hkeep : P.LoadsKeepRecord)

include hkeep

theorem readsRecord_load (width : ℕ) (h : P.InRecord address) :
    ReadsRecord w (onRam (P.traced.load width address) w).2 :=
  ⟨hkeep width address _ h, _, rfl, by simp [Touch.isPoll], fun _ => rfl⟩

theorem readsRecord_fault (width : ℕ) (h : P.InRecord address)
    (hfault : (onRam (P.traced.load width address) w).1.faulted = true) :
    ReadsRecord w (faultReturn (onRam (P.traced.load width address) w).2).2 := by
  refine ⟨hkeep width address _ h, _, rfl, by simp [Touch.isPoll], ?_⟩
  intro hclean
  have := hclean _ (mem_singleton.mpr rfl)
  exact absurd (this.symm.trans hfault) (by decide)

theorem checksumMemory_record (sum : ℕ) (haddress : address < 2 ^ 64) (h : P.Inside address size) :
    ReadsRecord w (checksumMemory P.traced address size sum w).2 := by
  induction size generalizing address sum w with
  | zero => exact .refl w
  | succ size ih =>
    show ReadsRecord w ((if (onRam (P.traced.load 1 address) w).1.faulted = true then _ else _ :
      StateM (World (M × List Touch)) ℕ) (onRam (P.traced.load 1 address) w).2).2
    split
    · rename_i hfault
      exact readsRecord_fault hkeep 1 (h.head haddress) hfault
    · exact (readsRecord_load hkeep 1 (h.head haddress)).trans
        (ih _ (Nat.mod_lt _ (by decide)) h.tail)

theorem copyToBounce_record (at_ : ℕ) (haddress : address < 2 ^ 64) (h : P.Inside address size) :
    ReadsRecord w (copyToBounce P.traced address at_ size w).2 := by
  induction size generalizing address at_ w with
  | zero => exact .refl w
  | succ size ih =>
    show ReadsRecord w ((if (onRam (P.traced.load 1 address) w).1.faulted = true then _ else _ :
      StateM (World (M × List Touch)) Unit) (onRam (P.traced.load 1 address) w).2).2
    split
    · rename_i hfault
      exact readsRecord_fault hkeep 1 (h.head haddress) hfault
    · refine (readsRecord_load hkeep 1 (h.head haddress)).trans
        (ReadsRecord.trans ?_ (ih _ (Nat.mod_lt _ (by decide)) h.tail))
      exact ⟨rfl, [], by rw [append_nil]; rfl, by simp, fun _ => rfl⟩

theorem memoryReadFrom_record {done : ℕ} (h : P.Inside address size) :
    Does (memoryReadFrom P.traced address size true done) w fun _ w' _ => ReadsRecord w w' := by
  induction hm : size - done using Nat.strong_induction_on generalizing done w with
  | _ m ih =>
    by_cases hlt : done < size
    · have hless : size - (done + chunk size done) < m := by
        have := chunk_pos hlt
        omega
      have hslice : P.Inside ((address + done) % 2 ^ 64) (chunk size done) := by
        refine h.slice ?_
        rw [chunk]
        omega
      rw [memoryReadFrom, dif_pos hlt]
      refine of_bind (of_bind (of_bind (of_bind ?_)))
      have hcopied := ((readsRecord_setGuard guardReturn w).trans (copyToBounce_record hkeep 0
        (Nat.mod_lt _ (by decide)) hslice)).trans (readsRecord_setGuard guardOff _)
      refine writeFull_bind fun ok => ?_
      cases ok with
      | true => exact (ih _ hless rfl).mono fun _ _ _ hrest => hcopied.trans hrest
      | false => exact pure hcopied
    · rw [memoryReadFrom, dif_neg hlt]
      exact pure (.refl w)

theorem memoryRead_record (haddress : address < 2 ^ 64) (hsize : 0 < size)
    (h : P.Inside address size) :
    Does (memoryRead P.traced reqMemread address size) w fun _ w' o => KeepsRecord w w' o := by
  have hrecord : serrorRecordRead P.traced address size = true :=
    serrorRecordRead_of_inside haddress hsize h
  simp only [memoryRead, hrecord, if_true]
  refine of_bind (pure_bind ?_)
  simp only [Bool.false_eq_true, if_false]
  refine of_bind (of_bind (of_bind (pure_bind (of_bind ?_))))
  have hsum := ((readsRecord_setGuard guardReturn (clearExcCount w).2).trans
    (checksumMemory_record hkeep checksumInit haddress h)).trans (readsRecord_setGuard guardOff _)
  generalize checksumMemory P.traced address size checksumInit
    (setGuard guardReturn (clearExcCount w).2).2 = summed at hsum ⊢
  have hclear : ∀ {v : World (M × List Touch)} {o : List Written},
      ReadsRecord (clearExcCount w).2 v → (v.excCount = 0 → Succeeds reqMemread o) →
      KeepsRecord w v o := by
    intro v o hv hok
    obtain ⟨t, ht, hpolls, hcount⟩ := hv.marks
    exact ⟨hv.record, t, ht, hpolls, fun hclean => hok (hcount hclean)⟩
  have hok : ∀ {data : List UInt8} {ok : Bool} {rest : List Written},
      Succeeds reqMemread ((replyBytes reqMemread stOk data, ok) :: rest) :=
    succeeds_of_ok (by decide)
  split
  · rename_i hcount
    refine sendReply_bind fun ok => pure (hclear hsum fun hzero => ?_)
    simp only [ne_eq, Bool.or_false, decide_eq_true_eq] at hcount
    exact absurd hzero hcount
  · refine checksumsOff_bind fun off => sendReply_bind fun ok => ?_
    cases ok with
    | false => exact pure (hclear hsum fun _ => hok)
    | true =>
      refine (memoryReadFrom_record hkeep h).bind ?_
      rintro sent v o hread
      cases sent with
      | false => exact pure (hclear (hsum.trans hread) fun _ => hok)
      | true =>
        refine checksumsOff_bind fun off' => ?_
        cases off' with
        | false => exact pure (hclear (hsum.trans hread) fun _ => hok)
        | true =>
          exact writeFull_bind fun ok => pure (hclear (hsum.trans hread) fun _ => hok)

end

/-! ## One request -/

def Accepted (request : List UInt8) : Prop :=
  checksum (request.take (reqSize - 4)) = getLe 4 (request.drop (reqSize - 4))

/-- The requests that touch the target at an address of the host: the bracketed opcodes, reads
that are not of the record, and writes. -/
def TouchesTarget (P : Platform M) (request : List UInt8) : Prop :=
  getLe 4 request = reqProxy ∧ touchesTarget (getLe 8 (request.drop 4)) = true ∨
    getLe 4 request = reqMemread ∧ getLe 8 (request.drop 12) ≠ 0 ∧
      serrorRecordRead P (getLe 8 (request.drop 4)) (getLe 8 (request.drop 12)) = false ∨
    getLe 4 request = reqMemwrite

/-- The marks of a request. Up to the status, a check that bars is the last of them and the
request does not succeed; behind the status there is only the second pass of a read whose good
status went out. A request that touches the target starts with a check. -/
def HaltsOnSerror (P : Platform M) (request : List UInt8) (w w' : World (M × List Touch))
    (out : List Written) : Prop :=
  ∃ first second, w'.touches = w.touches ++ (first ++ second) ∧ Halts (getLe 4 request) first out ∧
    (second ≠ [] → getLe 4 request = reqMemread ∧
      ∃ data, out.head? = some (replyBytes reqMemread stOk data, true)) ∧
    (Accepted request → TouchesTarget P request → ∃ p rest, first = p :: rest ∧ p.isPoll = true)

/-- What strict mode promises about a request that was served. -/
structure StrictSpec (P : Platform M) (request : List UInt8) (w w' : World (M × List Touch))
    (out : List Written) : Prop where
  halts : HaltsOnSerror P request w w' out
  record : Accepted request → getLe 4 request = reqMemread →
    P.Inside (getLe 8 (request.drop 4)) (getLe 8 (request.drop 12)) → KeepsRecord w w' out

variable {request : List UInt8}

theorem HaltsOnSerror.of_unmarked {w w' : World (M × List Touch)} {out : List Written}
    (h : w'.touches = w.touches) (htouch : ¬(Accepted request ∧ TouchesTarget P request)) :
    HaltsOnSerror P request w w' out :=
  ⟨[], [], by simp [h], .inl (by simp), by simp, fun ha ht => absurd ⟨ha, ht⟩ htouch⟩

theorem HaltsOnSerror.of_unpolled {w w' : World (M × List Touch)} {out : List Written}
    {t : List Touch} (h : w'.touches = w.touches ++ t) (hpolls : ∀ q ∈ t, q.isPoll = false)
    (htouch : ¬TouchesTarget P request) : HaltsOnSerror P request w w' out :=
  ⟨t, [], by rw [h, append_nil], .inl fun q hq => Touch.barring_of_not_poll (hpolls q hq),
    by simp, fun _ ht => absurd ht htouch⟩

theorem not_touchesTarget_of_record (hread : getLe 4 request = reqMemread)
    (hrecord : serrorRecordRead P (getLe 8 (request.drop 4)) (getLe 8 (request.drop 12)) = true) :
    ¬TouchesTarget P request := by
  rintro (⟨h, -⟩ | ⟨-, -, h⟩ | h)
  · exact absurd (hread.symm.trans h) (by decide)
  · exact absurd (hrecord.symm.trans h) (by decide)
  · exact absurd (hread.symm.trans h) (by decide)

theorem memoryRead_strict (hkeep : P.LoadsKeepRecord) (hread : getLe 4 request = reqMemread)
    (hsize : getLe 8 (request.drop 12) ≠ 0) :
    Does (memoryRead P.traced reqMemread (getLe 8 (request.drop 4)) (getLe 8 (request.drop 12))) w
      fun _ w' o => StrictSpec P request w w' o := by
  have haddress : getLe 8 (request.drop 4) < 2 ^ 64 := getLe_lt 8 _
  by_cases hin : P.Inside (getLe 8 (request.drop 4)) (getLe 8 (request.drop 12))
  · have hrecord := serrorRecordRead_of_inside haddress (pos_of_ne_zero hsize) hin
    refine (memoryRead_record hkeep haddress (pos_of_ne_zero hsize) hin).mono ?_
    rintro _ w' o ⟨hserror, t, ht, hpolls, hok⟩
    exact ⟨.of_unpolled ht hpolls (not_touchesTarget_of_record hread hrecord),
      fun _ _ _ => ⟨hserror, t, ht, hpolls, hok⟩⟩
  cases hrecord : serrorRecordRead P (getLe 8 (request.drop 4)) (getLe 8 (request.drop 12)) with
  | true =>
    refine (memoryRead_unpolled hrecord).mono ?_
    rintro _ w' o ⟨t, ht, hpolls⟩
    exact ⟨.of_unpolled ht hpolls (not_touchesTarget_of_record hread hrecord),
      fun _ _ h => absurd h hin⟩
  | false =>
    refine (memoryRead_does hrecord).mono ?_
    rintro _ w' o ⟨first, second, ht, hhalts, hsecond, hfirst⟩
    exact ⟨⟨first, second, ht, hread ▸ hhalts, fun h => ⟨hread, hsecond h⟩, fun _ _ => hfirst⟩,
      fun _ _ h => absurd h hin⟩

theorem serve_strict (hkeep : P.LoadsKeepRecord) (request : List UInt8) :
    Does (serve P.traced request) w fun _ w' o => StrictSpec P request w w' o := by
  have hother : ∀ {type : ℕ}, getLe 4 request = type → type ≠ reqMemread →
      Accepted request → getLe 4 request = reqMemread →
      P.Inside (getLe 8 (request.drop 4)) (getLe 8 (request.drop 12)) →
      ∀ {w' : World (M × List Touch)} {o : List Written}, KeepsRecord w w' o :=
    fun htype hne _ h => absurd (htype.symm.trans h) hne
  simp only [serve]
  by_cases hsum : checksum (request.take (reqSize - 4)) ≠ getLe 4 (request.drop (reqSize - 4))
  · rw [if_pos hsum]
    have hreject : ¬Accepted request := hsum
    refine sendReply_bind fun ok => pure ⟨.of_unmarked rfl ?_, ?_⟩
    · exact fun h => hreject h.1
    · exact fun h => absurd h hreject
  rw [if_neg hsum]
  by_cases hnop : getLe 4 request = reqNop
  · rw [if_pos hnop]
    refine setChecksumsOff_bind ?_
    refine sendReply_bind fun ok => pure ⟨.of_unmarked rfl ?_, ?_⟩
    · simp [TouchesTarget, hnop, reqNop, reqProxy, reqMemread, reqMemwrite]
    · exact fun ha h hin => hother hnop (by decide) ha h hin
  rw [if_neg hnop]
  by_cases hproxy : getLe 4 request = reqProxy
  · rw [if_pos hproxy]
    refine (proxyRequest_does _).bind ?_
    rintro ⟨data, stop⟩ w' _ ⟨rfl, t, ht, hhalts, hfirst⟩
    refine sendReply_bind fun ok => pure ⟨⟨t, [], ?_, ?_, by simp, ?_⟩, ?_⟩
    · rw [ht, append_nil]
    · rw [hproxy]
      exact hhalts ok
    · rintro - (⟨-, h⟩ | ⟨h, -⟩ | h)
      · refine hfirst ?_
        rw [getLe_take (by decide)]
        exact h
      · exact absurd (hproxy.symm.trans h) (by decide)
      · exact absurd (hproxy.symm.trans h) (by decide)
    · exact fun ha h hin => hother hproxy (by decide) ha h hin
  rw [if_neg hproxy]
  by_cases hread : getLe 4 request = reqMemread
  · rw [if_pos hread]
    by_cases hsize : getLe 8 (request.drop 12) ≠ 0
    · rw [if_pos hsize, hread]
      refine (memoryRead_strict hkeep hread hsize).bind fun _ w' o hspec => pure ?_
      rw [append_nil]
      exact hspec
    · rw [if_neg hsize]
      refine sendReply_bind fun ok => pure ⟨.of_unmarked rfl ?_, ?_⟩
      · simp [TouchesTarget, hread, hsize, reqProxy, reqMemread, reqMemwrite]
      · refine fun _ _ _ => ⟨rfl, [], by simp, by simp, fun _ => ?_⟩
        rw [hread]
        exact succeeds_of_ok (by decide)
  rw [if_neg hread]
  by_cases hwrite : getLe 4 request = reqMemwrite
  · rw [if_pos hwrite, hwrite]
    refine (memoryWrite_does _ _ _).bind ?_
    rintro _ w' o ⟨t, ht, hhalts, hfirst⟩
    refine pure ⟨⟨t, [], by rw [ht, append_nil], ?_, by simp, ?_⟩, ?_⟩
    · rw [hwrite, append_nil]
      exact hhalts
    · exact fun _ _ => hfirst
    · exact fun ha h hin => hother hwrite (by decide) ha h hin
  · rw [if_neg hwrite]
    refine sendReply_bind fun ok => pure ⟨.of_unmarked rfl ?_, ?_⟩
    · simp [TouchesTarget, hproxy, hread, hwrite]
    · exact fun _ h => absurd h hread

/-! ## Sessions -/

/-- A request that was served: the state before and after it, and what was written. -/
structure Served (M : Type) where
  request : List UInt8
  before : World (M × List Touch)
  out : List Written
  after : World (M × List Touch)

/-- The loop serves the request, with any transport, and goes on or leaves the session. -/
def Served.Valid (P : Platform M) (s : Served M) : Prop :=
  ∃ after, Prog.Exec (serve P.traced s.request s.before fun stop w =>
      match stop with
      | some value => .finish (.leave value w)
      | none => .finish (.next w)) s.out after ∧
    (after = .next s.after ∨ ∃ value, after = .leave value s.after)

/-- Requests served one behind the other. -/
inductive Session (P : Platform M) : World (M × List Touch) → List (Served M) → Prop where
  | nil (w : World (M × List Touch)) : Session P w []
  | cons {s : Served M} {rest : List (Served M)} (h : s.Valid P) (hrest : Session P s.after rest) :
      Session P s.before (s :: rest)

theorem Served.Valid.strictSpec {s : Served M} (hkeep : P.LoadsKeepRecord) (h : s.Valid P) :
    StrictSpec P s.request s.before s.after s.out := by
  obtain ⟨after, hexec, hafter⟩ := h
  rcases serve_strict hkeep s.request _ _ _ hexec with hreboot |
    ⟨stop, w', o, o', hspec, hend, hout⟩
  · rcases hafter with h | ⟨value, h⟩ <;> exact absurd (hreboot.symm.trans h) (by simp)
  · have hdone : o' = [] ∧ s.after = w' := by
      cases stop with
      | none =>
        cases hend
        rcases hafter with h | ⟨value, h⟩
        · exact ⟨rfl, (After.next.inj h).symm⟩
        · exact absurd h (by simp)
      | some v =>
        cases hend
        rcases hafter with h | ⟨value, h⟩
        · exact absurd h (by simp)
        · exact ⟨rfl, (After.leave.inj h).2.symm⟩
    obtain ⟨rfl, hafter'⟩ := hdone
    rw [hout, append_nil, hafter']
    exact hspec

/-- Strict mode adds no access on top of a pending SError, in any session. -/
theorem Session.strict (hkeep : P.LoadsKeepRecord) {served : List (Served M)}
    (h : Session P w served) : ∀ s ∈ served, StrictSpec P s.request s.before s.after s.out := by
  induction h with
  | nil w => simp
  | cons hvalid _ ih => exact forall_mem_cons.mpr ⟨hvalid.strictSpec hkeep, ih⟩

/-- Memory reads as zero and an SError shows at every poll. -/
def noisyPlatform : Platform Unit where
  load _ _ r := (⟨0, false⟩, r)
  store _ _ _ r := (false, r)
  call _ _ r := (0, r)
  cache _ _ _ r := r
  serrorPoll r := (⟨true, 0xbe000011, false⟩, r)
  serrorMechanism := 1
  serrorRecord := 0x8000
  bootargs := 0
  base := 0
  fbConsole _ r := (0, r)
  delayPolls _ r := (0, r)

def readRequest (address size : ℕ) : List UInt8 :=
  cmdBytes reqMemread (putLe 8 address ++ putLe 8 size)

def strictWorld : World (Unit × List Touch) := { ram := ⟨((), []), { flags := 1 }⟩ }

def refusedRead : Served Unit where
  request := readRequest 0x1000 4
  before := strictWorld
  out := [(replyBytes reqMemread stXfrerr [], true)]
  after := { strictWorld with
    ram := ⟨((), [.poll ⟨true, 0xbe000011, false⟩ true]),
      { mechanism := 1, flags := 1, checks := 1, before := 1, refused := 1,
        lastSyndrome := 0xbe000011, lastWhen := 1, lastOpcode := reqMemread,
        lastAddress := 0x1000 }⟩ }

theorem refusedRead_valid : refusedRead.Valid noisyPlatform := by
  have hsum : checksum (refusedRead.request.take (reqSize - 4)) =
      getLe 4 (refusedRead.request.drop (reqSize - 4)) := by decide +kernel
  have htype : getLe 4 refusedRead.request = reqMemread := by decide +kernel
  have haddress : getLe 8 (refusedRead.request.drop 4) = 0x1000 := by decide +kernel
  have hsize : getLe 8 (refusedRead.request.drop 12) = 4 := by decide +kernel
  refine ⟨.next refusedRead.after, ?_, .inl rfl⟩
  rw [serve, if_neg (not_not.mpr hsum), htype, haddress, hsize]
  exact .writeFull true (.finish _)

theorem Session.strict_refusedRead :
    StrictSpec noisyPlatform refusedRead.request refusedRead.before refusedRead.after
      refusedRead.out ∧ (refusedRead.after.touches.map Touch.barring) = [true] :=
  ⟨Session.strict (fun _ _ _ _ => rfl) (.cons refusedRead_valid (.nil _)) refusedRead
    (by simp), rfl⟩

end Q1n1.Proxy
