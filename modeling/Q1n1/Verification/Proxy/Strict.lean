import Q1n1.Verification.Proxy.Programs

/-! # Strict mode and pending SErrors

The platform is wrapped so that every poll for an SError and every access to target memory
leaves a mark. What a request did is then the list of its marks. -/

namespace Q1n1.Proxy

open Bytes List Does

/-- A mark: a poll with its outcome and the strict flag behind it, or an access. -/
inductive Touch where
  | poll (outcome : SerrorPoll) (strict : Bool)
  | load (width address : ℕ) (faulted : Bool)
  | store (width address value : ℕ) (faulted : Bool)
  | call (entry : ℕ)

def Touch.isPoll : Touch → Bool
  | .poll _ _ => true
  | _ => false

/-- A poll that found an SError or left one pending, in strict mode. -/
def Touch.barring : Touch → Bool
  | .poll outcome strict => (outcome.found || outcome.stillPending) && strict
  | _ => false

theorem Touch.barring_of_not_poll {q : Touch} (h : q.isPoll = false) : q.barring = false := by
  cases q with
  | poll outcome strict => simp [Touch.isPoll] at h
  | load width address faulted => rfl
  | store width address value faulted => rfl
  | call entry => rfl

section

variable {M : Type}

def marked {α : Type} (f : Ram M → α × Ram M) (mark : α → Ram M → List Touch)
    (r : Ram (M × List Touch)) : α × Ram (M × List Touch) :=
  let (x, bare) := f ⟨r.mem.1, r.serror⟩
  (x, ⟨(bare.mem, r.mem.2 ++ mark x bare), bare.serror⟩)

def Platform.traced (P : Platform M) : Platform (M × List Touch) where
  load width address := marked (P.load width address) fun a _ => [.load width address a.faulted]
  store width address value :=
    marked (P.store width address value) fun faulted _ => [.store width address value faulted]
  call entry args := marked (P.call entry args) fun _ _ => [.call entry]
  cache op address size r :=
    (marked (fun bare => ((), P.cache op address size bare)) (fun _ _ => []) r).2
  serrorPoll := marked P.serrorPoll fun outcome bare => [.poll outcome (bare.serror.flags % 2 = 1)]
  serrorMechanism := P.serrorMechanism
  serrorRecord := P.serrorRecord
  bootargs := P.bootargs
  base := P.base
  fbConsole on := marked (P.fbConsole on) fun _ _ => []
  delayPolls microseconds := marked (P.delayPolls microseconds) fun _ _ => []

def World.touches (w : World (M × List Touch)) : List Touch := w.ram.mem.2

/-! ## Code that only makes accesses -/

/-- Whatever the code leaves behind are marks of accesses, not of polls. -/
def Accesses {α : Type} (x : StateM (World (M × List Touch)) α) : Prop :=
  ∀ w, ∃ t, (x w).2.touches = w.touches ++ t ∧ ∀ q ∈ t, q.isPoll = false

variable {α β : Type} {x : StateM (World (M × List Touch)) α}

theorem Accesses.of_eq (h : ∀ w, (x w).2.touches = w.touches) : Accesses x := by
  intro w
  exact ⟨[], by simp [h], by simp⟩

theorem Accesses.pure (a : α) : Accesses (Pure.pure a : StateM (World (M × List Touch)) α) :=
  .of_eq fun _ => rfl

theorem Accesses.bind {f : α → StateM (World (M × List Touch)) β} (hx : Accesses x)
    (hf : ∀ a, Accesses (f a)) : Accesses (x >>= f) := by
  intro w
  obtain ⟨t, ht, hpolls⟩ := hx w
  obtain ⟨t', ht', hpolls'⟩ := hf (x w).1 (x w).2
  refine ⟨t ++ t', ?_, forall_mem_append.mpr ⟨hpolls, hpolls'⟩⟩
  rw [← append_assoc, ← ht]
  exact ht'

theorem Accesses.ite {c : Prop} [Decidable c] {y : StateM (World (M × List Touch)) α}
    (hx : Accesses x) (hy : Accesses y) : Accesses (if c then x else y) := by
  split
  · exact hx
  · exact hy

variable (P : Platform M)

theorem accesses_load (width address : ℕ) : Accesses (onRam (P.traced.load width address)) := by
  intro w
  exact ⟨_, rfl, by simp [Touch.isPoll]⟩

theorem accesses_store (width address value : ℕ) :
    Accesses (onRam (P.traced.store width address value)) := by
  intro w
  exact ⟨_, rfl, by simp [Touch.isPoll]⟩

theorem accesses_call (entry : ℕ) (args : List ℕ) :
    Accesses (onRam (P.traced.call entry args)) := by
  intro w
  exact ⟨_, rfl, by simp [Touch.isPoll]⟩

theorem accesses_unmarked (f : Ram M → α × Ram M) : Accesses (onRam (marked f fun _ _ => [])) := by
  intro w
  exact ⟨[], rfl, by simp⟩

theorem accesses_setGuard (guard : ℕ) :
    Accesses (setGuard guard : StateM (World (M × List Touch)) Unit) :=
  .of_eq fun _ => rfl

theorem accesses_loadMarked (width address : ℕ) : Accesses (loadMarked P.traced width address) :=
  (accesses_load P width address).bind fun _ =>
    .ite (Accesses.bind (.of_eq fun _ => rfl) fun _ => .pure _) (.pure _)

theorem accesses_storeSkipped (width address value : ℕ) :
    Accesses (storeSkipped P.traced width address value) :=
  (accesses_store P width address _).bind fun _ => .ite (.of_eq fun _ => rfl) (.pure _)

theorem accesses_checksumMemory (address size sum : ℕ) :
    Accesses (checksumMemory P.traced address size sum) := by
  induction size generalizing address sum with
  | zero => exact .pure sum
  | succ size ih =>
    refine (accesses_load P 1 address).bind fun _ => .ite ?_ (ih _ _)
    exact Accesses.bind (.of_eq fun _ => rfl) fun _ => .pure _

theorem accesses_copyToBounce (address at_ size : ℕ) :
    Accesses (copyToBounce P.traced address at_ size) := by
  induction size generalizing address at_ with
  | zero => exact .pure ()
  | succ size ih =>
    refine (accesses_load P 1 address).bind fun _ => .ite (.of_eq fun _ => rfl) ?_
    exact Accesses.bind (.of_eq fun _ => rfl) fun _ => ih _ _

theorem accesses_copyFromBounce (address at_ size : ℕ) :
    Accesses (copyFromBounce P.traced address at_ size) := by
  induction size generalizing address at_ with
  | zero => exact .pure ()
  | succ size ih =>
    refine Accesses.bind (.of_eq fun _ => rfl) fun _ => (accesses_store P 1 address _).bind ?_
    exact fun _ => .ite (.of_eq fun _ => rfl) (ih _ _)

theorem accesses_memcpy (width dst src units : ℕ) :
    Accesses (memcpy P.traced width dst src units) := by
  induction units generalizing dst src with
  | zero => exact .pure ()
  | succ units ih =>
    refine (accesses_load P width src).bind fun _ => .ite (.of_eq fun _ => rfl) ?_
    exact (accesses_store P width dst _).bind fun _ => .ite (.of_eq fun _ => rfl) (ih _ _)

theorem accesses_memset (width dst value units : ℕ) :
    Accesses (memset P.traced width dst value units) := by
  induction units generalizing dst with
  | zero => exact .pure ()
  | succ units ih =>
    exact (accesses_store P width dst _).bind fun _ => .ite (.of_eq fun _ => rfl) (ih _)

theorem accesses_modifyMarked (width : Width) (address : ℕ) (f : ℕ → ℕ) :
    Accesses (modifyMarked P.traced width address f) :=
  (accesses_setGuard _).bind fun _ => (accesses_loadMarked P _ _).bind fun _ =>
    (accesses_storeSkipped P _ _ _).bind fun _ => .pure _

theorem accesses_access (a : ℕ → ℕ) (guard : ℕ) (op : Opcode) :
    Accesses (access P.traced a guard op) := by
  cases op with
  | write w =>
    exact (accesses_setGuard _).bind fun _ => (accesses_storeSkipped P _ _ _).bind fun _ => .pure _
  | read w =>
    exact (accesses_setGuard _).bind fun _ => (accesses_loadMarked P _ _).bind fun _ => .pure _
  | set w => exact (accesses_modifyMarked P _ _ _).bind fun _ => .pure _
  | clear w => exact (accesses_modifyMarked P _ _ _).bind fun _ => .pure _
  | mask w => exact (accesses_modifyMarked P _ _ _).bind fun _ => .pure _
  | writeread w =>
    exact (accesses_setGuard _).bind fun _ => (accesses_storeSkipped P _ _ _).bind fun _ =>
      (accesses_loadMarked P _ _).bind fun _ => .pure _
  | memcpy w =>
    exact (accesses_setGuard _).bind fun _ => (accesses_memcpy P _ _ _ _).bind fun _ => .pure _
  | memset w =>
    exact (accesses_setGuard _).bind fun _ => (accesses_memset P _ _ _ _).bind fun _ => .pure _
  | call => exact (accesses_call P _ _).bind fun _ => .pure _
  | serror =>
    simp only [access, serrorRequest]
    split <;> exact .of_eq fun _ => rfl
  | fbInit => exact (accesses_unmarked _).bind fun _ => .pure _
  | fbShutdown =>
    simp only [access]
    split
    · exact .pure _
    · exact (accesses_unmarked _).bind fun _ => .pure _
  | cache op =>
    intro w
    exact ⟨[], rfl, by simp⟩
  | _ => exact .of_eq fun _ => rfl

theorem Platform.traced_poll (r : Ram (M × List Touch)) :
    (P.traced.serrorPoll r).2.mem.2 = r.mem.2 ++ [.poll (P.traced.serrorPoll r).1
      (decide ((P.traced.serrorPoll r).2.serror.flags % 2 = 1))] := rfl

def serrorNote (at_ : When) (opcode address : ℕ) (poll : SerrorPoll) : StateM (World M) Bool := do
  onSerror fun e =>
    { e with unconsumed := if poll.stillPending then e.unconsumed + 1 else e.unconsumed }
  if !poll.found then return poll.stillPending
  onSerror fun e => { e with
    before := if at_ = .before then e.before + 1 else e.before
    during := if at_ = .during then e.during + 1 else e.during
    lastSyndrome := poll.syndrome
    lastWhen := at_.code
    lastOpcode := opcode
    lastAddress := address }
  return true

theorem serrorNote_apply (at_ : When) (opcode address : ℕ) (poll : SerrorPoll) (w : World M) :
    (serrorNote at_ opcode address poll w).1 = (poll.found || poll.stillPending) ∧
      (serrorNote at_ opcode address poll w).2.ram.mem = w.ram.mem ∧
      (serrorNote at_ opcode address poll w).2.ram.serror.flags = w.ram.serror.flags := by
  obtain ⟨found, syndrome, stillPending⟩ := poll
  cases found with
  | false => exact ⟨rfl, rfl, rfl⟩
  | true => exact ⟨rfl, rfl, rfl⟩

theorem serrorCheck_touches (at_ : When) (opcode address : ℕ) (w : World (M × List Touch)) :
    ∃ outcome, (serrorCheck P.traced at_ opcode address w).2.touches = w.touches ++ [.poll outcome
          ((serrorCheck P.traced at_ opcode address w).2.ram.serror.flags % 2 = 1)] ∧
      (serrorCheck P.traced at_ opcode address w).1 = (outcome.found || outcome.stillPending) := by
  let r : Ram (M × List Touch) := ⟨w.ram.mem, { w.ram.serror with
    mechanism := P.serrorMechanism
    checks := if at_ = .before then w.ram.serror.checks + 1 else w.ram.serror.checks }⟩
  have hcheck : serrorCheck P.traced at_ opcode address w =
      serrorNote at_ opcode address (P.traced.serrorPoll r).1
        { w with ram := (P.traced.serrorPoll r).2 } := rfl
  obtain ⟨hresult, hmem, hflags⟩ := serrorNote_apply at_ opcode address
    (P.traced.serrorPoll r).1 { w with ram := (P.traced.serrorPoll r).2 }
  refine ⟨(P.traced.serrorPoll r).1, ?_, by rw [hcheck, hresult]⟩
  rw [hcheck, World.touches, hmem, hflags]
  exact P.traced_poll r

theorem serrorBars_touches (at_ : When) (opcode address : ℕ) (w : World (M × List Touch)) :
    ∃ p, (serrorBars P.traced at_ opcode address w).2.touches = w.touches ++ [p] ∧
      p.isPoll = true ∧ (serrorBars P.traced at_ opcode address w).1 = p.barring := by
  obtain ⟨outcome, htouches, hresult⟩ := serrorCheck_touches P at_ opcode address w
  have hbars : serrorBars P.traced at_ opcode address w =
      (if (serrorCheck P.traced at_ opcode address w).1 then serrorStrict else pure false :
        StateM _ Bool) (serrorCheck P.traced at_ opcode address w).2 := rfl
  refine ⟨.poll outcome
    ((serrorCheck P.traced at_ opcode address w).2.ram.serror.flags % 2 = 1), ?_⟩
  rw [Touch.barring, ← hresult, hbars]
  cases hc : (serrorCheck P.traced at_ opcode address w).1 with
  | false => exact ⟨htouches, rfl, rfl⟩
  | true => exact ⟨htouches, rfl, by simp [serrorStrict]⟩

end

/-! ## Requests -/

/-- The reply says that the request succeeded. A proxy request has its own status, behind the
opcode in the data. -/
def OkReply (type : ℕ) (reply : List UInt8) : Prop :=
  if type = reqProxy then getLe 8 (reply.drop 16) = 0 else getLe 4 (reply.drop 4) = 0

/-- A request reports by the first thing it writes. -/
def Succeeds (type : ℕ) (out : List Written) : Prop :=
  ∃ reply, (out.map Prod.fst).head? = some reply ∧ OkReply type reply

/-- The marks up to the status: no check bars, or the first that does is the last mark and
the request does not succeed. -/
def Halts (type : ℕ) (t : List Touch) (out : List Written) : Prop :=
  (∀ q ∈ t, q.barring = false) ∨
    ∃ init p, t = init ++ [p] ∧ p.barring = true ∧ (∀ q ∈ init, q.barring = false) ∧
      ¬Succeeds type out

theorem Halts.bracket {type : ℕ} {p q : Touch} {t : List Touch} {out : List Written}
    (hp : p.barring = false) (ht : ∀ q ∈ t, q.isPoll = false)
    (hq : q.barring = true → ¬Succeeds type out) : Halts type ([p] ++ t ++ [q]) out := by
  have hinit : ∀ q ∈ [p] ++ t, q.barring = false := by
    refine forall_mem_append.mpr ⟨forall_mem_singleton.mpr hp, ?_⟩
    exact fun q hq => Touch.barring_of_not_poll (ht q hq)
  cases hlast : q.barring with
  | false => exact .inl (forall_mem_append.mpr ⟨hinit, forall_mem_singleton.mpr hlast⟩)
  | true => exact .inr ⟨[p] ++ t, q, rfl, hlast, hinit, hq hlast⟩

theorem replyBytes_status (type : ℕ) (status : Int) (data : List UInt8) :
    getLe 4 ((replyBytes type status data).drop 4) = (status % 2 ^ 32).toNat := by
  have hdrop : (replyBytes type status data).drop 4 = putStatus status ++ (replyData data ++
      putLe 4 (checksum (putLe 4 type ++ putStatus status ++ replyData data))) := by
    rw [replyBytes, append_assoc, append_assoc, append_assoc,
      drop_left' (by simp)]
  rw [hdrop, putStatus, getLe_putLe]
  omega

theorem not_succeeds_of_status {type : ℕ} {status : Int} {data : List UInt8} {ok : Bool}
    {rest : List Written} (htype : type ≠ reqProxy) (hstatus : (status % 2 ^ 32).toNat ≠ 0) :
    ¬Succeeds type ((replyBytes type status data, ok) :: rest) := by
  rintro ⟨reply, hhead, hok⟩
  simp only [map_cons, List.head?_cons, Option.some.injEq] at hhead
  rw [OkReply, if_neg htype, ← hhead, replyBytes_status] at hok
  exact hstatus hok

theorem replyBytes_proxyStatus (status : Int) (op proxyStatus value : ℕ) :
    getLe 8 ((replyBytes reqProxy status (putLe 8 op ++ putLe 8 proxyStatus ++
      putLe 8 value)).drop 16) = proxyStatus % 2 ^ 64 := by
  have hdata : replyData (putLe 8 op ++ putLe 8 proxyStatus ++ putLe 8 value) =
      putLe 8 op ++ putLe 8 proxyStatus ++ putLe 8 value := by
    rw [replyData, take_left' (by simp)]
  have hdrop : (replyBytes reqProxy status (putLe 8 op ++ putLe 8 proxyStatus ++
      putLe 8 value)).drop 16 = putLe 8 proxyStatus ++ (putLe 8 value ++
      putLe 4 (checksum (putLe 4 reqProxy ++ putStatus status ++
        (putLe 8 op ++ putLe 8 proxyStatus ++ putLe 8 value)))) := by
    rw [replyBytes, hdata]
    simp only [← append_assoc]
    rw [append_assoc _ (putLe 8 value), append_assoc _ (putLe 8 proxyStatus),
      drop_left' (by simp [putStatus])]
    exact (append_assoc _ _ _).symm
  rw [hdrop, getLe_putLe]
  norm_num

theorem not_succeeds_of_serror (op value : ℕ) (ok : Bool) :
    ¬Succeeds reqProxy [(replyBytes reqProxy stOk
      (putLe 8 op ++ putLe 8 (sSerror % 2 ^ 64).toNat ++ putLe 8 value), ok)] := by
  rintro ⟨reply, hhead, hok⟩
  simp only [map_cons, List.head?_cons, Option.some.injEq] at hhead
  rw [OkReply, if_pos rfl, ← hhead, replyBytes_proxyStatus] at hok
  revert hok
  decide

/-! ## Steps of a request that leave marks -/

section

variable {M α β : Type} {P : Platform M} {w : World (M × List Touch)}
  {S : β → World (M × List Touch) → List Written → Prop}

theorem Does.unmarked_bind {x : StateM (World (M × List Touch)) α}
    {g : α → Serve (World (M × List Touch)) β}
    (h : ∀ a w', w'.touches = w.touches → Does (g a) w' S)
    (hx : ∀ w, (x w).2.touches = w.touches := by exact fun _ => rfl) :
    Does (Serve.of x >>= g) w S :=
  h (x w).1 (x w).2 (hx w)

theorem Does.accesses_bind {x : StateM (World (M × List Touch)) α}
    {g : α → Serve (World (M × List Touch)) β} (hx : Accesses x)
    (h : ∀ a w' t, w'.touches = w.touches ++ t → (∀ q ∈ t, q.isPoll = false) →
      Does (g a) w' S) : Does (Serve.of x >>= g) w S := by
  obtain ⟨t, ht, hpolls⟩ := hx w
  exact h (x w).1 (x w).2 t ht hpolls

theorem Does.bars_bind {at_ : When} {opcode address : ℕ}
    {g : Bool → Serve (World (M × List Touch)) β}
    (h : ∀ p w', w'.touches = w.touches ++ [p] → p.isPoll = true → Does (g p.barring) w' S) :
    Does (Serve.of (serrorBars P.traced at_ opcode address) >>= g) w S := by
  obtain ⟨p, ht, hpoll, hbars⟩ := serrorBars_touches P at_ opcode address w
  have := h p _ ht hpoll
  rw [← hbars] at this
  exact this

theorem perform_does (op : Opcode) (a : ℕ → ℕ) (guard : ℕ) :
    Does (perform P.traced op a guard) w fun _ w' o =>
      o = [] ∧ ∃ t, w'.touches = w.touches ++ t ∧ ∀ q ∈ t, q.isPoll = false := by
  have hother : Does (Serve.of (access P.traced a guard op)) w fun _ w' o =>
      o = [] ∧ ∃ t, w'.touches = w.touches ++ t ∧ ∀ q ∈ t, q.isPoll = false :=
    of ⟨rfl, accesses_access P a guard op w⟩
  cases op with
  | udelay =>
    refine accesses_bind (accesses_unmarked _) fun n w' t ht hpolls => ?_
    exact (Does.pollTimes n (R := fun _ w'' o => w'' = w' ∧ o = []) ⟨rfl, rfl⟩).bind
      fun _ _ _ h => pure ⟨by simp [h.2], t, h.1 ▸ ht, hpolls⟩
  | reboot => exact reboot
  | call => exact enterCall_bind hother
  | _ => exact hother

theorem proxyRequest_does (request : List UInt8) :
    Does (proxyRequest P.traced request) w fun r w' o =>
      o = [] ∧ ∃ t, w'.touches = w.touches ++ t ∧
        (∀ ok, Halts reqProxy t [(replyBytes reqProxy stOk r.1, ok)]) ∧
        (touchesTarget (getLe 8 request) = true → ∃ p rest, t = p :: rest ∧ p.isPoll = true) := by
  by_cases hb : touchesTarget (getLe 8 request) = true
  · simp only [proxyRequest, hb, if_true, Bool.true_and]
    refine unmarked_bind fun w₀ w₁ h₁ => ?_
    refine bars_bind fun p w₂ h₂ hpoll => ?_
    cases hbar : p.barring with
    | true =>
      simp only [if_true, Bool.not_true, Bool.false_eq_true, if_false]
      refine unmarked_bind fun _ w₃ h₃ => ?_
      refine unmarked_bind fun _ w₄ h₄ => pure ⟨rfl, [p], ?_, ?_, ?_⟩
      · rw [h₄, h₃, h₂, h₁]
      · exact fun ok => .inr ⟨[], p, rfl, hbar, by simp, not_succeeds_of_serror _ _ ok⟩
      · exact fun _ => ⟨p, [], rfl, hpoll⟩
    | false =>
      simp only [if_true, Bool.not_false, Bool.false_eq_true, if_false]
      refine (perform_does _ _ _).bind ?_
      rintro done w₃ _ ⟨rfl, t, h₃, hpolls⟩
      refine unmarked_bind fun _ w₄ h₄ => ?_
      refine bars_bind fun q w₅ h₅ _ => pure ⟨rfl, [p] ++ t ++ [q], ?_, ?_, ?_⟩
      · rw [h₅, h₄, h₃, h₂, h₁]
        simp
      · refine fun ok => Halts.bracket hbar hpolls fun hq => ?_
        simp only [hq, if_true]
        exact not_succeeds_of_serror _ _ ok
      · exact fun _ => ⟨p, t ++ [q], by simp, hpoll⟩
  · simp only [proxyRequest, hb, Bool.false_eq_true, if_false, Bool.false_and]
    refine unmarked_bind fun w₀ w₁ h₁ => pure_bind ?_
    simp only [Bool.false_eq_true, if_false]
    refine (perform_does _ _ _).bind ?_
    rintro done w₂ _ ⟨rfl, t, h₂, hpolls⟩
    refine unmarked_bind fun _ w₃ h₃ => pure ⟨rfl, t, ?_, ?_, ?_⟩
    · rw [h₃, h₂, h₁]
    · exact fun ok => .inl fun q hq => Touch.barring_of_not_poll (hpolls q hq)
    · exact fun h => absurd h (by simp)

/-- The loop of a memory write. Once the write is refused or an SError has shown, it makes no
access any more. -/
theorem memoryWriteFrom_does (address size : ℕ) (refused : Bool) (done sum : ℕ) (serror : Bool) :
    Does (memoryWriteFrom P.traced address size refused done sum serror) w fun r w' o =>
      o = [] ∧ ∃ t, w'.touches = w.touches ++ t ∧ ((refused || serror) = true → t = []) ∧
        ((∀ q ∈ t, q.barring = false) ∧ (∀ s e, r = some (s, e) → e = serror) ∨
          ∃ init p, t = init ++ [p] ∧ p.barring = true ∧ (∀ q ∈ init, q.barring = false) ∧
            ∀ s e, r = some (s, e) → e = true) := by
  induction hm : size - done using Nat.strong_induction_on generalizing done sum serror w with
  | _ m ih =>
    by_cases hlt : done < size
    · have hless : size - (done + chunk size done) < m := by
        have := chunk_pos hlt
        omega
      rw [memoryWriteFrom, dif_pos hlt]
      refine readFull_bind fun got => ?_
      cases got with
      | none => exact pure ⟨rfl, [], by simp, by simp, .inl ⟨by simp, by simp⟩⟩
      | some bs =>
        refine unmarked_bind fun _ w₁ h₁ => ?_
        refine unmarked_bind fun w₀ w₂ h₂ => ?_
        split
        · rename_i hcond
          obtain ⟨-, rfl, rfl⟩ := hcond
          refine unmarked_bind fun _ w₃ h₃ => ?_
          refine accesses_bind (accesses_copyFromBounce P _ _ _) fun _ w₄ t h₄ hpolls => ?_
          refine unmarked_bind fun _ w₅ h₅ => ?_
          refine bars_bind fun p w₆ h₆ _ => ?_
          have htouches : w₆.touches = w.touches ++ (t ++ [p]) := by
            rw [h₆, h₅, h₄, h₃, h₂, h₁, append_assoc]
          have haccess : ∀ q ∈ t, q.barring = false :=
            fun q hq => Touch.barring_of_not_poll (hpolls q hq)
          refine (ih _ hless _ _ p.barring rfl).mono ?_
          rintro r w' o ⟨rfl, t', ht', hstop, hrest⟩
          refine ⟨rfl, t ++ [p] ++ t', by rw [ht', htouches, append_assoc], by simp, ?_⟩
          cases hbar : p.barring with
          | true =>
            rw [hbar] at hstop hrest
            obtain rfl := hstop rfl
            refine .inr ⟨t, p, by simp, hbar, haccess, ?_⟩
            rcases hrest with ⟨-, hr⟩ | ⟨init, q, hnil, -⟩
            · exact hr
            · simp at hnil
          | false =>
            rw [hbar] at hrest
            have hfirst : ∀ q ∈ t ++ [p], q.barring = false :=
              forall_mem_append.mpr ⟨haccess, forall_mem_singleton.mpr hbar⟩
            rcases hrest with ⟨hnone, hr⟩ | ⟨init, q, rfl, hq, hinit, hr⟩
            · exact .inl ⟨forall_mem_append.mpr ⟨hfirst, hnone⟩, hr⟩
            · refine .inr ⟨t ++ [p] ++ init, q, by simp, hq, ?_, hr⟩
              exact forall_mem_append.mpr ⟨hfirst, hinit⟩
        · refine pure_bind ((ih _ hless _ _ serror rfl).mono ?_)
          rintro r w' o ⟨rfl, t', ht', hstop, hrest⟩
          exact ⟨rfl, t', by rw [ht', h₂, h₁], hstop, hrest⟩
    · rw [memoryWriteFrom, dif_neg hlt]
      refine pure ⟨rfl, [], by simp, by simp, .inl ⟨by simp, ?_⟩⟩
      rintro s e heq
      exact (Prod.mk.inj (Option.some.inj heq)).2.symm

/-- The reply of `memory_write` to what its loop came to. -/
def memoryWriteReply (type expected : ℕ) (refused : Bool) :
    Option (ℕ × Bool) → Serve (World M) Unit
  | none => return
  | some (sum, serror) => do
    let failed := (← Serve.of get).excCount ≠ 0 || refused || serror
    let off ← checksumsOff
    let sum := if off then checksumSentinel else sum ^^^ checksumFinal
    let ended ← if off then readFull 4 else pure (some (putLe 4 dataEndSentinel))
    let ok := !failed && sum == expected && (ended.map (getLe 4) == some dataEndSentinel)
    let _ ← sendReply type (if ok then stOk else stXfrerr) (putLe 4 sum)

theorem memoryWrite_eq (Q : Platform M) (type address size expected : ℕ) :
    memoryWrite Q type address size expected = (do
      Serve.of clearExcCount
      let refused ← Serve.of (serrorBars Q .before reqMemwrite address)
      if refused then Serve.of refuse
      let r ← memoryWriteFrom Q address size refused 0 checksumInit false
      memoryWriteReply type expected refused r) :=
  rfl

theorem memoryWriteReply_does {type expected : ℕ} {refused : Bool} {r : Option (ℕ × Bool)}
    (htype : type ≠ reqProxy) :
    Does (memoryWriteReply type expected refused r) w fun _ w' o =>
      w'.touches = w.touches ∧
        ((refused = true ∨ ∀ s e, r = some (s, e) → e = true) → ¬Succeeds type o) := by
  cases r with
  | none => exact pure ⟨rfl, by simp [Succeeds]⟩
  | some r =>
    obtain ⟨sum, serror⟩ := r
    have hfail : ∀ (count : ℕ) (a b : Bool) (sum' : ℕ) (ok : Bool),
        (refused = true ∨ ∀ s e, some (sum, serror) = some (s, e) → e = true) →
        ¬Succeeds type [(replyBytes type (if (!(count ≠ 0 || refused || serror) && a && b) = true
          then stOk else stXfrerr) (putLe 4 sum'), ok)] := by
      intro count a b sum' ok hcond
      have hor : (refused || serror) = true := by
        rcases hcond with h | h
        · simp [h]
        · simp [h sum serror rfl]
      rw [Bool.or_assoc, hor, Bool.or_true, Bool.not_true, Bool.false_and, Bool.false_and,
        if_neg Bool.false_ne_true]
      exact not_succeeds_of_status htype (by decide)
    refine unmarked_bind fun w₀ w₁ h₁ => checksumsOff_bind fun off => ?_
    cases off with
    | true =>
      refine readFull_bind fun ended => sendReply_bind fun ok => ?_
      exact pure ⟨h₁, hfail _ _ _ _ ok⟩
    | false =>
      refine pure_bind (sendReply_bind fun ok => ?_)
      exact pure ⟨h₁, hfail _ _ _ _ ok⟩

theorem memoryWrite_does (address size expected : ℕ) :
    Does (memoryWrite P.traced reqMemwrite address size expected) w fun _ w' o =>
      ∃ t, w'.touches = w.touches ++ t ∧ Halts reqMemwrite t o ∧
        ∃ p rest, t = p :: rest ∧ p.isPoll = true := by
  have hreply : ∀ {refused r} {w : World (M × List Touch)},
      Does (memoryWriteReply reqMemwrite expected refused r) w fun _ w' o =>
        w'.touches = w.touches ∧ ((refused = true ∨ ∀ s e, r = some (s, e) → e = true) →
          ¬Succeeds reqMemwrite o) :=
    memoryWriteReply_does (by decide)
  rw [memoryWrite_eq]
  refine unmarked_bind fun _ w₁ h₁ => bars_bind fun p w₂ h₂ hpoll => ?_
  cases hbar : p.barring with
  | true =>
    refine unmarked_bind fun _ w₃ h₃ => ?_
    refine (memoryWriteFrom_does address size true 0 checksumInit false).bind ?_
    rintro r w₄ _ ⟨rfl, t, h₄, hstop, -⟩
    obtain rfl := hstop rfl
    refine hreply.mono ?_
    rintro _ w₅ o ⟨h₅, hfail⟩
    refine ⟨[p], by rw [h₅, h₄, h₃, h₂, h₁, append_nil], ?_, p, [], rfl, hpoll⟩
    exact .inr ⟨[], p, rfl, hbar, by simp, hfail (.inl rfl)⟩
  | false =>
    refine (memoryWriteFrom_does address size false 0 checksumInit false).bind ?_
    rintro r w₄ _ ⟨rfl, t, h₄, -, hrest⟩
    refine hreply.mono ?_
    rintro _ w₅ o ⟨h₅, hfail⟩
    refine ⟨p :: t, by rw [h₅, h₄, h₂, h₁]; simp, ?_, p, t, rfl, hpoll⟩
    rcases hrest with ⟨hnone, -⟩ | ⟨init, q, rfl, hq, hinit, hr⟩
    · exact .inl (forall_mem_cons.mpr ⟨hbar, hnone⟩)
    · exact .inr ⟨p :: init, q, rfl, hq, forall_mem_cons.mpr ⟨hbar, hinit⟩, hfail (.inr hr)⟩

end

end Q1n1.Proxy
