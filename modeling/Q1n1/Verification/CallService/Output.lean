import Q1n1.Verification.CallService.Staging
import Mathlib.Tactic.IntervalCases

/-! # Console output reaches the host without unmarked gaps

The payload's ring holds the last bytes of one output stream. Every reply carries a slice of
the stream at its stated offset, and a host that asks on from where the last reply ended
puts the stream together again between two gap flags. -/

namespace Q1n1.CallService

open Bytes List View

/-! ## What a reply says -/

/-- The fields of a reply that the output is read from. -/
structure OutReply where
  status : ℕ
  flags : ℕ
  offset : ℕ
  out : List UInt8

def outReply (reply : List UInt8) : OutReply where
  status := getLe 4 (reply.drop 24)
  flags := getLe 4 (reply.drop 28)
  offset := getLe 8 (reply.drop 40)
  out := (reply.drop consoleReplyHeader).take (getLe 2 (reply.drop 64))

def OutReply.gap (r : OutReply) : Bool := r.flags &&& consoleFGap != 0

theorem getLe_drop_field {n v k : ℕ} {l p q : List UInt8} (h : l = p ++ (putLe n v ++ q))
    (hk : p.length = k) (hv : v < 256 ^ n) : getLe n (l.drop k) = v := by
  rw [h, drop_left' hk, getLe_putLe_of_lt hv]

theorem consoleReply_length (s : CallState) (op nonce : ℕ) (status : Int) (flags : ℕ)
    (v : Option View) (off : ℕ) (out : List UInt8) :
    (s.consoleReply op nonce status flags v off out).2.length = consoleReplyHeader + out.length + 4
    := by
  simp [CallState.consoleReply, consoleReplyHeader]
  omega

theorem outReply_parts {st fl off n : ℕ} {a b c c' d d' out e : List UInt8} (ha : a.length = 24)
    (hb : b.length = 8) (hc : c.length = 8) (hc' : c'.length = 8) (hd : d.length = 2)
    (hd' : d'.length = 4) (hn : out.length = n) (hst : st < 2 ^ 32) (hfl : fl < 2 ^ 32)
    (hoff : off < 2 ^ 64) (hout : n < 2 ^ 16) :
    outReply (a ++ putLe 4 st ++ putLe 4 fl ++ b ++ putLe 8 off ++ c ++ c' ++ putLe 2 n ++ d ++
      d' ++ out ++ e) = ⟨st, fl, off, out⟩ := by
  have h₁ := getLe_drop_field (n := 4) (v := st) (k := 24) (p := a)
    (q := putLe 4 fl ++ b ++ putLe 8 off ++ c ++ c' ++ putLe 2 n ++ d ++ d' ++ out ++ e) rfl ha
    (by simpa using hst)
  have h₂ := getLe_drop_field (n := 4) (v := fl) (k := 28) (p := a ++ putLe 4 st)
    (q := b ++ putLe 8 off ++ c ++ c' ++ putLe 2 n ++ d ++ d' ++ out ++ e) rfl (by simp [ha])
    (by simpa using hfl)
  have h₃ := getLe_drop_field (n := 8) (v := off) (k := 40)
    (p := a ++ putLe 4 st ++ putLe 4 fl ++ b) (q := c ++ c' ++ putLe 2 n ++ d ++ d' ++ out ++ e)
    rfl (by simp [ha, hb]) (by simpa using hoff)
  have h₄ := getLe_drop_field (n := 2) (v := n) (k := 64)
    (p := a ++ putLe 4 st ++ putLe 4 fl ++ b ++ putLe 8 off ++ c ++ c') (q := d ++ d' ++ out ++ e)
    rfl (by simp [ha, hb, hc, hc']) (by simpa using hout)
  have h₅ : (a ++ putLe 4 st ++ putLe 4 fl ++ b ++ putLe 8 off ++ c ++ c' ++ putLe 2 n ++ d ++ d' ++
      (out ++ e)).drop consoleReplyHeader = out ++ e :=
    drop_left' (by simp [ha, hb, hc, hc', hd, hd', consoleReplyHeader])
  simp only [append_assoc] at h₁ h₂ h₃ h₄ h₅ ⊢
  simp only [outReply, h₁, h₂, h₃, h₄, h₅, take_left' hn]

theorem outReply_consoleReply (s : CallState) (op nonce : ℕ) (status : Int) {flags : ℕ}
    (v : Option View) {off : ℕ} {out : List UInt8} (hflags : flags < 2 ^ 32)
    (hoff : off < 2 ^ 64) (hout : out.length < 2 ^ 16) :
    outReply (s.consoleReply op nonce status flags v off out).2 =
      ⟨(status % 2 ^ 32).toNat, flags ||| flag s.armed consoleFArmed, off, out⟩ := by
  have harmed : flag s.armed consoleFArmed < 2 ^ 32 := by
    cases s.armed <;> decide
  exact outReply_parts (by simp) (by simp) (by simp) (by simp) (by simp) (by simp) rfl (by omega)
    (Nat.or_lt_two_pow hflags harmed) hoff hout

/-- The payload's ring holds the last bytes of the stream `O` that fit, and the staging
buffer lies elsewhere. -/
structure HoldsStream (O : ℕ → UInt8) (v : View) (m : Memory) : Prop where
  held : ∀ k < v.outProduced, v.outProduced ≤ k + v.outSize → m (v.outBase + k % v.outSize) = O k
  apart : v.outBase + v.outSize ≤ v.inBase ∨ v.inBase + v.inSize ≤ v.outBase
  produced : v.outProduced < 2 ^ 64

variable {O : ℕ → UInt8} {v : View} {m : Memory}

theorem View.outBytes_eq_load (hsize : 0 < v.outSize) (count start : ℕ)
    (hheld : ∀ k, start ≤ k → k < start + count → m (v.outBase + k % v.outSize) = O k) :
    v.outBytes m (start % v.outSize) count = Memory.load O start count := by
  induction count generalizing start with
  | zero => rfl
  | succ count ih =>
    have hnext : (if start % v.outSize + 1 = v.outSize then 0 else start % v.outSize + 1) =
        (start + 1) % v.outSize := by
      have hlt := Nat.mod_lt start hsize
      rw [← Nat.mod_add_mod]
      split
      · rename_i hend
        rw [hend, Nat.mod_self]
      · rw [Nat.mod_eq_of_lt (show start % v.outSize + 1 < v.outSize by omega)]
    rw [outBytes, hnext, ih (start + 1) fun k hk hk' => hheld k (by omega) (by omega),
      hheld start (le_refl _) (by omega), add_comm count 1, Memory.load_add]
    rfl

theorem View.stage_apply (v : View) (m : Memory) (r : ConsoleRequest) {a : ℕ}
    (ha : a < v.inBase + v.inFill ∨ v.inBase + v.inRoom ≤ a) (hfill : v.inFill ≤ v.inRoom) :
    (v.stage m r).2 a = m a := by
  simp only [stage]
  split
  · rfl
  · split
    · rfl
    · split
      · rfl
      · show m.store _ _ a = m a
        rw [Memory.store, if_neg]
        rw [length_take]
        split <;> omega

theorem View.stage_toSetup (v : View) (m : Memory) (r : ConsoleRequest) :
    (v.stage m r).1.toSetup = v.toSetup := by
  simp only [stage]
  split
  · rfl
  · split
    · rfl
    · split <;> rfl

theorem HoldsStream.stage (h : HoldsStream O v m) (hfill : v.inFill ≤ v.inRoom)
    (hroom : v.inRoom ≤ v.inSize) (hsize : 0 < v.outSize) (r : ConsoleRequest) :
    HoldsStream O (v.stage m r).1 (v.stage m r).2 := by
  have hsetup := v.stage_toSetup m r
  have hapart := h.apart
  refine ⟨?_, ?_, ?_⟩
  · rw [hsetup]
    intro k hk hheld
    have hmod := Nat.mod_lt k hsize
    rw [v.stage_apply m r (by omega) hfill]
    exact h.held k hk hheld
  · rw [hsetup]
    exact h.apart
  · rw [hsetup]
    exact h.produced

/-! ## One reply -/

/-- What a reply to a request for the output from `ack` on says of the stream. -/
structure Serves (O : ℕ → UInt8) (v : View) (ack capacity : ℕ) (reply : List UInt8) : Prop where
  fits : reply.length ≤ capacity
  refused : reply ≠ [] → (outReply reply).status ≠ 0 → (outReply reply).out = []
  slice : reply ≠ [] → (outReply reply).status = 0 →
    (outReply reply).out = Memory.load O (outReply reply).offset (outReply reply).out.length
  produced : reply ≠ [] → (outReply reply).status = 0 →
    (outReply reply).offset + (outReply reply).out.length ≤ v.outProduced
  start : reply ≠ [] → (outReply reply).status = 0 →
    if v.outSize < v.outProduced - min ack v.outProduced then
      (outReply reply).gap = true ∧ (outReply reply).offset = v.outProduced - v.outSize
    else (outReply reply).gap = false ∧ (outReply reply).offset = min ack v.outProduced

variable {capacity : ℕ}

theorem serves_nil {ack : ℕ} : Serves O v ack capacity [] :=
  ⟨Nat.zero_le _, fun h => absurd rfl h, fun h => absurd rfl h, fun h => absurd rfl h,
    fun h => absurd rfl h⟩

theorem serves_refused {ack : ℕ} (s : CallState) (op nonce : ℕ) {status : Int} {flags : ℕ}
    (v' : Option View) (hcapacity : consoleReplyHeader + 4 ≤ capacity) (hflags : flags < 2 ^ 32)
    (hstatus : (status % 2 ^ 32).toNat ≠ 0) :
    Serves O v ack capacity (s.consoleReply op nonce status flags v' 0 []).2 := by
  have hfields : outReply (s.consoleReply op nonce status flags v' 0 []).2 = _ :=
    outReply_consoleReply s op nonce status v' hflags (by decide) (by decide)
  have hnot : (outReply (s.consoleReply op nonce status flags v' 0 []).2).status ≠ 0 := by
    rw [hfields]
    exact hstatus
  refine ⟨?_, ?_, ?_, ?_, ?_⟩
  · rw [consoleReply_length]
    exact hcapacity
  · intro _ _
    rw [hfields]
  · exact fun _ hzero => absurd hzero hnot
  · exact fun _ hzero => absurd hzero hnot
  · exact fun _ hzero => absurd hzero hnot

theorem View.outStart_eq (v : View) (r : ConsoleRequest) :
    v.outStart r = if v.outSize < v.outProduced - min r.outAck v.outProduced
      then (v.outProduced - v.outSize, true) else (min r.outAck v.outProduced, false) := by
  have hmin : (if r.outAck < v.outProduced then r.outAck else v.outProduced) =
      min r.outAck v.outProduced := by
    split <;> omega
  simp only [outStart, hmin]

theorem View.outCount_le (v : View) (r : ConsoleRequest) (capacity start : ℕ) :
    v.outCount r capacity start ≤ v.outProduced - start ∧
      v.outCount r capacity start ≤ capacity - consoleReplyHeader - 4 ∧
      v.outCount r capacity start < 2 ^ 16 := by
  simp only [outCount]
  generalize hfirst : (if consoleOutMax < capacity - consoleReplyHeader - 4 then consoleOutMax
    else capacity - consoleReplyHeader - 4) = first
  generalize hlimit : (if r.outMax ≠ 0 ∧ r.outMax < first then r.outMax else first) = limit
  have hle : first ≤ 1364 ∧ first ≤ capacity - consoleReplyHeader - 4 := by
    have hmax : consoleOutMax = 1364 := rfl
    split at hfirst <;> omega
  have hle' : limit ≤ first := by
    split at hlimit <;> omega
  split <;> omega

theorem View.outBytes_length (v : View) (m : Memory) (at_ count : ℕ) :
    (v.outBytes m at_ count).length = count := by
  induction count generalizing at_ with
  | zero => rfl
  | succ count ih => rw [outBytes, length_cons, ih]

theorem gap_flag (owner gap armed : Bool) :
    ((consoleFView ||| flag owner consoleFOwner ||| flag gap consoleFGap |||
      flag armed consoleFArmed) &&& consoleFGap != 0) = gap := by
  revert owner gap armed
  decide

section

variable (h : HoldsStream O v m)
include h

theorem View.output_serves (hsize : 0 < v.outSize) (s : CallState)
    (r : ConsoleRequest) {start : ℕ} {gap : Bool} (v' : Option View)
    (hcapacity : consoleReplyHeader + 4 ≤ capacity) (hstart : v.outStart r = (start, gap)) :
    Serves O v r.outAck capacity (s.consoleReply r.op r.nonce stopOk
      (consoleFView ||| flag (!r.peek) consoleFOwner ||| flag gap consoleFGap) v' start
      (v.outBytes m (start % v.outSize) (v.outCount r capacity start))).2 := by
  obtain ⟨hcount, hroom, hsmall⟩ := v.outCount_le r capacity start
  have hlen := v.outBytes_length m (start % v.outSize) (v.outCount r capacity start)
  generalize v.outCount r capacity start = count at hcount hroom hsmall hlen ⊢
  rw [outStart_eq] at hstart
  have hproduced := h.produced
  have hcase : start ≤ v.outProduced ∧ v.outProduced - start ≤ v.outSize ∧
      if v.outSize < v.outProduced - min r.outAck v.outProduced then
        gap = true ∧ start = v.outProduced - v.outSize
      else gap = false ∧ start = min r.outAck v.outProduced := by
    split at hstart <;> cases hstart
    · rename_i hgap
      rw [if_pos hgap]
      exact ⟨by omega, by omega, rfl, rfl⟩
    · rename_i hgap
      rw [if_neg hgap]
      exact ⟨by omega, by omega, rfl, rfl⟩
  obtain ⟨hle, hheld, hspec⟩ := hcase
  have hflags : consoleFView ||| flag (!r.peek) consoleFOwner ||| flag gap consoleFGap <
      2 ^ 32 := by
    cases r.peek <;> cases gap <;> decide
  have hbytes : v.outBytes m (start % v.outSize) count = Memory.load O start count :=
    outBytes_eq_load hsize count start fun k hk hk' => h.held k (by omega) (by omega)
  have hfields := outReply_consoleReply s r.op r.nonce stopOk v' hflags
    (show start < 2 ^ 64 by omega) (show (v.outBytes m (start % v.outSize) count).length < 2 ^ 16 by
      rw [hlen]; exact hsmall)
  have hgap : (outReply (s.consoleReply r.op r.nonce stopOk
      (consoleFView ||| flag (!r.peek) consoleFOwner ||| flag gap consoleFGap) v' start
      (v.outBytes m (start % v.outSize) count)).2).gap = gap := by
    rw [hfields]
    exact gap_flag _ _ _
  refine ⟨?_, ?_, ?_, ?_, ?_⟩
  · rw [consoleReply_length, hlen]
    omega
  · intro _ hstatus
    rw [hfields] at hstatus
    exact absurd rfl hstatus
  · intro _ _
    rw [hfields]
    simp only [hbytes]
    rw [Memory.load_length]
  · intro _ _
    rw [hfields]
    simp only [hlen]
    omega
  · intro _ _
    rw [hgap, hfields]
    exact hspec

omit h in
theorem Serves.of_setup {v' : View} {ack : ℕ} {reply : List UInt8}
    (h : Serves O v ack capacity reply) (hs : v.toSetup = v'.toSetup) :
    Serves O v' ack capacity reply := by
  have hproduced := h.produced
  have hstart := h.start
  rw [hs] at hproduced hstart
  exact ⟨h.fits, h.refused, h.slice, hproduced, hstart⟩

theorem View.exchange_serves (hfill : v.inFill ≤ v.inRoom) (hroom : v.inRoom ≤ v.inSize)
    (hsize : 0 < v.outSize) (s : CallState) (r : ConsoleRequest)
    (hcapacity : consoleReplyHeader + 4 ≤ capacity) :
    Serves O v r.outAck capacity (v.exchange m s r capacity).2.2.2 ∧
      HoldsStream O (v.exchange m s r capacity).2.1 (v.exchange m s r capacity).2.2.1 ∧
      (v.exchange m s r capacity).2.1.toSetup = v.toSetup := by
  have hheld := h.stage hfill hroom hsize r
  have hsetup := v.stage_toSetup m r
  rw [exchange]
  generalize v.stage m r = staged at hheld hsetup ⊢
  obtain ⟨v₁, m₁⟩ := staged
  dsimp only at hheld hsetup ⊢
  refine ⟨?_, { hheld with }, hsetup⟩
  cases hstart : v₁.outStart r with
  | mk start gap =>
    generalize hv₂ : { v₁ with outGaps := if gap then bump v₁.outGaps else v₁.outGaps } = v₂
    have hsetup₂ : v₂.toSetup = v₁.toSetup := by rw [← hv₂]
    have hheld₂ : HoldsStream O v₂ m₁ := by
      rw [← hv₂]
      exact { hheld with }
    have hstart₂ : v₂.outStart r = (start, gap) := by
      rw [← hstart]
      simp only [outStart, hsetup₂]
    rw [← hsetup] at hsize
    rw [← hsetup₂] at hsize ⊢
    exact (output_serves hheld₂ hsize s r _ hcapacity hstart₂).of_setup
      (hsetup₂.trans hsetup)

theorem HoldsStream.of_setup {v' : View} (hs : v'.toSetup = v.toSetup) : HoldsStream O v' m := by
  refine ⟨?_, ?_, ?_⟩
  · rw [hs]
    exact h.held
  · rw [hs]
    exact h.apart
  · rw [hs]
    exact h.produced

omit h in
theorem View.ok_bounds (h : v.ok = true) :
    v.inFill ≤ v.inRoom ∧ v.inRoom ≤ v.inSize ∧ 0 < v.outSize := by
  simp only [ok, Bool.and_eq_true, decide_eq_true_eq, bne_iff_ne] at h
  omega

theorem View.serve_serves (hok : v.ok = true) (s : CallState) (r : ConsoleRequest)
    (hcapacity : consoleReplyHeader + 4 ≤ capacity) :
    Serves O v r.outAck capacity (v.serve m s r capacity).2.2.2 ∧
      HoldsStream O (v.serve m s r capacity).2.1 (v.serve m s r capacity).2.2.1 ∧
      (v.serve m s r capacity).2.1.toSetup = v.toSetup := by
  obtain ⟨hfill, hroom, hsize⟩ := ok_bounds hok
  simp only [serve]
  split
  · refine ⟨?_, h.of_setup rfl, rfl⟩
    exact serves_refused _ _ _ _ hcapacity (by decide) (by decide)
  · rename_i v₁ hclaim
    obtain ⟨hsetup, -, hfill₁⟩ := claim_eq hclaim
    obtain ⟨hserves, hheld, hsame⟩ := exchange_serves (h.of_setup hsetup)
      (by rw [hfill₁, hsetup]; exact hfill) (by rw [hsetup]; exact hroom)
      (by rw [hsetup]; exact hsize) s r hcapacity
    exact ⟨hserves.of_setup hsetup, hheld, hsame.trans hsetup⟩

omit h in
theorem CallState.consoleStatus_toNat (s : CallState) (r : ConsoleRequest) (good : Bool)
    (h : s.consoleStatus r good ≠ 0) : (s.consoleStatus r good % 2 ^ 32).toNat ≠ 0 := by
  simp only [CallState.consoleStatus] at h ⊢
  split_ifs at h ⊢
  · decide
  · decide
  · decide
  · exact absurd rfl h

theorem CallState.consoleDatagram_serves (s : CallState) (shown : Bool) (data : List UInt8)
    (capacity : ℕ) :
    Serves O v (consoleFields data).outAck capacity
        (s.consoleDatagram shown v m data capacity).2.2.2 ∧
      HoldsStream O (s.consoleDatagram shown v m data capacity).2.1
        (s.consoleDatagram shown v m data capacity).2.2.1 ∧
      (s.consoleDatagram shown v m data capacity).2.1.toSetup = v.toSetup := by
  simp only [CallState.consoleDatagram]
  split
  · exact ⟨serves_nil, h, rfl⟩
  · rename_i hsize
    have hcapacity : consoleReplyHeader + 4 ≤ capacity := by
      simp only [Bool.or_eq_true, decide_eq_true_eq, not_or] at hsize
      omega
    split
    · refine ⟨?_, h, rfl⟩
      exact serves_refused _ _ _ _ hcapacity (by decide) (by decide)
    · split
      · rename_i hstatus
        have hsetup : (if (shown && v.ok) = true then { v with refused := bump v.refused }
            else v).toSetup = v.toSetup := by
          split <;> rfl
        refine ⟨?_, h.of_setup hsetup, hsetup⟩
        exact serves_refused _ _ _ _ hcapacity (by decide)
          (CallState.consoleStatus_toNat _ _ _ hstatus)
      · rename_i hstatus
        have hgood : (shown && v.ok) = true := by
          by_contra hbad
          rw [Bool.not_eq_true] at hbad
          rw [hbad] at hstatus
          exact hstatus (CallState.consoleStatus_false _ _)
        exact serve_serves h (Bool.and_eq_true_iff.mp hgood).2 _ _ hcapacity

end

/-! ## A host that follows the stream -/

/-- What a host has put together: the run of bytes since the last gap, the runs before it,
and the offset it asks for next. -/
structure Follower where
  next : ℕ
  start : ℕ
  bytes : List UInt8 := []
  done : List (ℕ × List UInt8) := []

def Follower.receive (f : Follower) (reply : List UInt8) : Follower :=
  let r := outReply reply
  if reply = [] ∨ r.status ≠ 0 then f
  else if r.gap then
    { next := r.offset + r.out.length, start := r.offset, bytes := r.out,
      done := f.done ++ [(f.start, f.bytes)] }
  else { f with next := r.offset + r.out.length, bytes := f.bytes ++ r.out }

/-- The console of a payload, and one host that follows it. -/
structure Console where
  call : CallState
  shown : Bool
  view : View
  memory : Memory
  host : Follower

/-- The payload and the service go on in any way, or a request comes in; `heard` when it is
the host's own and the host gets the reply. -/
inductive Turn where
  | goOn (call : CallState) (shown : Bool) (view : View) (memory : Memory)
  | request (data : List UInt8) (capacity : ℕ) (heard : Bool)

def Console.reply (c : Console) (data : List UInt8) (capacity : ℕ) : List UInt8 :=
  (c.call.consoleDatagram c.shown c.view c.memory data capacity).2.2.2

def Console.step (c : Console) : Turn → Console
  | .goOn call shown view memory => { c with call, shown, view, memory }
  | .request data capacity heard =>
    let (call, view, memory, reply) := c.call.consoleDatagram c.shown c.view c.memory data capacity
    { c with call, view, memory, host := if heard then c.host.receive reply else c.host }

def Console.run (c : Console) (turns : List Turn) : Console := turns.foldl Console.step c

/-- The payload only ever adds to its stream, and the host asks for what it lacks. -/
def Turn.Legal (O : ℕ → UInt8) (c : Console) : Turn → Prop
  | .goOn _ _ view memory => HoldsStream O view memory ∧ c.view.outProduced ≤ view.outProduced
  | .request data _ heard => heard = true → (consoleFields data).outAck = c.host.next

def LegalTurns (O : ℕ → UInt8) : Console → List Turn → Prop
  | _, [] => True
  | c, turn :: turns => turn.Legal O c ∧ LegalTurns O (c.step turn) turns

/-- Every run of bytes the host has is a slice of the stream, and it asks for the byte
right behind the last. -/
structure Follows (O : ℕ → UInt8) (c : Console) : Prop where
  ring : HoldsStream O c.view c.memory
  bytes : c.host.bytes = Memory.load O c.host.start c.host.bytes.length
  next : c.host.next = c.host.start + c.host.bytes.length
  produced : c.host.next ≤ c.view.outProduced
  done : ∀ p ∈ c.host.done, p.2 = Memory.load O p.1 p.2.length

variable {c : Console}

theorem Follows.receive (h : Follows O c) {reply : List UInt8}
    (hserves : Serves O c.view c.host.next capacity reply) {call : CallState} {view : View}
    {memory : Memory} (hring : HoldsStream O view memory) (hsetup : view.toSetup = c.view.toSetup) :
    Follows O { c with call, view, memory, host := c.host.receive reply } := by
  have hproduced : view.outProduced = c.view.outProduced := by rw [hsetup]
  simp only [Follower.receive]
  split
  · exact ⟨hring, h.bytes, h.next, hproduced ▸ h.produced, h.done⟩
  · rename_i hgot
    rw [not_or, not_not] at hgot
    have hslice := hserves.slice hgot.1 hgot.2
    have hend := hserves.produced hgot.1 hgot.2
    have hstart := hserves.start hgot.1 hgot.2
    rw [min_eq_left h.produced] at hstart
    split
    · refine ⟨hring, hslice, rfl, hproduced ▸ hend, ?_⟩
      exact forall_mem_append.mpr ⟨h.done, forall_mem_singleton.mpr h.bytes⟩
    · rename_i hgap
      have hoffset : (outReply reply).offset = c.host.next := by
        split at hstart
        · exact absurd hstart.1 hgap
        · exact hstart.2
      refine ⟨hring, ?_, ?_, hproduced ▸ hend, h.done⟩
      · show c.host.bytes ++ _ = Memory.load O c.host.start (c.host.bytes ++ _).length
        rw [length_append, Memory.load_add, ← h.bytes, ← h.next, ← hoffset, ← hslice]
      · show (outReply reply).offset + _ = c.host.start + (c.host.bytes ++ _).length
        rw [hoffset, h.next, length_append, add_assoc]

theorem Follows.step (h : Follows O c) {turn : Turn} (hlegal : turn.Legal O c) :
    Follows O (c.step turn) := by
  cases turn with
  | goOn call shown view memory =>
    exact ⟨hlegal.1, h.bytes, h.next, h.produced.trans hlegal.2, h.done⟩
  | request data capacity heard =>
    obtain ⟨hserves, hring, hsetup⟩ :=
      CallState.consoleDatagram_serves h.ring c.call c.shown data capacity
    cases heard with
    | false =>
      have hproduced : (c.call.consoleDatagram c.shown c.view c.memory data
          capacity).2.1.outProduced = c.view.outProduced := by rw [hsetup]
      exact ⟨hring, h.bytes, h.next, h.produced.trans hproduced.ge, h.done⟩
    | true =>
      rw [hlegal rfl] at hserves
      exact h.receive hserves hring hsetup

theorem Follows.run (h : Follows O c) (turns : List Turn) (hlegal : LegalTurns O c turns) :
    Follows O (c.run turns) := by
  induction turns generalizing c with
  | nil => exact h
  | cons turn turns ih => exact ih (h.step hlegal.1) hlegal.2

theorem LegalTurns.append {before after : List Turn} (h : LegalTurns O c (before ++ after)) :
    LegalTurns O c before ∧ LegalTurns O (c.run before) after := by
  induction before generalizing c with
  | nil => exact ⟨trivial, h⟩
  | cons turn before ih => exact ⟨⟨h.1, (ih h.2).1⟩, (ih h.2).2⟩

/-- Over every run, each reply serves its request from the ring as it is then, and the host
that follows holds slices of the stream and asks for the byte behind the last. -/
theorem Console.run_serves (O : ℕ → UInt8) (c : Console) (turns : List Turn) (h : Follows O c)
    (hlegal : LegalTurns O c turns) : (∀ before data capacity heard after,
      turns = before ++ .request data capacity heard :: after →
        Serves O (c.run before).view (consoleFields data).outAck capacity
          ((c.run before).reply data capacity)) ∧
      Follows O (c.run turns) := by
  refine ⟨fun before data capacity heard after heq => ?_, h.run turns hlegal⟩
  rw [heq] at hlegal
  have hring := (h.run before hlegal.append.1).ring
  exact (CallState.consoleDatagram_serves hring _ _ data capacity).1

def outputRequest (session owner ack most : ℕ) : List UInt8 :=
  let body := putLe 4 consoleRequestMagic ++ putLe 2 consoleVersion ++ putLe 2 consoleExchange ++
    putLe 8 1 ++ putLe 8 session ++ putLe 8 owner ++ putLe 8 0 ++ putLe 8 ack ++
    putLe 2 0 ++ putLe 2 most ++ putLe 4 0
  body ++ putLe 4 (crc32 body)

/-- A ring of four bytes after `outProduced` bytes of output. -/
def smallRing (outProduced : ℕ) : View :=
  { outBase := 16, outSize := 4, outProduced, inBase := 64, inSize := 8, inRoom := 8 }

def alphabet : ℕ → UInt8 := fun n => UInt8.ofNat (65 + n)

/-- Three bytes of output, which the host has not asked for yet. -/
def threeBytes : Console where
  call := { armed := true, session := 7 }
  shown := true
  view := smallRing 3
  memory := Memory.store (fun _ => 0) 16 [65, 66, 67]
  host := { next := 0, start := 0 }

/-- The host reads two bytes and the third, misses some, and reads on. -/
def readWithGap : List Turn :=
  [.request (outputRequest 7 1 0 2) 100 true, .request (outputRequest 7 1 2 0) 100 true,
    .goOn threeBytes.call true { smallRing 9 with owner := 1 }
      (Memory.store (fun _ => 0) 16 [73, 70, 71, 72]),
    .request (outputRequest 7 1 3 3) 100 true, .request (outputRequest 7 1 8 0) 100 true]

theorem Console.run_serves_withGap : Follows alphabet (threeBytes.run readWithGap) ∧
      (threeBytes.run readWithGap).host.done = [(0, [65, 66, 67])] ∧
      (threeBytes.run readWithGap).host.start = 5 ∧
      (threeBytes.run readWithGap).host.bytes = [70, 71, 72, 73] := by
  have hstart : Follows alphabet threeBytes := by
    refine ⟨⟨fun k hk _ => ?_, .inl (by decide), by decide⟩, rfl, rfl, by decide,
      by simp [threeBytes]⟩
    have hk : k < 3 := hk
    interval_cases k <;> decide
  have hlater : HoldsStream alphabet { smallRing 9 with owner := 1 }
      (Memory.store (fun _ => 0) 16 [73, 70, 71, 72]) := by
    refine ⟨fun k hk hge => ?_, .inl (by decide), by decide⟩
    have hk : k < 9 := hk
    have hge : 5 ≤ k := Nat.le_of_add_le_add_right (show 5 + 4 ≤ k + 4 from hge)
    interval_cases k <;> decide
  have hlegal : LegalTurns alphabet threeBytes readWithGap :=
    ⟨fun _ => by decide +kernel, fun _ => by decide +kernel, ⟨hlater, by decide +kernel⟩,
      fun _ => by decide +kernel, fun _ => by decide +kernel, trivial⟩
  exact ⟨(Console.run_serves alphabet threeBytes readWithGap hstart hlegal).2,
    by decide +kernel, by decide +kernel, by decide +kernel⟩

end Q1n1.CallService
