import Q1n1.Library.History
import Q1n1.Model.Proxy.Loop

/-! # One request, one connection

Over any transport that stays on the connection it selected until it is told to end: whatever
a request takes, gives and goes by belongs to one connection. A request during which exception
sessions ran has lost its selection; it stays on its connection as long as what is written
happens to go there. -/

namespace Q1n1.Proxy

open List Loop

variable {M W σ ι α β : Type}

/-! ## Transports -/

/-- What is of interest in the state of a transport: the connection in use, what has left each
connection's queue, which checksum modes were rightly used when, and an invariant of the
transport itself. -/
structure View (σ ι : Type) where
  selected : σ → Option ι
  past : σ → ι → List UInt8
  used : σ → ℕ → ι → Bool → Prop
  good : σ → Prop

/-- Queues and records only grow, and the invariant is kept. -/
structure View.Follows (v : View σ ι) (s s' : σ) : Prop where
  past : ∀ i, (v.past s i).Sublist (v.past s' i)
  used : ∀ n i off, v.used s n i off → v.used s' n i off
  good : v.good s → v.good s'

/-- The selection is kept as well. -/
structure View.Keeps (v : View σ ι) (s s' : σ) : Prop extends v.Follows s s' where
  selected : v.selected s' = v.selected s

variable {v : View σ ι}

theorem View.Keeps.refl (s : σ) : v.Keeps s s :=
  ⟨⟨fun _ => List.Sublist.refl _, fun _ _ _ => id, id⟩, rfl⟩

theorem View.Follows.trans {s t u : σ} (h : v.Follows s t) (h' : v.Follows t u) : v.Follows s u :=
  ⟨fun i => (h.past i).trans (h'.past i), fun n i off => h'.used n i off ∘ h.used n i off,
    h'.good ∘ h.good⟩

theorem View.Keeps.trans {s t u : σ} (h : v.Keeps s t) (h' : v.Keeps t u) : v.Keeps s u :=
  ⟨h.toFollows.trans h'.toFollows, h'.selected.trans h.selected⟩

/-- A transport that stays on the connection it selected. -/
structure Io.Sticky (io : Io σ ι) (v : View σ ι) : Prop where
  poll : ∀ s, v.Keeps s (io.poll s)
  abort : ∀ s, v.Keeps s (io.abort s).2
  ready : ∀ s, v.Keeps s (io.ready s).2
  expired : ∀ s, v.Keeps s (io.expired s).2
  checksumsOff : ∀ i s, v.Keeps s (io.checksumsOff i s).2
  checksumsOff_used : ∀ i s, v.good s →
    v.used (io.checksumsOff i s).2 (io.clock s) i (io.checksumsOff i s).1
  setChecksumsOff : ∀ i off s, v.Keeps s (io.setChecksumsOff i off s)
  write : ∀ bs s, v.Keeps s (io.write bs s).2
  write_to : ∀ bs s i, v.selected s = some i → (io.write bs s).1.2 ≠ 0 → (io.write bs s).1.1 = i
  read : ∀ n s, v.Follows s (io.read n s).2
  read_none : ∀ n s, (io.read n s).1.2 = [] → v.selected (io.read n s).2 = v.selected s
  read_some : ∀ n s, (io.read n s).1.2 ≠ [] → v.selected (io.read n s).2 = some (io.read n s).1.1 ∧
    (∀ i, v.selected s = some i → (io.read n s).1.1 = i) ∧
    (v.past s (io.read n s).1.1 ++ (io.read n s).1.2).Sublist
      (v.past (io.read n s).2 (io.read n s).1.1)
  end_ : ∀ s, v.Follows s (io.end_ s)
  end_selected : ∀ s, v.selected (io.end_ s) = none
  checksumState : ∀ s i, v.selected s = some i → io.checksumState s = i

/-! ## Programs -/

/-- The announcement: it writes and does nothing else. -/
def Prog.Announcing : Prog W → Prop
  | .finish (.announced _) => True
  | .writeFull _ k => ∀ ok, (k ok).Announcing
  | _ => False

/-- A program that only has a reply left to write. -/
def Prog.Ending : Prog W → Prop
  | .finish (.next _) => True
  | .finish (.leave _ _) => True
  | .writeFull _ k => ∀ ok, (k ok).Ending
  | _ => False

/-- After uploaded code has run, only the reply is left. -/
def Prog.CallsEnd : Prog W → Prop
  | .finish (.announced _) => False
  | .finish _ => True
  | .readFull _ k => ∀ got, (k got).CallsEnd
  | .writeFull _ k => ∀ ok, (k ok).CallsEnd
  | .poll k => k.CallsEnd
  | .checksumsOff k => ∀ off, (k off).CallsEnd
  | .setChecksumsOff _ k => k.CallsEnd
  | .call _ k => ∀ w, (k w).Ending

variable {p : Prog W}

theorem Prog.Ending.callsEnd (h : p.Ending) : p.CallsEnd := by
  induction p with
  | finish after => cases after <;> trivial
  | writeFull bs k ih => exact fun ok => ih ok (h ok)
  | _ => exact h.elim

structure Serve.Plain (f : Serve W α) : Prop where
  callsEnd : ∀ w k, (∀ x w', (k x w').CallsEnd) → (f w k).CallsEnd

structure Serve.Mute (f : Serve W α) : Prop where
  ending : ∀ w k, (∀ x w', (k x w').Ending) → (f w k).Ending

/-- A part of a program that only a reply may follow: it may run uploaded code. -/
structure Serve.Last (f : Serve W α) : Prop where
  callsEnd : ∀ w k, (∀ x w', (k x w').Ending) → (f w k).CallsEnd

/-- What holds of a program if it holds of all it can go on with after a read, a write, a poll or
a look at the mode. -/
structure Prog.Closed (C : Prog W → Prop) : Prop where
  readFull : ∀ n k, (∀ got, C (k got)) → C (.readFull n k)
  writeFull : ∀ bs k, (∀ ok, C (k ok)) → C (.writeFull bs k)
  poll : ∀ k, C k → C (.poll k)
  checksumsOff : ∀ k, (∀ off, C (k off)) → C (.checksumsOff k)

/-- A part of a program in front of which `C` still holds. -/
def Serve.Under (C : Prog W → Prop) (f : Serve W α) : Prop :=
  ∀ w k, (∀ x w', C (k x w')) → C (f w k)

section Under

variable {C : Prog W → Prop} {f : Serve W α} {g : α → Serve W β}

namespace Serve

theorem Under.pure (x : α) : Under C (Pure.pure x : Serve W α) := fun w _ hk => hk x w

theorem Under.bind (hf : f.Under C) (hg : ∀ x, (g x).Under C) : Under C (f >>= g) :=
  fun w k hk => hf w _ fun x w' => hg x w' k hk

theorem Under.of (x : StateM W α) : (of x).Under C := fun w _ hk => hk (x w).1 (x w).2

theorem Under.ite {c : Prop} [Decidable c] {g : Serve W α} (hf : f.Under C)
    (hg : g.Under C) : Under C (if c then f else g) := by
  split
  · exact hf
  · exact hg

theorem Under.ite_bind {c : Prop} [Decidable c] {g : Serve W α} {rest : α → Serve W β}
    (hf : f.Under C) (hg : g.Under C) (hrest : ∀ x, (rest x).Under C) :
    Under C (if c then f >>= rest else g >>= rest) :=
  .ite (.bind hf hrest) (.bind hg hrest)

theorem Under.ite_skip {c : Prop} [Decidable c] {rest : Serve W β} (hf : f.Under C)
    (hrest : rest.Under C) : Under C (if c then f >>= fun _ => rest else rest) :=
  .ite (.bind hf fun _ => hrest) hrest

end Serve

section

variable (hC : Prog.Closed C)
include hC

theorem Serve.Under.readFull (n : ℕ) : (readFull n).Under C :=
  fun w _ hk => hC.readFull _ _ fun got => hk got w

theorem Serve.Under.writeFull (bs : List UInt8) : (writeFull bs).Under C :=
  fun w _ hk => hC.writeFull _ _ fun ok => hk ok w

theorem Serve.Under.sendReply (type : ℕ) (status : Int) (data : List UInt8) :
    (sendReply type status data).Under C :=
  .writeFull hC _

theorem Serve.Under.checksumsOff : checksumsOff.Under C :=
  fun w _ hk => hC.checksumsOff _ fun off => hk off w

theorem Serve.Under.pollTimes (n : ℕ) : (pollTimes n).Under C := by
  induction n with
  | zero => exact .pure ()
  | succ n ih => exact fun w k hk => hC.poll _ (ih w k hk)

end

end Under

theorem closed_callsEnd : Prog.Closed (Prog.CallsEnd (W := W)) :=
  ⟨fun _ _ h => h, fun _ _ h => h, fun _ h => h, fun _ h => h⟩

variable {f : Serve W α} {g : α → Serve W β}

namespace Serve

theorem Plain.setChecksumsOff (off : Bool) : (setChecksumsOff off : Serve W _).Plain :=
  ⟨fun w _ hk => hk () w⟩

theorem Mute.pure (x : α) : Mute (Pure.pure x : Serve W α) := ⟨fun w _ hk => hk x w⟩

theorem Mute.bind (hf : f.Mute) (hg : ∀ x, (g x).Mute) : Mute (f >>= g) :=
  ⟨fun w k hk => hf.ending w _ fun x w' => (hg x).ending w' k hk⟩

theorem Mute.of (x : StateM W α) : (of x).Mute := ⟨fun w _ hk => hk (x w).1 (x w).2⟩

theorem Mute.sendReply (type : ℕ) (status : Int) (data : List UInt8) :
    (sendReply type status data : Serve W _).Mute :=
  ⟨fun w _ hk ok => hk ok w⟩

theorem Under.last (hf : f.Under Prog.CallsEnd) : f.Last :=
  ⟨fun w k hk => hf w k fun x w' => (hk x w').callsEnd⟩

theorem Last.after (hf : f.Plain) (hg : ∀ x, (g x).Last) : Last (f >>= g) :=
  ⟨fun w k hk => hf.callsEnd w _ fun x w' => (hg x).callsEnd w' k hk⟩

theorem Last.bind (hf : f.Last) (hg : ∀ x, (g x).Mute) : Last (f >>= g) :=
  ⟨fun w k hk => hf.callsEnd w _ fun x w' => (hg x).ending w' k hk⟩

theorem Last.pure_bind {x : α} (hg : (g x).Last) : Last (Pure.pure x >>= g) := hg

theorem Last.ite {c : Prop} [Decidable c] {g : Serve W α} (hf : f.Last) (hg : g.Last) :
    Last (if c then f else g) := by
  split
  · exact hf
  · exact hg

end Serve

section

variable (P : Platform M) {C : Prog (World M) → Prop}

section

variable (hC : Prog.Closed C)
include hC

theorem memoryReadFrom_under (address size : ℕ) (record : Bool) (done : ℕ) :
    (memoryReadFrom P address size record done).Under C := by
  fun_induction memoryReadFrom P address size record done with
  | case1 done h n ih =>
    refine .bind (.of _) fun _ => .bind (.of _) fun _ => .bind (.of _) fun _ => ?_
    split
    · refine .bind (.of _) fun _ => .bind (.of _) fun _ => ?_
      exact .bind (.writeFull hC _) fun ok => .ite ih (.pure _)
    · exact .bind (.of _) fun _ => .bind (.writeFull hC _) fun ok => .ite ih (.pure _)
  | case2 done h => exact .pure _

theorem memoryRead_under (type address size : ℕ) : (memoryRead P type address size).Under C := by
  refine .bind (.of _) fun _ => .bind (.ite (.pure _) (.of _)) fun refused => ?_
  refine .ite (.bind (.of _) fun _ => .bind (.sendReply hC _ _ _) fun _ => .pure _) ?_
  refine .bind (.of _) fun _ => .bind (.of _) fun sum => .bind (.of _) fun _ => ?_
  refine .ite_bind (.pure _) (.of _) fun serror => .bind (.of _) fun w => ?_
  refine .ite (.bind (.sendReply hC _ _ _) fun _ => .pure _) ?_
  refine .bind (.checksumsOff hC) fun off => .bind (.sendReply hC _ _ _) fun sent => ?_
  refine .ite ?_ (.pure _)
  refine .bind (memoryReadFrom_under P hC _ _ _ _) fun all => .ite ?_ (.pure _)
  refine .bind (.checksumsOff hC) fun off => .ite ?_ (.pure _)
  exact .bind (.writeFull hC _) fun _ => .pure _

theorem memoryWriteFrom_under (address size : ℕ) (refused : Bool) (done sum : ℕ) (serror : Bool) :
    (memoryWriteFrom P address size refused done sum serror).Under C := by
  fun_induction memoryWriteFrom P address size refused done sum serror with
  | case1 done sum serror h n ih =>
    refine .bind (.readFull hC _) fun got => ?_
    cases got with
    | none => exact .pure _
    | some bs =>
      refine .bind (.of _) fun _ => .bind (.of _) fun w => .ite ?_ (.bind (.pure _) (ih bs))
      refine .bind (.of _) fun _ => .bind (.of _) fun _ => .bind (.of _) fun _ => ?_
      exact .bind (.of _) (ih bs)
  | case2 done sum serror h => exact .pure _

theorem memoryWrite_under (type address size expected : ℕ) :
    (memoryWrite P type address size expected).Under C := by
  refine .bind (.of _) fun _ => .bind (.of _) fun refused => ?_
  refine .ite_skip (.of _) ?_
  refine .bind (memoryWriteFrom_under P hC _ _ _ _ _ _) fun result => ?_
  cases result with
  | none => exact .pure _
  | some r =>
    refine .bind (.of _) fun w => .bind (.checksumsOff hC) fun off => ?_
    refine .ite_bind (.readFull hC _) (.pure _) fun ended => ?_
    exact .bind (.sendReply hC _ _ _) fun _ => .pure _

end

theorem perform_last (op : Opcode) (a : ℕ → ℕ) (guard : ℕ) : (perform P op a guard).Last := by
  cases op with
  | udelay =>
    exact Serve.Under.last
      (.bind (.of _) fun n => .bind (.pollTimes closed_callsEnd n) fun _ => .pure _)
  | reboot => exact ⟨fun _ _ _ => trivial⟩
  | call => exact ⟨fun w k hk w' => hk _ _⟩
  | _ => exact Serve.Under.last (.of _)

theorem proxyRequest_last (request : List UInt8) : (proxyRequest P request).Last := by
  by_cases hb : touchesTarget (Bytes.getLe 8 request) = true
  · simp only [proxyRequest, hb, if_true, Bool.true_and]
    refine .after ⟨Serve.Under.of _⟩ fun w => .after ⟨Serve.Under.of _⟩ fun refused => ?_
    cases refused with
    | true =>
      refine .after ⟨Serve.Under.of _⟩ fun _ => .after ⟨Serve.Under.pure _⟩ fun _ => ?_
      exact Serve.Under.last (.bind (.of _) fun _ => .bind (.pure _) fun _ => .pure _)
    | false =>
      simp only [if_true, Bool.not_false, Bool.false_eq_true, if_false]
      refine .bind (perform_last P _ _ _) fun done => ?_
      exact .bind (.of _) fun _ => .bind (.of _) fun _ => .pure _
  · simp only [proxyRequest, hb, Bool.false_eq_true, if_false, Bool.false_and]
    refine .after ⟨Serve.Under.of _⟩ fun w => .pure_bind ?_
    simp only [Bool.false_eq_true, if_false]
    refine .bind (perform_last P _ _ _) fun done => ?_
    exact .bind (.of _) fun _ => .bind (.pure _) fun _ => .pure _

theorem serve_last (request : List UInt8) : (serve P request).Last := by
  have hreply (type : ℕ) (status : Int) (data : List UInt8) : Serve.Last (do
      let _ ← sendReply type status data
      return none : Serve (World M) (Option ℕ)) :=
    Serve.Under.last (.bind (.sendReply closed_callsEnd _ _ _) fun _ => .pure _)
  simp only [serve]
  refine .ite (hreply _ _ _) (.ite ?_ (.ite ?_ (.ite ?_ (.ite ?_ (hreply _ _ _)))))
  · exact .after (.setChecksumsOff _) fun _ => hreply _ _ _
  · refine .bind (proxyRequest_last P _) fun r => ?_
    exact .bind (.sendReply _ _ _) fun _ => .pure _
  · refine .ite (.after ⟨memoryRead_under P closed_callsEnd _ _ _⟩ fun _ => ?_) (hreply _ _ _)
    exact Serve.Under.last (.pure _)
  · exact .after ⟨memoryWrite_under P closed_callsEnd _ _ _ _⟩ fun _ => Serve.Under.last (.pure _)

theorem serveFrom_callsEnd (window : ℕ) (w : World M) : (serveFrom P window w).CallsEnd := by
  intro got
  cases got with
  | none => trivial
  | some body =>
    refine (serve_last P _).callsEnd w _ fun stop w' => ?_
    cases stop with
    | none => trivial
    | some value => trivial

theorem announce_announcing (reason code info : ℕ) (w : World M) :
    (announce reason code info w).Announcing :=
  fun _ => trivial

end

/-! ## What the loop keeps -/

/-- The exchange belongs to connection `i`: what it took left that connection's queue in this
order. -/
structure Exchange.On (v : View σ ι) (e : Exchange ι) (s : σ) (i : ι) : Prop where
  took : ∀ r ∈ e.took, r.1 = i
  gave : ∀ r ∈ e.gave, r.1 = i
  modes : ∀ m ∈ e.modes, m.2.1 = i ∧ v.used s m.1 i m.2.2
  order : (e.took.flatMap (·.2)).Sublist (v.past s i)
  served : e.served.Sublist (e.took.flatMap (·.2))

/-- The connection the exchange took its first bytes from. -/
def Exchange.port (e : Exchange ι) : Option ι := e.took.head?.map (·.1)

/-- The window holds the last bytes that the exchange took, behind zeros at first. -/
def Exchange.Scanned (e : Exchange ι) (window : ℕ) : Prop :=
  ∃ bs : List UInt8, bs.length = 4 ∧ Bytes.getLe 4 bs = window ∧
    bs <:+ replicate 4 0 ++ e.took.flatMap (·.2)

/-- What a running program is for. -/
inductive Kind where
  | announcing | serving | resumed

def Kind.Allows : Kind → Prog W → Prop
  | .announcing, p => p.Announcing
  | .serving, p => p.CallsEnd
  | .resumed, p => p.Ending

theorem Kind.allows_announcing : Kind.announcing.Allows p ↔ p.Announcing := Iff.rfl

theorem Kind.allows_serving : Kind.serving.Allows p ↔ p.CallsEnd := Iff.rfl

theorem Kind.allows_resumed : Kind.resumed.Allows p ↔ p.Ending := Iff.rfl

/-- What the program waits for, and that what follows is allowed. -/
def Kind.At (e : Exchange ι) : Kind → Task W → Prop
  | .announcing, .writing _ k => ∀ ok, (k ok).Announcing
  | .serving, .reading _ got k =>
    (∀ got, (k got).CallsEnd) ∧ (e.served ++ got).Sublist (e.took.flatMap (·.2))
  | .serving, .writing _ k => ∀ ok, (k ok).CallsEnd
  | .serving, .calling _ k => ∀ w, (k w).Ending
  | .resumed, .writing _ k => ∀ ok, (k ok).Ending
  | .resumed, .calling _ k => ∀ w, (k w).Ending
  | _, _ => False

section

variable (v : View σ ι)

/-- The exchange so far belongs to the selected connection. -/
def Exchange.Held (e : Exchange ι) (s : σ) : Prop :=
  ∃ i, e.On v s i ∧ v.selected s = some i

/-- Between requests, or in the bytes that lead up to one. -/
def Exchange.Quiet (e : Exchange ι) (s : σ) : Prop :=
  e.took = [] ∧ e.modes = [] ∧ e.served = [] ∧ e.gave = [] ∨ e.Held v s

/-- No program runs. A session that was told to leave has nothing selected. -/
def Loop.Idle (l : Loop W ι) (s : σ) : Prop :=
  l.current.Quiet v s ∧
    match l.task with
    | .top | .scan => l.current.Scanned l.window
    | .left value => value ≠ 0 → v.selected s = none
    | .rebooted => True
    | _ => False

/-- A request has the connection it came from selected, until an exception session runs. -/
def Kind.Holds (l : Loop W ι) (s : σ) : Kind → Prop
  | .announcing => l.current.Scanned l.window ∧
    (l.current.took = [] ∧ l.current.modes = [] ∧ l.current.served = [] ∨ l.current.Held v s)
  | .serving => l.window = 0 ∧ l.current.took ≠ [] ∧
    ∃ i, l.current.On v s i ∧ v.selected s = some i ∧ l.slot = i
  | .resumed => l.window = 0 ∧ l.current.took ≠ [] ∧
    (l.current.nested ≠ 0 ∧ v.selected s = none) ∧ ∃ i, l.current.On v s i

/-- What went before: every exchange in the log belongs to one connection, and the transport
has come on from the state `s₀`. -/
structure Logged (s₀ : σ) (log : List (Exchange ι)) (s : σ) : Prop where
  on : ∀ e ∈ log, ∃ i, e.On v s i
  since : v.Follows s₀ s
  good : v.good s

/-- The invariant of a session that began in `s₀`; `faults` says whether exception sessions may
have run in it. -/
structure Loop.Inv (s₀ : σ) (faults : Prop) (r : Loop W ι × σ) : Prop where
  logged : Logged v s₀ r.1.log r.2
  task : r.1.Idle v r.2 ∨
    ∃ kind : Kind, (kind = .resumed → faults) ∧ kind.At r.1.current r.1.task ∧
      kind.Holds v r.1 r.2

end

variable {io : Io σ ι} {v : View σ ι} {e : Exchange ι} {l : Loop W ι} {s₀ s s' : σ} {i : ι}
  {faults : Prop}

theorem Exchange.On.follows (h : e.On v s i) (hs : v.Follows s s') : e.On v s' i :=
  ⟨h.took, h.gave, fun m hm => ⟨(h.modes m hm).1, hs.used _ i _ (h.modes m hm).2⟩,
    h.order.trans (hs.past i), h.served⟩

theorem Exchange.Held.keeps (h : e.Held v s) (hs : v.Keeps s s') : e.Held v s' := by
  obtain ⟨i, hon, hsel⟩ := h
  exact ⟨i, hon.follows hs.toFollows, hs.selected.trans hsel⟩

theorem Exchange.Quiet.keeps (h : e.Quiet v s) (hs : v.Keeps s s') : e.Quiet v s' :=
  h.imp_right fun h => h.keeps hs

variable {kind : Kind}

theorem Kind.Holds.keeps (h : kind.Holds v l s) (hs : v.Keeps s s') : kind.Holds v l s' := by
  cases kind with
  | announcing => exact ⟨h.1, h.2.imp_right fun h => h.keeps hs⟩
  | serving =>
    obtain ⟨hwindow, htook, i, hon, hsel, hslot⟩ := h
    exact ⟨hwindow, htook, i, hon.follows hs.toFollows, hs.selected.trans hsel, hslot⟩
  | resumed =>
    obtain ⟨hwindow, htook, ⟨hnested, hnone⟩, i, hon⟩ := h
    exact ⟨hwindow, htook, ⟨hnested, hs.selected.trans hnone⟩, i, hon.follows hs.toFollows⟩

theorem Kind.Holds.on (h : kind.Holds v l s) (hk : kind ≠ .announcing) :
    l.window = 0 ∧ ∃ i, l.current.On v s i := by
  cases kind with
  | announcing => exact absurd rfl hk
  | serving => exact ⟨h.1, h.2.2.imp fun i hi => hi.1⟩
  | resumed => exact ⟨h.1, h.2.2.2⟩

theorem Logged.follows {log : List (Exchange ι)} (h : Logged v s₀ log s) (hs : v.Follows s s') :
    Logged v s₀ log s' :=
  ⟨fun e he => (h.on e he).imp fun _ hi => hi.follows hs, h.since.trans hs, hs.good h.good⟩

theorem Logged.keeps {log : List (Exchange ι)} (h : Logged v s₀ log s) (hs : v.Keeps s s') :
    Logged v s₀ log s' :=
  h.follows hs.toFollows

theorem Exchange.scanned_zero : ({} : Exchange ι).Scanned 0 :=
  ⟨replicate 4 0, rfl, rfl, suffix_refl _⟩

theorem Exchange.Scanned.next {window : ℕ} (h : e.Scanned window) (i : ι) (b : UInt8) :
    ({ e with took := e.took ++ [(i, [b])] } : Exchange ι).Scanned
      (window / 2 ^ 8 + b.toNat * 2 ^ 24) := by
  obtain ⟨bs, hlen, rfl, before, hbefore⟩ := h
  obtain ⟨b₀, b₁, b₂, b₃, rfl⟩ := length_eq_four.mp hlen
  refine ⟨[b₁, b₂, b₃, b], rfl, ?_, before ++ [b₀], ?_⟩
  · have := b₀.toNat_lt
    simp only [Bytes.getLe, headD_cons, tail_cons]
    omega
  · rw [flatMap_append, flatMap_singleton, ← append_assoc, ← hbefore]
    simp

/-- A magic starts with a byte that is not zero, so all of it was taken. -/
theorem Exchange.Scanned.sublist {window : ℕ} (h : e.Scanned window)
    (hmagic : window % 2 ^ 24 = 0xAA55FF) :
    (Bytes.putLe 4 window).Sublist (e.took.flatMap (·.2)) := by
  obtain ⟨bs, hlen, rfl, hbs⟩ := h
  rw [Bytes.putLe_getLe hlen.ge, ← hlen, take_length]
  rcases suffix_or_suffix_of_suffix hbs (suffix_append _ _) with htaken | ⟨zeros, hzeros⟩
  · exact htaken.sublist
  · cases zeros with
    | nil => exact hzeros ▸ Sublist.refl _
    | cons b zeros =>
      obtain ⟨before, hbefore⟩ := hbs
      rw [← hzeros, ← append_assoc] at hbefore
      have hzero : b ∈ replicate 4 0 := append_cancel_right hbefore ▸ by simp
      rw [← hzeros, eq_of_mem_replicate hzero, cons_append, Bytes.getLe] at hmagic
      simp at hmagic
      omega

theorem Loop.close_inv (hio : io.Sticky v) {w : W} {task : Task W} (hlog : Logged v s₀ l.log s)
    (hon : l.window = 0 ∧ ∃ i, l.current.On v s i)
    (htask : task = .top ∨ ∃ value, task = .left value) :
    Inv v s₀ faults (l.close w task, io.end_ s) := by
  have hall := History.forall_concat hlog.on hon.2
  refine ⟨Logged.follows ⟨hall, hlog.since, hlog.good⟩ (hio.end_ s),
    .inl ⟨.inl ⟨rfl, rfl, rfl, rfl⟩, ?_⟩⟩
  rcases htask with rfl | ⟨value, rfl⟩
  · show Exchange.Scanned {} l.window
    rw [hon.1]
    exact Exchange.scanned_zero
  · exact fun _ => hio.end_selected s

/-- Only a request in service does more than write and end. -/
theorem Kind.eq_serving (hp : kind.Allows p) (hannounce : ¬p.Announcing) (hend : ¬p.Ending) :
    kind = .serving := by
  cases kind with
  | announcing => exact absurd hp hannounce
  | serving => rfl
  | resumed => exact absurd hp hend

theorem Kind.allows_writeFull {bs : List UInt8} {k : Bool → Prog W} :
    kind.Allows (.writeFull bs k) ↔ ∀ ok, kind.Allows (k ok) := by
  cases kind <;> rfl

theorem Kind.at_writing {left : List UInt8} {k : Bool → Prog W} (hk : ∀ ok, kind.Allows (k ok)) :
    kind.At e (.writing left k) := by
  cases kind <;> exact hk

theorem Loop.start_inv (hio : io.Sticky v) (hkind : kind = .resumed → faults) (p : Prog W)
    (hp : kind.Allows p) (hlog : Logged v s₀ l.log s) (h : kind.Holds v l s) :
    Inv v s₀ faults (start io p l s) := by
  induction p generalizing l s with
  | finish after =>
    cases after with
    | next w =>
      have hk : kind ≠ .announcing := by
        rintro rfl
        exact hp
      exact close_inv hio hlog (h.on hk) (.inl rfl)
    | leave value w =>
      have hk : kind ≠ .announcing := by
        rintro rfl
        exact hp
      exact close_inv hio hlog (h.on hk) (.inr ⟨value, rfl⟩)
    | reboot =>
      obtain rfl := Kind.eq_serving hp id id
      obtain ⟨-, -, i, hon, hsel, -⟩ := h
      exact ⟨hlog, .inl ⟨.inr ⟨i, hon, hsel⟩, trivial⟩⟩
    | announced w =>
      cases kind with
      | announcing =>
        refine ⟨hlog, .inl ⟨?_, h.1⟩⟩
        rcases h.2 with ⟨htook, hmodes, hserved⟩ | ⟨i, hon, hsel⟩
        · exact .inl ⟨htook, hmodes, hserved, rfl⟩
        · exact .inr ⟨i, { hon with gave := fun _ hr => (not_mem_nil hr).elim }, hsel⟩
      | serving => exact hp.elim
      | resumed => exact hp.elim
  | readFull n k ih =>
    obtain rfl := Kind.eq_serving hp id id
    rw [start]
    split
    · exact ih _ (hp _) hlog h
    · obtain ⟨-, i, hon⟩ := h.on (by simp)
      exact ⟨hlog, .inr ⟨.serving, hkind, ⟨hp, by simpa using hon.served⟩, h⟩⟩
  | writeFull bs k ih =>
    have hk := Kind.allows_writeFull.mp hp
    rw [start]
    split
    · exact ih true (hk true) hlog h
    · refine ⟨hlog, .inr ⟨kind, hkind, Kind.at_writing hk, ?_⟩⟩
      cases kind <;> exact h
  | poll k ih =>
    obtain rfl := Kind.eq_serving hp id id
    exact ih hp (hlog.keeps (hio.poll s)) (h.keeps (hio.poll s))
  | checksumsOff k ih =>
    obtain rfl := Kind.eq_serving hp id id
    have hkeeps := hio.checksumsOff l.slot s
    have hused := hio.checksumsOff_used l.slot s hlog.good
    refine ih _ (hp _) (hlog.keeps hkeeps) ?_
    obtain ⟨hwindow, htook, i, hon, hsel, hslot⟩ := h.keeps hkeeps
    refine ⟨hwindow, htook, i, ⟨hon.took, hon.gave, ?_, hon.order, hon.served⟩, hsel, hslot⟩
    exact History.forall_concat hon.modes ⟨hslot, hslot ▸ hused⟩
  | setChecksumsOff off k ih =>
    obtain rfl := Kind.eq_serving hp id id
    have hkeeps := hio.setChecksumsOff l.slot off s
    exact ih hp (hlog.keeps hkeeps) (h.keeps hkeeps)
  | call w k ih =>
    obtain rfl := Kind.eq_serving hp id id
    exact ⟨hlog, .inr ⟨.serving, hkind, hp, h⟩⟩

theorem Loop.serve_inv (hio : io.Sticky v) (hp : p.CallsEnd) (hlog : Logged v s₀ l.log s)
    (h : Kind.serving.Holds v l s) : Inv v s₀ faults (start io p l s) :=
  start_inv hio (by simp) p (Kind.allows_serving.mpr hp) hlog h

/-! ## One round -/

variable {P : Platform M}

/-- What is written after an exception session, which leaves nothing selected, goes to the
connection of the request. -/
def Loop.WritesHome (v : View σ ι) (io : Io σ ι) (l : Loop W ι) (s : σ) : Prop :=
  ∀ left k i, l.current.nested ≠ 0 → l.task = .writing left k → l.current.port = some i →
    v.selected s = none → (io.write left (io.ready s).2).1.2 ≠ 0 →
    (io.write left (io.ready s).2).1.1 = i

theorem Exchange.On.take {bs : List UInt8} (h : e.On v s i) (hs : v.Follows s s')
    (hbs : (v.past s i ++ bs).Sublist (v.past s' i)) :
    ({ e with took := e.took ++ [(i, bs)] } : Exchange ι).On v s' i := by
  refine ⟨?_, h.gave, (h.follows hs).modes, ?_, ?_⟩ <;>
    simp only [flatMap_append, flatMap_singleton]
  · exact History.forall_concat h.took rfl
  · exact (h.order.append_right bs).trans hbs
  · exact h.served.trans (sublist_append_left _ _)

theorem Exchange.On.give {bs : List UInt8} (h : e.On v s i) :
    ({ e with gave := e.gave ++ [(i, bs)] } : Exchange ι).On v s i := by
  exact ⟨h.took, History.forall_concat h.gave rfl, h.modes, h.order, h.served⟩

theorem Exchange.On.port (h : e.On v s i) (htook : e.took ≠ []) : e.port = some i := by
  obtain ⟨r, rest, hr⟩ := exists_cons_of_ne_nil htook
  rw [Exchange.port, hr]
  exact congrArg some (h.took r (hr ▸ mem_cons_self))

section

variable (hio : io.Sticky v)

include hio

theorem Loop.readRound_inv {need : ℕ} {got : List UInt8}
    {k : Option (List UInt8) → Prog W} (hk : ∀ got, (k got).CallsEnd)
    (hserved : (l.current.served ++ got).Sublist (l.current.took.flatMap (·.2)))
    (hlog : Logged v s₀ l.log s) (htask : l.task = .reading need got k)
    (h : Kind.serving.Holds v l s) : Inv v s₀ faults (l.readRound io need got k s) := by
  have hlog₁ := hlog.keeps (hio.ready s)
  have h₁ := h.keeps (hio.ready s)
  have hlog₂ := hlog₁.follows (hio.read need _)
  simp only [readRound]
  split
  · exact serve_inv hio (hk none) hlog₁ h₁
  split
  · rename_i hbs
    obtain ⟨hsel, hsame, horder⟩ := hio.read_some need _ hbs
    obtain ⟨hwindow, -, i, hon, hi, hslot⟩ := h₁
    obtain rfl := hsame i hi
    have hon₂ := hon.take (hio.read need _) horder
    have hserved₂ : (l.current.served ++ (got ++ (io.read need (io.ready s).2).1.2)).Sublist
        ((l.take (io.read need (io.ready s).2).1).current.took.flatMap (·.2)) := by
      rw [take, flatMap_append, flatMap_singleton, ← append_assoc]
      exact hserved.append_right _
    split
    · exact ⟨hlog₂, .inr ⟨.serving, by simp, ⟨hk, hserved₂⟩, hwindow, by simp [take], _, hon₂, hsel,
        hslot⟩⟩
    · exact serve_inv hio (hk _) hlog₂ ⟨hwindow, by simp [take, serving], _,
        { hon₂ with served := hserved₂ }, hsel, hslot⟩
  · rename_i hbs
    have h₂ := h₁.keeps ⟨hio.read need _, hio.read_none need _ (not_not.mp hbs)⟩
    have hlog₃ := hlog₂.keeps (hio.expired _)
    have h₃ := h₂.keeps (hio.expired _)
    split
    · exact serve_inv hio (hk none) hlog₃ h₃
    · refine ⟨hlog₃.keeps (hio.poll _), .inr ⟨.serving, by simp, ?_, h₃.keeps (hio.poll _)⟩⟩
      rw [htask]
      exact ⟨hk, hserved⟩

theorem Kind.Holds.give {left : List UInt8} {k : Bool → Prog W}
    (bs : List UInt8) (h : kind.Holds v l s) (htask : l.task = .writing left k)
    (hhome : kind = .resumed → l.WritesHome v io s)
    (hsent : (io.write left (io.ready s).2).1.2 ≠ 0) :
    kind.Holds v (l.give ((io.write left (io.ready s).2).1.1, bs))
      (io.write left (io.ready s).2).2 := by
  have h₁ := h.keeps (hio.ready s)
  have hto := fun i hi => hio.write_to left (io.ready s).2 i hi hsent
  have hwrite := hio.write left (io.ready s).2
  cases kind with
  | announcing =>
    refine ⟨h₁.1, ?_⟩
    rcases h₁.2 with hfree | ⟨i, hon, hsel⟩
    · exact .inl hfree
    · rw [hto i hsel]
      exact .inr ⟨i, (hon.follows hwrite.toFollows).give, hwrite.selected.trans hsel⟩
  | serving =>
    obtain ⟨hwindow, htook, i, hon, hsel, hslot⟩ := h₁
    rw [hto i hsel]
    exact ⟨hwindow, htook, i, (hon.follows hwrite.toFollows).give, hwrite.selected.trans hsel,
      hslot⟩
  | resumed =>
    obtain ⟨hwindow, htook, ⟨hnested, hnone⟩, i, hon⟩ := h₁
    rw [hhome rfl left k i hnested htask (hon.port htook) h.2.2.1.2 hsent]
    exact ⟨hwindow, htook, ⟨hnested, hwrite.selected.trans hnone⟩, i,
      (hon.follows hwrite.toFollows).give⟩

theorem Loop.writeRound_inv {left : List UInt8} {k : Bool → Prog W}
    (hkind : kind = .resumed → faults) (hk : ∀ ok, kind.Allows (k ok)) (hlog : Logged v s₀ l.log s)
    (htask : l.task = .writing left k) (h : kind.Holds v l s)
    (hhome : faults → l.WritesHome v io s) :
    Inv v s₀ faults (l.writeRound io left k s) := by
  have hlog₁ := hlog.keeps (hio.ready s)
  have h₁ := h.keeps (hio.ready s)
  have hlog₂ := hlog₁.keeps (hio.write left _)
  simp only [writeRound]
  split
  · exact start_inv hio hkind _ (hk false) hlog₁ h₁
  split
  · rename_i hsent
    have h₂ := h.give hio (left.take (io.write left (io.ready s).2).1.2) htask (hhome ∘ hkind) hsent
    split
    · exact ⟨hlog₂, .inr ⟨kind, hkind, Kind.at_writing hk, h₂⟩⟩
    · exact start_inv hio hkind _ (hk true) hlog₂ h₂
  · have h₂ := h₁.keeps (hio.write left _)
    have hlog₃ := hlog₂.keeps (hio.expired _)
    have h₃ := h₂.keeps (hio.expired _)
    split
    · exact start_inv hio hkind _ (hk false) hlog₃ h₃
    · refine ⟨hlog₃.keeps (hio.poll _), .inr ⟨kind, hkind, ?_, h₃.keeps (hio.poll _)⟩⟩
      rw [htask]
      exact Kind.at_writing hk

theorem Exchange.Quiet.read (n : ℕ) (h : e.Quiet v s) : e.Quiet v (io.read n s).2 := by
  by_cases hbs : (io.read n s).1.2 = []
  · exact h.keeps ⟨hio.read n s, hio.read_none n s hbs⟩
  · obtain ⟨hsel, hsame, -⟩ := hio.read_some n s hbs
    rcases h with hblank | ⟨i, hon, hi⟩
    · exact .inl hblank
    · exact .inr ⟨i, hon.follows (hio.read n s), hsame i hi ▸ hsel⟩

theorem Exchange.Quiet.take {n : ℕ} (h : e.Quiet v s) (hbs : (io.read n s).1.2 ≠ []) :
    ({ e with took := e.took ++ [(io.read n s).1] } : Exchange ι).On v (io.read n s).2
      (io.read n s).1.1 := by
  obtain ⟨-, hsame, horder⟩ := hio.read_some n s hbs
  rcases h with ⟨htook, hmodes, hserved, hgave⟩ | ⟨i, hon, hi⟩
  · refine ⟨?_, by simp [hgave], by simp [hmodes], ?_, by simp [hserved]⟩
    · simp [htook]
    · simpa [htook] using (sublist_append_right _ _).trans horder
  · obtain rfl := hsame i hi
    exact hon.take (hio.read n s) horder

variable {l : Loop (World M) ι}

section

variable (hlog : Logged v s₀ l.log s)
include hlog

theorem Loop.window_inv {window : ℕ} {scans : Prop} {_ : Decidable scans} {r : ι × List UInt8}
    (hon : ({ l.current with took := l.current.took ++ [r] } : Exchange ι).On v s r.1)
    (hsel : v.selected s = some r.1)
    (hscan : ({ l.current with took := l.current.took ++ [r] } : Exchange ι).Scanned window)
    (hmagic : ¬scans → window % 2 ^ 24 = 0xAA55FF) :
    let l' := { l with task := .top, begun := true, window := window }.take r
    Inv v s₀ faults (if scans then (l', s)
      else start io (serveFrom P window l'.world)
        ({ l' with window := 0, begun := false, slot := io.checksumState s }.serving
          (Bytes.putLe 4 window)) s) := by
  intro l'
  split
  · exact ⟨hlog, .inl ⟨.inr ⟨r.1, hon, hsel⟩, hscan⟩⟩
  · rename_i haccepted
    refine serve_inv hio (serveFrom_callsEnd P _ _) hlog ?_
    exact ⟨rfl, by simp [l', take, serving], r.1,
      { hon with served := hscan.sublist (hmagic haccepted) }, hsel, hio.checksumState s r.1 hsel⟩

theorem Loop.scanByte_inv (h : l.current.Quiet v s) (hscan : l.current.Scanned l.window) :
    Inv v s₀ faults (l.scanByte io P s) := by
  have hlog₁ := hlog.follows (hio.read 1 s)
  have hquiet := h.read hio 1
  have htake := h.take (n := 1) hio
  have hsome := hio.read_some 1 s
  unfold scanByte
  split
  · rename_i i b s₁ hread
    rw [hread] at hlog₁ hsome htake
    have hon := htake (by simp)
    have hsel := (hsome (by simp)).1
    exact window_inv hio hlog₁ hon hsel (hscan.next i b) not_not.mp
  · rename_i hread
    rw [hread] at hlog₁ hquiet
    exact ⟨hlog₁, .inl ⟨hquiet, hscan⟩⟩

theorem Loop.greet_inv {ready : Bool} (h : l.current.Quiet v s)
    (hscan : l.current.Scanned l.window) : Inv v s₀ faults (l.greet io P ready s) := by
  rw [greet]
  split
  · refine start_inv hio (by simp) _
      (Kind.allows_announcing.mpr (announce_announcing l.reason l.code l.info l.world)) hlog ?_
    exact ⟨hscan, h.imp_left fun h => ⟨h.1, h.2.1, h.2.2.1⟩⟩
  · exact scanByte_inv hio hlog h hscan

omit hlog in
theorem Loop.dropStale_quiet {l : Loop W ι} (ready : Bool)
    (hlog : Logged v s₀ l.log s) (h : l.current.Quiet v s) (hscan : l.current.Scanned l.window) :
    let r := l.dropStale io ready s
    Logged v s₀ r.1.log r.2 ∧ r.1.current.Quiet v r.2 ∧ r.1.current.Scanned r.1.window := by
  have hkeeps : v.Keeps s (if ready && l.begun then io.expired s else (false, s)).2 := by
    split
    · exact hio.expired s
    · exact .refl s
  rw [dropStale]
  split
  rename_i late s₁ hwaited
  rw [hwaited] at hkeeps
  split
  · exact ⟨(hlog.keeps hkeeps).follows (hio.end_ s₁), .inl ⟨rfl, rfl, rfl, rfl⟩,
      Exchange.scanned_zero⟩
  · exact ⟨hlog.keeps hkeeps, h.keeps hkeeps, hscan⟩

theorem Loop.iterate_inv (h : l.current.Quiet v s) (hscan : l.current.Scanned l.window) :
    Inv v s₀ faults (l.iterate io P s) := by
  have habort := hio.abort (io.poll s)
  have hlog₁ := (hlog.keeps (hio.poll s)).keeps habort
  have h₁ := (h.keeps (hio.poll s)).keeps habort
  rw [iterate]
  split
  · rename_i s₁ haborted
    rw [haborted] at hlog₁ h₁
    exact ⟨hlog₁, .inl ⟨h₁, fun hvalue => absurd rfl hvalue⟩⟩
  · rename_i s₁ haborted
    rw [haborted] at hlog₁ h₁
    have hready := hio.ready s₁
    obtain ⟨hlog₂, h₂, hscan₂⟩ :=
      dropStale_quiet hio (io.ready s₁).1 (hlog₁.keeps hready) (h₁.keeps hready) hscan
    exact greet_inv hio hlog₂ h₂ hscan₂

end

theorem Loop.step_inv (h : Inv v s₀ faults (l, s)) (hhome : faults → l.WritesHome v io s) :
    Inv v s₀ faults (l.step io P s) := by
  obtain ⟨hlog, htask⟩ := h
  rw [step]
  rcases htask with hidle | ⟨kind, hkind, hat, hholds⟩
  · have hwindow := hidle.2
    cases hl : l.task with
    | top => exact iterate_inv hio hlog hidle.1 (by simpa only [hl] using hwindow)
    | scan => exact scanByte_inv hio hlog hidle.1 (by simpa only [hl] using hwindow)
    | left value => exact ⟨hlog, .inl hidle⟩
    | rebooted => exact ⟨hlog, .inl hidle⟩
    | _ => exact absurd hwindow (by simp [hl])
  · cases hl : l.task with
    | reading need got k =>
      cases kind with
      | serving =>
        simp only [hl, Kind.At] at hat
        exact readRound_inv hio hat.1 hat.2 hlog hl hholds
      | _ => simp [hl, Kind.At] at hat
    | writing left k =>
      refine writeRound_inv hio hkind ?_ hlog hl hholds hhome
      cases kind <;> simpa [hl, Kind.At, Kind.Allows] using hat
    | calling w k =>
      cases kind with
      | announcing => simp [hl, Kind.At] at hat
      | serving =>
        have hend : ∀ w, (k w).Ending := by simpa [hl, Kind.At] using hat
        exact serve_inv hio (hend w).callsEnd hlog hholds
      | resumed =>
        have hend : ∀ w, (k w).Ending := by simpa [hl, Kind.At] using hat
        exact start_inv hio hkind _ (Kind.allows_resumed.mpr (hend w)) hlog hholds
    | _ => cases kind <;> simp [hl, Kind.At] at hat

end

/-! ## Whole sessions -/

theorem Loop.inv_of_fresh {l : Loop W ι} (hgood : v.good s) (hlog : l.log = [])
    (htask : l.task = .top) (hcurrent : l.current = {}) (hwindow : l.window = 0) :
    Inv v s faults (l, s) := by
  refine ⟨⟨by simp [hlog], (View.Keeps.refl s).toFollows, hgood⟩, .inl ⟨?_, ?_⟩⟩ <;> dsimp only
  · rw [hcurrent]
    exact .inl ⟨rfl, rfl, rfl, rfl⟩
  · rw [htask, hcurrent, hwindow]
    exact Exchange.scanned_zero

variable {l : Loop (World M) ι}

theorem Loop.run_inv (hio : io.Sticky v) (steps : ℕ) (h : Inv v s₀ False (l, s)) :
    Inv v s₀ False (run io P steps l s) := by
  induction steps generalizing l s with
  | zero => exact h
  | succ steps ih => exact ih (step_inv hio h False.elim)

/-- While uploaded code runs, a request is being served of which only the reply is left. -/
theorem Loop.Inv.calling {l : Loop W ι} {w : W} {k : W → Prog W} (h : Inv v s₀ faults (l, s))
    (htask : l.task = .calling w k) :
    l.window = 0 ∧ l.current.took ≠ [] ∧ (∃ i, l.current.On v s i) ∧ ∀ w, (k w).Ending := by
  rcases h.task with ⟨-, hidle⟩ | ⟨kind, -, hat, hholds⟩
  · exact absurd hidle (by simp [htask])
  · cases kind with
    | announcing => exact absurd hat (by simp [htask, Kind.At])
    | serving =>
      exact ⟨hholds.1, hholds.2.1, (hholds.on (by simp)).2, by simpa [htask, Kind.At] using hat⟩
    | resumed =>
      exact ⟨hholds.1, hholds.2.1, (hholds.on (by simp)).2, by simpa [htask, Kind.At] using hat⟩

/-- A session that was told to leave has given the selection up. -/
theorem Loop.Inv.left {l : Loop W ι} {value : ℕ} (h : Inv v s₀ faults (l, s))
    (htask : l.task = .left value) (hvalue : value ≠ 0) : v.selected s = none := by
  rcases h.task with ⟨-, hidle⟩ | ⟨kind, -, hat, -⟩
  · simp only [htask] at hidle
    exact hidle hvalue
  · exact absurd hat (by cases kind <;> simp [htask, Kind.At])

/-- An exception session ends a request's hold on the selection; its own exchanges are like any
others. -/
theorem Loop.fault_inv (hio : io.Sticky v) {code info steps : ℕ} {r : Loop (World M) ι × σ}
    (h : Inv v s₀ True (l, s)) (hr : l.fault io P code info steps s = some r) :
    Inv v s₀ True r := by
  rw [fault] at hr
  split at hr
  · rename_i w k htask
    obtain ⟨hwindow, htook, ⟨i, hon⟩, hend⟩ := h.calling htask
    have hinner := run_inv (P := P) hio steps (inv_of_fresh
      (l := { reason := startException, code := code, info := info, slot := l.slot, world := w })
      h.logged.good rfl rfl rfl rfl)
    dsimp only at hr
    split at hr
    · rename_i value hleft
      split at hr
      · rename_i hvalue
        obtain rfl := Option.some.inj hr
        have hnone := hinner.left hleft (by rw [hvalue]; decide)
        have hsince := hinner.logged.since
        have hlogged := h.logged.follows hsince
        refine ⟨⟨?_, hlogged.since, hlogged.good⟩, .inr ⟨.resumed, fun _ => trivial, hend, ?_⟩⟩
        · exact forall_mem_append.mpr ⟨hlogged.on, hinner.logged.on⟩
        · have hon' := hon.follows hsince
          exact ⟨hwindow, htook, ⟨Nat.succ_ne_zero _, hnone⟩, i, { hon' with }⟩
      · cases hr
    · cases hr
  · cases hr

/-- Whether all steps among the moves begin in a state that meets the condition. -/
def Loop.meets (io : Io σ ι) (P : Platform M) (cond : Loop (World M) ι → σ → Bool) :
    List Move → Loop (World M) ι → σ → Bool
  | [], _, _ => true
  | .step :: rest, l, s => cond l s && Loop.meets io P cond rest (l.step io P s).1 (l.step io P s).2
  | .fault code info steps :: rest, l, s =>
    match l.fault io P code info steps s with
    | none => true
    | some r => Loop.meets io P cond rest r.1 r.2

theorem Loop.moves_inv (hio : io.Sticky v) {cond : Loop (World M) ι → σ → Bool}
    (hcond : ∀ l s, cond l s = true → l.WritesHome v io s) {moves : List Move}
    {r : Loop (World M) ι × σ} (h : Inv v s₀ True (l, s))
    (hmeets : meets io P cond moves l s = true) (hr : Loop.moves io P moves l s = some r) :
    Inv v s₀ True r := by
  induction moves generalizing l s with
  | nil =>
    obtain rfl := Option.some.inj hr
    exact h
  | cons m moves ih =>
    cases m with
    | step =>
      rw [meets, Bool.and_eq_true] at hmeets
      exact ih (step_inv hio h fun _ => hcond l s hmeets.1) hmeets.2 hr
    | fault code info steps =>
      obtain ⟨r₁, hr₁, hrest⟩ := Option.bind_eq_some_iff.mp hr
      replace hr₁ : l.fault io P code info steps s = some r₁ := hr₁
      rw [meets, hr₁] at hmeets
      exact ih (fault_inv hio h hr₁) hmeets hrest

theorem Loop.Inv.on {r : Loop W ι × σ} (h : Inv v s₀ faults r) {e : Exchange ι}
    (he : e ∈ r.1.log ∨ e = r.1.current ∧ e.took ≠ []) : ∃ i, e.On v r.2 i := by
  rcases he with he | ⟨rfl, htook⟩
  · exact h.logged.on e he
  · rcases h.task with ⟨hblank | ⟨i, hon, -⟩, -⟩ | ⟨kind, -, -, hholds⟩
    · exact absurd hblank.1 htook
    · exact ⟨i, hon⟩
    · cases kind with
      | announcing =>
        rcases hholds.2 with hfree | ⟨i, hon, -⟩
        · exact absurd hfree.1 htook
        · exact ⟨i, hon⟩
      | serving => exact (hholds.on (by simp)).2
      | resumed => exact (hholds.on (by simp)).2

end Q1n1.Proxy
