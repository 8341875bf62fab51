import Q1n1.Model.Nvme.Writable

/-! # What confines a command, and calls that keep to it

The invariant of the controller object, and the calls that keep it without placing a Write. -/

namespace Q1n1.Nvme

open Bytes Cut

def Command.lba (c : Command) : ℕ := c.cdw.getD 0 0 + c.cdw.getD 1 0 * 2 ^ 32

def Command.blocks (c : Command) : ℕ := c.cdw.getD 2 0 % 2 ^ 16 + 1

/-- The pages that the PRPs of an entry name, for a transfer of so many pages. -/
def Placed.prps (p : Placed) (pages : ℕ) : List ℕ :=
  p.command.prp1 ::
    if pages = 1 then []
    else if pages = 2 then [p.command.prp2]
    else (List.range (pages - 1)).map fun i => getLe 8 (p.memory.load (p.command.prp2 + 8 * i) 8)

/-- A Write inside the enabled ranges, with FUA and nothing else set, whose PRPs name pages of
the bounce buffer from its start on, as many as its length takes. -/
structure WriteConfined (l : Layout) (w : ℕ) (p : Placed) : Prop where
  inside : ∃ range ∈ p.writeRanges, range.1 ≤ p.command.lba ∧
    p.command.lba + p.command.blocks ≤ range.2
  plain : p.command.nsid = 1 ∧ p.command.cdw.drop 2 = [p.command.blocks - 1 + 2 ^ 30, 0, 0, 0]
  bounce : ∃ lbaBytes pages, p.lbaBytes = some lbaBytes ∧
    p.command.blocks * lbaBytes ≤ pages * pageBytes ∧
    pages * pageBytes < p.command.blocks * lbaBytes + pageBytes ∧
    pages * pageBytes ≤ l.dataBytes ∧
    p.prps pages = (List.range pages).map fun i => w + l.data + pageBytes * i
  single : ∀ lbaBytes, p.lbaBytes = some lbaBytes → p.command.blocks * lbaBytes ≤ pageBytes →
    p.command.prp2 = 0

/-- What may be put into the queues: a Read, a Flush or a confined Write, and for the
controller the opcodes on the list. -/
def Confined (l : Layout) (w : ℕ) (p : Placed) : Prop :=
  match p.queue with
  | .admin => (p.command.opcode : Int) ∈ adminAllowed
  | .io => p.command.opcode = 0x02 ∨ p.command.opcode = 0x00 ∨
      p.command.opcode = 0x01 ∧ WriteConfined l w p

/-! ## The invariant -/

/-- What the layouts of the source have in common. -/
structure Layout.Usable (l : Layout) : Prop where
  chunk_pow : ∃ k, l.chunk = 2 ^ k
  chunk_page : pageBytes ∣ l.chunk
  chunk_le : l.chunk ≤ l.dataBytes
  pages_le : l.chunk ≤ 512 * pageBytes

theorem m3Layout_usable : m3Layout.Usable := ⟨⟨18, rfl⟩, by decide, by decide, by decide⟩

theorem adoptLayout_usable : adoptLayout.Usable := ⟨⟨17, rfl⟩, by decide, by decide, by decide⟩

/-- The I/O submission queue has its page of the window. -/
structure Queue.Located (w : ℕ) (q : Queue) : Prop where
  sq : q.sq = w + Layout.iosq
  entries : q.entries = ioEntries
  tail : q.tail < ioEntries

structure Inv (l : Layout) (w : ℕ) (s : Host) : Prop where
  layout : s.layout = l
  window : s.window = w
  maxTransfer : ∀ m, s.maxTransfer = some m → m ≤ l.chunk ∧ ∃ k, m = 2 ^ k
  lbaBytes : ∀ b, s.lbaBytes = some b → ∃ j, b = 2 ^ j
  io : ∀ q, s.io = some q → q.Located w
  placed : ∀ p ∈ s.placed, Confined l w p

section

variable {l : Layout} {w : ℕ} {α β : Type}

/-- The invariant, with the sizes of blocks and transfers as they are. -/
structure Steady (l : Layout) (w : ℕ) (b m : Option ℕ) (s : Host) : Prop where
  inv : Inv l w s
  lbaBytes : s.lbaBytes = b
  maxTransfer : s.maxTransfer = m

def Keep (l : Layout) (w : ℕ) (s t : Host) : Prop := Inv l w s → Inv l w t

/-- A call that keeps the invariant and the sizes, wherever it stops. -/
def Quiet (l : Layout) (w : ℕ) (x : Call α) : Prop :=
  ∀ b m, Does (Keep l w) (Steady l w b m) x fun _ => Steady l w b m

/-! ## Rules -/

namespace Quiet

theorem pure (a : α) : Quiet l w (Pure.pure a : Call α) := fun _ _ => does_skip

theorem raise : Quiet l w (raise : Call α) := fun _ _ => does_stop

theorem bind {x : Call α} {f : α → Call β} (hx : Quiet l w x) (hf : ∀ a, Quiet l w (f a)) :
    Quiet l w (x >>= f) :=
  fun b m => (hx b m).bind fun a => hf a b m

theorem ite {c : Prop} [Decidable c] {x y : Call α} (hx : Quiet l w x) (hy : Quiet l w y) :
    Quiet l w (if c then x else y) := by
  split
  · exact hx
  · exact hy

theorem require (condition : Bool) : Quiet l w (require condition) := ite (.pure ()) .raise

theorem when (condition : Bool) {x : Call Unit} (hx : Quiet l w x) : Quiet l w (when condition x) :=
  ite hx (.pure ())

theorem modify {f : Host → Host} (h : ∀ s b m, Steady l w b m s → Steady l w b m (f s)) :
    Quiet l w (Cut.modify f) := by
  intro b m
  refine does_modify ?_ fun s hs => h s b m hs
  exact fun s hs _ => (h s b m hs).inv

theorem get_bind {f : Host → Call β} (h : ∀ s, Inv l w s → Quiet l w (f s)) :
    Quiet l w (Cut.get >>= f) := by
  intro b m
  refine does_get_bind fun s hs => ((h s hs.inv) b m).pre ?_
  exact fun t ht => ht ▸ hs

theorem field_bind {g : Host → Option α} {f : α → Call β}
    (h : ∀ a, (∃ s, Inv l w s ∧ g s = some a) → Quiet l w (f a)) : Quiet l w (field g >>= f) := by
  intro b m
  refine Does.bind (Q := fun a s => Steady l w b m s ∧ ∃ s, Inv l w s ∧ g s = some a) ?_ ?_
  · refine does_get_bind fun s hs => ?_
    cases hg : g s with
    | none => exact does_stop
    | some a => exact does_pure fun t ht => ⟨ht ▸ hs, s, hs.inv, hg⟩
  · intro a
    refine does_of_forall fun s hs => ((h a hs.2) b m).pre ?_
    exact fun t ht => ht ▸ hs.1

theorem field {g : Host → Option α} : Quiet l w (field g) := get_bind fun s _ => by
    cases g s with
    | none => exact .raise
    | some a => exact .pure a

end Quiet

/-! ## Accesses -/

variable {m b : Option ℕ}

theorem Steady.with_answers {s : Host} (h : Steady l w b m s) (answers : List Answer) :
    Steady l w b m { s with answers := answers } :=
  { h with inv := { h.inv with } }

theorem Steady.with_memory {s : Host} (h : Steady l w b m s) (memory : Memory) :
    Steady l w b m { s with memory := memory } :=
  { h with inv := { h.inv with } }

theorem Quiet.ask : Quiet l w ask := by
  refine .get_bind fun s _ => ?_
  cases s.answers with
  | nil => exact .raise
  | cons a rest => exact (Quiet.modify fun s _ _ hs => hs.with_answers rest).bind fun _ => .pure a

theorem Quiet.ask_bind {f : Answer → Call β} (hv : ∀ v, Quiet l w (f (.value v)))
    (hb : ∀ bs, Quiet l w (f (.bytes bs))) (hr : ∀ n, Quiet l w (f (.raises n))) :
    Quiet l w (Nvme.ask >>= f) := by
  refine Quiet.ask.bind fun a => ?_
  cases a with
  | value v => exact hv v
  | bytes bs => exact hb bs
  | raises n => exact hr n

variable (address : ℕ)

namespace Quiet

theorem r32 : Quiet l w (r32 address) :=
  .ask_bind (fun _ => .pure _) (fun _ => .raise) fun _ => .raise

theorem r64 : Quiet l w (r64 address) :=
  .ask_bind (fun _ => .pure _) (fun _ => .raise) fun _ => .raise

theorem w32 (value : ℕ) : Quiet l w (w32 address value) :=
  .ask_bind (fun _ => .pure _) (fun _ => .pure _) fun _ => .raise

theorem read (n : ℕ) : Quiet l w (read address n) :=
  .ask_bind (fun _ => .raise) (fun bs => .ite (.pure bs) .raise) fun _ => .raise

theorem write (data : List UInt8) : Quiet l w (write address data) :=
  .ask_bind (fun _ => .modify fun _ _ _ hs => hs.with_memory _)
    (fun _ => .modify fun _ _ _ hs => hs.with_memory _)
    fun _ => (modify fun _ _ _ hs => hs.with_memory _).bind fun _ => .raise

theorem civac (n : ℕ) : Quiet l w (civac address n) := w32 address 0

theorem zero (n : ℕ) : Quiet l w (zero address n) := (write _ _).bind fun _ => .civac _ _

theorem late : Quiet l w late := .ask_bind (fun _ => .pure _) (fun _ => .pure _) fun _ => .pure _

theorem reg (off : ℕ) : Quiet l w (reg off) := .get_bind fun _ _ => .r32 _

theorem fetch (off n : ℕ) : Quiet l w (fetch off n) :=
  .get_bind fun _ _ => (civac _ _).bind fun _ => .get_bind fun _ _ => .read _ _

end Quiet

/-! ## Queues -/

theorem Steady.with_queue {s : Host} (h : Steady l w b m s) {id : QueueId} {q : Queue}
    (hq : id = .io → q.Located w) : Steady l w b m (s.setQueue q id) := by
  cases id with
  | admin => exact { h with inv := { h.inv with } }
  | io =>
    refine { h with inv := { h.inv with io := ?_ } }
    intro q' hq'
    rw [← Option.some.inj hq']
    exact hq rfl

theorem Quiet.setQueue {id : QueueId} {q : Queue} (hq : id = .io → q.Located w) :
    Quiet l w (setQueue id q) :=
  .modify fun _ _ _ hs => hs.with_queue hq

theorem located_of_queue {id : QueueId} {q : Queue} (h : ∃ s, Inv l w s ∧ s.queue id = some q) :
    id = .io → q.Located w := by
  rintro rfl
  obtain ⟨s, hs, hq⟩ := h
  exact hs.io q hq

variable (id : QueueId)

namespace Quiet

theorem ring : Quiet l w (ring id) := .field_bind fun _ _ => .w32 _ _

theorem reread (reads : ℕ) (entry : List UInt8) : Quiet l w (reread address reads entry) := by
  induction reads generalizing entry with
  | zero => exact .raise
  | succ reads ih =>
    refine (civac _ _).bind fun _ => (read _ _).bind fun again => ?_
    exact .ite (.pure entry) (ih again)

theorem headEntry (q : Queue) : Quiet l w (headEntry q) :=
  (civac _ _).bind fun _ => (read _ _).bind fun entry =>
    .ite (.reread _ _ _) (.pure entry)

theorem reapRound : Quiet l w (reapRound id) := by
  refine .field_bind fun q hq => (headEntry q).bind fun entry => .ite ?_ ?_
  · refine late.bind fun timeout => .ite ?_ (.pure none)
    exact (reg _).bind fun _ => .raise
  · refine bind (.setQueue fun hio => ?_) fun _ => (w32 _ _).bind fun _ => .pure _
    have hlocated := located_of_queue hq hio
    exact { hlocated with }

theorem reapFrom (cids : List ℕ) (rounds : ℕ) (done : List Completion) :
    Quiet l w (reapFrom id cids rounds done) := by
  induction rounds generalizing done with
  | zero => exact .raise
  | succ rounds ih =>
    refine .ite (.pure done) ((reapRound id).bind fun c => ?_)
    cases c with
    | none => exact ih done
    | some c => exact ih (c :: done)

theorem reap (cids : List ℕ) : Quiet l w (reap id cids) :=
  .get_bind fun _ _ => (reapFrom id cids _ []).bind fun _ =>
    (require _).bind fun _ => .pure _

theorem waitFor (rounds : ℕ) (condition : ℕ → Bool) : Quiet l w (waitFor rounds condition) := by
  induction rounds with
  | zero =>
    refine (reg _).bind fun csts => .ite (.pure csts) (late.bind fun _ => .ite ?_ ?_)
    · exact (reg _).bind fun _ => .raise
    · exact .raise
  | succ rounds ih =>
    refine (reg _).bind fun csts => .ite (.pure csts) (late.bind fun _ => .ite ?_ ih)
    exact (reg _).bind fun _ => .raise

theorem wait (condition : ℕ → Bool) : Quiet l w (wait condition) :=
  .get_bind fun _ _ => .waitFor _ _

theorem normalShutdown (bar cc : ℕ) : Quiet l w (normalShutdown bar cc) :=
  (w32 _ _).bind fun _ => (wait _).bind fun _ => .pure ()

theorem disable (bar : ℕ) : Quiet l w (disable bar) :=
  (w32 _ _).bind fun _ => (wait _).bind fun _ => .pure ()

theorem shutdown : Quiet l w shutdown := .get_bind fun _ _ => (reg _).bind fun _ =>
    .when _ ((normalShutdown _ _).bind fun _ => .disable _)

theorem takeover : Quiet l w takeover := by
  refine .get_bind fun s _ => (r64 _).bind fun cap => (reg _).bind fun _ => ?_
  refine (reg _).bind fun _ => (reg _).bind fun _ => (reg _).bind fun _ => ?_
  refine (r64 _).bind fun _ => (r64 _).bind fun _ => bind ?_ fun _ => ?_
  · exact .modify fun t b m ht => { ht with inv := { ht.inv with } }
  refine (require _).bind fun _ => (reg _).bind fun _ => (reg _).bind fun _ => ?_
  refine bind (.when _ ((when _ (.normalShutdown _ _)).bind fun _ => .disable _)) ?_
  refine fun _ => (zero _ _).bind fun _ => (setQueue (by simp)).bind fun _ => ?_
  refine (w32 _ _).bind fun _ => (w32 _ _).bind fun _ => (w32 _ _).bind fun _ => ?_
  refine (w32 _ _).bind fun _ => (w32 _ _).bind fun _ => (w32 _ _).bind fun _ => ?_
  exact (wait _).bind fun _ => .require _

end Quiet

end

end Q1n1.Nvme
