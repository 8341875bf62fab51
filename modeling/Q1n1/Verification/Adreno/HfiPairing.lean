import Q1n1.Verification.Adreno.HfiQueues

/-! # Which message an acknowledgement answers

A call takes the acknowledgement by the sequence number and the id it returns. These name the
call's own message as long as no older message that may still be answered has both. -/

namespace Q1n1.Adreno.Hfi

open MessageRing Cut List World

/-! ## Steps of a call -/

/-- A step keeps the queues sound, and takes nothing back. -/
structure Moves (s t : World) : Prop where
  sound : Sound s → Sound t
  posted : s.posted <+: t.posted
  taken : s.taken <+: t.taken

theorem gmuAct_frame (w : World) (a : GmuAct) :
    (w.gmuAct a).hfiSeq = w.hfiSeq ∧ (w.gmuAct a).queued = w.queued ∧
      (w.gmuAct a).taken = w.taken ∧ (w.gmuAct a).rsp.read = w.rsp.read ∧
      w.posted <+: (w.gmuAct a).posted := by
  cases a with
  | read =>
    simp only [World.gmuAct, gmuRead]
    split <;> simp
  | answer message words =>
    simp only [World.gmuAct]
    split <;> simp [post]
  | report words =>
    simp only [World.gmuAct]
    split <;> simp [post]

variable {w : World}

theorem gmuAct_cmd (h : w.cmd.read = w.cmd.write) (a : GmuAct) : (w.gmuAct a).cmd = w.cmd := by
  cases a with
  | read => simp [World.gmuAct, gmuRead, h]
  | answer message words =>
    simp only [World.gmuAct]
    split <;> rfl
  | report words =>
    simp only [World.gmuAct]
    split <;> rfl

/-- What holds whatever the GMU does. -/
structure Quiet (P : World → Prop) : Prop where
  turns : ∀ w turns, P w → P { w with turns := turns }
  gmuAct : ∀ w a, P w → P (w.gmuAct a)

theorem Sound.withTurns (h : Sound w) (turns : List Turn) : Sound { w with turns := turns } :=
  { h with }

theorem quiet_sound : Quiet Sound := ⟨fun _ turns h => h.withTurns turns, fun _ a h => h.gmuAct a⟩

theorem Quiet.gmu {P : World → Prop} (hP : Quiet P) (acts : List GmuAct) (h : P w) :
    P (acts.foldl World.gmuAct w) := by
  induction acts generalizing w with
  | nil => exact h
  | cons a acts ih => exact ih (hP.gmuAct w a h)

theorem foldl_gmuAct_frame (acts : List GmuAct) (w : World) :
    w.posted <+: (acts.foldl World.gmuAct w).posted ∧
      (acts.foldl World.gmuAct w).taken = w.taken := by
  induction acts generalizing w with
  | nil => simp
  | cons a acts ih =>
    obtain ⟨-, -, htaken, -, hposted⟩ := gmuAct_frame w a
    obtain ⟨hposted', htaken'⟩ := ih (w.gmuAct a)
    exact ⟨hposted.trans hposted', htaken'.trans htaken⟩

variable {P : World → Prop}

theorem does_turn (hP : Quiet P) : Does Moves P turn fun _ => P := by
  apply does_get_bind
  intro w hw
  cases hturns : w.turns with
  | nil => exact does_stop
  | cons t turns =>
    refine Does.bind (Q := fun _ => P) (does_modify ?_ ?_) ?_
    · intro s hs
      subst hs
      obtain ⟨hposted, htaken⟩ := foldl_gmuAct_frame t.gmu { s with turns := turns }
      refine ⟨fun h => (h.withTurns turns).gmu t.gmu, hposted, [], ?_⟩
      rw [append_nil, htaken]
    · intro s hs
      subst hs
      exact hP.gmu t.gmu (hP.turns s turns hw)
    · intro _
      exact does_skip

theorem does_raise {α : Type} {Q : α → World → Prop} {reason : Stop} :
    Does Moves P (raise reason) Q := by
  refine Does.bind (Q := fun _ _ => True) (does_modify ?_ fun _ _ => trivial) fun _ => does_stop
  intro s _
  exact ⟨fun h => { h with }, prefix_refl _, prefix_refl _⟩

/-- The command queue is `q`, and all in it is read. -/
def Idle (q : Queue) (w : World) : Prop := w.cmd = q ∧ q.read = q.write

theorem Quiet.idle (hP : Quiet P) (q : Queue) : Quiet fun w => P w ∧ Idle q w := by
  constructor
  · intro w turns h
    exact ⟨hP.turns w turns h.1, h.2⟩
  · intro w a h
    refine ⟨hP.gmuAct w a h.1, ?_, h.2.2⟩
    rw [gmuAct_cmd (by rw [h.2.1]; exact h.2.2)]
    exact h.2.1

theorem does_drainLoop (hP : Quiet P) (n : ℕ) (first : Bool) :
    Does Moves P (drainLoop n first) fun q w => P w ∧ Idle q w := by
  induction n generalizing first with
  | zero => exact does_raise
  | succ n ih =>
    refine (does_turn hP).bind fun t => ?_
    refine Does.bind (Q := fun q w => P w ∧ w.cmd = q) (does_gets fun w h => ⟨h, rfl⟩) ?_
    intro q
    apply does_ite
    · exact fun _ => does_raise
    · intro _
      apply does_ite
      · intro heq
        exact does_pure fun w h => ⟨h.1, h.2, heq⟩
      · intro _
        apply does_ite
        · exact fun _ => does_raise
        · exact fun _ => (ih false).pre fun w h => h.1

theorem does_cmdQueueDrained (hP : Quiet P) :
    Does Moves P cmdQueueDrained fun q w => P w ∧ Idle q w :=
  does_drainLoop hP 50 true

theorem does_pollMsgq (hP : Quiet P) (n : ℕ) (first : Bool) :
    Does Moves P (pollMsgq n first) fun _ => P := by
  induction n generalizing first with
  | zero => exact does_raise
  | succ n ih =>
    refine (does_turn hP).bind fun t => ?_
    apply does_ite
    · exact fun _ => does_skip
    · intro _
      apply does_ite
      · exact fun _ => does_raise
      · exact fun _ => ih false

/-! ## Taking responses -/

/-- This is what is queued, and `base` responses were taken before the call. -/
structure Waiting (queued : List (List ℕ)) (base : ℕ) (w : World) : Prop where
  sound : Sound w
  queued_eq : w.queued = queued
  base_le : base ≤ w.taken.length

theorem quiet_waiting (queued : List (List ℕ)) (base : ℕ) : Quiet (Waiting queued base) := by
  constructor
  · intro w turns h
    exact ⟨h.sound.withTurns turns, h.queued_eq, h.base_le⟩
  · intro w a h
    obtain ⟨-, hqueued, htaken, -, -⟩ := gmuAct_frame w a
    exact ⟨h.sound.gmuAct a, hqueued.trans h.queued_eq, by rw [htaken]; exact h.base_le⟩

/-- `words` is the next response, at index `read`. -/
def Next (words : List ℕ) (read : ℕ) (w : World) : Prop :=
  w.rsp.read = read ∧ ∃ ms, w.posted.map Reply.words = w.taken ++ words :: ms

theorem Quiet.next (hP : Quiet P) (words : List ℕ) (read : ℕ) :
    Quiet fun w => P w ∧ Next words read w := by
  constructor
  · intro w turns h
    exact ⟨hP.turns w turns h.1, h.2⟩
  · intro w a h
    obtain ⟨hw, hread, ms, hms⟩ := h
    obtain ⟨-, -, htaken, hread', more, hmore⟩ := gmuAct_frame w a
    refine ⟨hP.gmuAct w a hw, hread'.trans hread, ms ++ more.map Reply.words, ?_⟩
    rw [← hmore, htaken, map_append, hms]
    simp

variable {queued : List (List ℕ)} {base : ℕ} {words : List ℕ} {read : ℕ}

theorem moves_take (hnext : Next words read w) :
    Moves w (w.take (align4 w.rsp.size ((read + words.length) % w.rsp.size)) words) := by
  obtain ⟨hread, ms, hms⟩ := hnext
  refine ⟨?_, prefix_refl _, prefix_append _ _⟩
  intro h
  have hpop := (h.rsp.head hms).2.2
  rw [hread] at hpop
  exact ⟨h.cmd, hpop, h.ordered, h.answered, h.reported⟩

/-- What a call returns is the response taken last, after the `base` responses before the call,
and acknowledges its message. -/
structure Accepted (base seq id : ℕ) (words : List ℕ) (w : World) : Prop where
  base_lt : base < w.taken.length
  last : w.taken.getLast? = some words
  not_error : words.headD 0 &&& 0xff ≠ msgError
  ack : isAck seq id words

theorem does_readResponses (seq id n : ℕ) :
    Does Moves (Waiting queued base) (readResponses seq id n) fun result w =>
      Waiting queued base w ∧ ∀ words ∈ result, Accepted base seq id words w := by
  induction n with
  | zero => exact does_raise
  | succ n ih =>
    have hquiet := quiet_waiting queued base
    refine (does_turn hquiet).bind fun _ => ?_
    refine Does.bind (Q := fun q w => Waiting queued base w ∧ w.rsp = q)
      (does_gets fun w h => ⟨h, rfl⟩) ?_
    intro q
    apply does_ite
    · exact fun _ => does_pure fun w h => ⟨h.1, by simp⟩
    intro hne
    apply does_ite
    · exact fun _ => does_raise
    intro hgood
    have hsize : q.size = queueDwords := by
      by_contra hsize
      exact hgood (.inl hsize)
    -- The response at the head is fixed here, before the page is read.
    apply does_of_forall
    intro w hw
    obtain ⟨hwait, rfl⟩ := hw
    obtain ⟨words, ms, hput⟩ := hwait.sound.rsp.exists_head hne
    have hnext := hquiet.next words w.rsp.read
    refine Does.pre (P := fun s => Waiting queued base s ∧ Next words w.rsp.read s) ?_ ?_
    · refine (does_turn hnext).bind fun _ => ?_
      refine Does.bind (Q := fun page s => (Waiting queued base s ∧ Next words w.rsp.read s) ∧
          dwordsOf (page w.rsp.read) = words.length ∧
          Ring.copyOut w.rsp.size page w.rsp.read words.length = words) (does_gets ?_) ?_
      · intro s hs
        obtain ⟨ms', hms'⟩ := hs.2.2
        obtain ⟨hlength, hout, -⟩ := hs.1.sound.rsp.head hms'
        rw [hs.2.1] at hlength hout
        rw [hs.1.sound.rsp.size_eq, ← hsize] at hout
        exact ⟨hs, hlength, hout⟩
      intro page
      apply does_of_forall
      intro s hs
      obtain ⟨hs, hlength, hout⟩ := hs
      simp only [hlength, hout]
      apply does_ite
      · exact fun _ => does_raise
      intro _
      refine Does.pre (P := fun s => Waiting queued base s ∧ Next words w.rsp.read s) ?_ ?_
      · refine (does_cmdQueueDrained hnext).bind fun _ => ?_
        refine ((does_turn hnext).pre fun _ h => h.1).bind fun _ => ?_
        refine Does.bind (Q := fun _ s => Waiting queued base s ∧
            base < s.taken.length ∧ s.taken.getLast? = some words)
          (does_modify ?_ ?_) ?_
        · intro s hs
          have hmoves := moves_take hs.2
          rwa [hs.1.sound.rsp.size_eq, ← hsize] at hmoves
        · intro s hs
          have hmoves := moves_take hs.2
          rw [hs.1.sound.rsp.size_eq, ← hsize] at hmoves
          have hlength : base < (s.taken ++ [words]).length := by
            rw [length_append, length_singleton]
            exact Nat.lt_succ_of_le hs.1.base_le
          exact ⟨⟨hmoves.sound hs.1.sound, hs.1.queued_eq, hlength.le⟩, hlength,
            by simp [World.take]⟩
        · intro _
          apply does_ite
          · exact fun _ => ih.pre fun _ h => h.1
          intro herror
          apply does_ite
          · exact fun _ => ih.pre fun _ h => h.1
          intro hack
          apply does_ite
          · exact fun _ => does_raise
          intro _
          apply does_pure
          intro s hs
          refine ⟨hs.1, ?_⟩
          intro words' hwords'
          cases hwords'
          exact ⟨hs.2.1, hs.2.2, herror, not_not.mp hack⟩
      · intro t ht
        rw [ht]
        exact hs
    · intro s hs
      rw [hs]
      exact ⟨hwait, rfl, ms, hput⟩

theorem does_waitRounds (seq id n : ℕ) :
    Does Moves (Waiting queued base) (waitRounds seq id n) fun words w =>
      Waiting queued base w ∧ Accepted base seq id words w := by
  induction n with
  | zero => exact does_raise
  | succ n ih =>
    have hquiet := quiet_waiting queued base
    refine (does_pollMsgq hquiet _ _).bind fun _ => ?_
    refine (does_turn hquiet).bind fun _ => ?_
    refine (does_readResponses seq id _).bind fun result => ?_
    cases result with
    | none => exact ih.pre fun _ h => h.1
    | some words => exact does_pure fun w h => ⟨h.1, h.2 words rfl⟩

/-! ## Sending -/

/-- The call has queued nothing yet. -/
structure Before (seq : ℕ) (queued : List (List ℕ)) (base : ℕ) (w : World) : Prop where
  waiting : Waiting queued base w
  hfiSeq_eq : w.hfiSeq = seq

theorem quiet_before (seq : ℕ) (queued : List (List ℕ)) (base : ℕ) :
    Quiet (Before seq queued base) := by
  constructor
  · intro w turns h
    exact ⟨(quiet_waiting queued base).turns w turns h.waiting, h.hfiSeq_eq⟩
  · intro w a h
    exact ⟨(quiet_waiting queued base).gmuAct w a h.waiting, (gmuAct_frame w a).1.trans h.hfiSeq_eq⟩

theorem Sound.withData (h : Sound w) (hidle : w.cmd.read = w.cmd.write) (data : ℕ → ℕ) :
    Sound { w with cmd := { w.cmd with data := data } } :=
  ⟨h.cmd.withData hidle data, h.rsp, h.ordered, h.answered, h.reported⟩

theorem does_writeRuns (runs : List (ℕ × List ℕ)) (q : Queue) :
    Does Moves (fun w => Waiting queued base w ∧ Idle q w) (writeRuns runs) fun _ w =>
      Waiting queued base w ∧ Idle { q with data := runs.foldl storeRun q.data } w := by
  induction runs generalizing q with
  | nil => exact does_skip
  | cons run runs ih =>
    refine (does_turn ((quiet_waiting queued base).idle q)).bind fun _ => ?_
    refine (does_modify ?_ ?_).bind fun _ => ih { q with data := storeRun q.data run }
    · intro w h
      obtain ⟨-, rfl, hidle⟩ := h
      exact ⟨fun hs => hs.withData hidle _, prefix_refl _, prefix_refl _⟩
    · intro w h
      obtain ⟨hwait, rfl, hidle⟩ := h
      exact ⟨⟨hwait.sound.withData hidle _, hwait.queued_eq, hwait.base_le⟩, rfl, hidle⟩

theorem Sound.enqueue (h : Sound w) {q : Queue} (hm : Framed words)
    (hidle : Idle { q with data := (Ring.copyIn q.size q.data q.write
      (words ++ padFrom q.size 4 ((q.write + words.length) % q.size))).1 } w) :
    Sound (w.enqueue ((q.write +
      (words ++ padFrom q.size 4 ((q.write + words.length) % q.size)).length) % q.size) words) := by
  obtain ⟨hcmd, hempty⟩ := hidle
  have hcarries := h.cmd
  rw [hcmd] at hcarries
  have hbase : Carries q w.queued w.got := hcarries.withData hempty q.data
  obtain ⟨_, _, hholds⟩ := hbase.held
  have hlength := length_append_padFrom hholds.write_dvd words
  have hlt := hm.2.1
  have hpush := hbase.push (padFrom queueDwords 4 ((q.write + words.length) % queueDwords)) hm
    hlength.le (by
      rw [show q.read = q.write from hempty, Ring.dist_self, hbase.size_eq, align, queueDwords]
      omega)
  refine { h with cmd := ?_ }
  simp only [World.enqueue, hcmd]
  rw [hbase.size_eq] at hpush ⊢
  rw [hlength]
  exact hpush

def World.nextSeq (w : World) : ℕ := (w.hfiSeq + 1) % 0xfff

theorem World.nextSeq_lt (w : World) : w.nextSeq < 4096 :=
  (Nat.mod_lt _ (by decide)).trans (by decide)

theorem does_writeHost (hP : Quiet P) (hrecord : ∀ w n, P w → P { w with record := n }) :
    Does Moves P writeHost fun _ => P := by
  refine (does_turn hP).bind fun _ => does_modify ?_ fun w h => hrecord w _ h
  intro w _
  exact ⟨fun h => { h with }, prefix_refl _, prefix_refl _⟩

theorem Quiet.accepted (hP : Quiet P) (base seq id : ℕ) (words : List ℕ) :
    Quiet fun w => P w ∧ Accepted base seq id words w := by
  constructor
  · intro w turns h
    exact ⟨hP.turns w turns h.1, h.2.base_lt, h.2.last, h.2.not_error, h.2.ack⟩
  · intro w a h
    have htaken := (gmuAct_frame w a).2.2.1
    refine ⟨hP.gmuAct w a h.1, ?_, ?_, h.2.not_error, h.2.ack⟩
    · rw [htaken]
      exact h.2.base_lt
    · rw [htaken]
      exact h.2.last

theorem does_hfiSend (m : Message) (w : World) (hw : Sound w) :
    Does Moves (fun s => s = w) (hfiSend m) fun response s =>
      Waiting (w.queued ++ [m.words w.nextSeq]) w.taken.length s ∧
        Accepted w.taken.length w.nextSeq m.id response s := by
  have hbefore := quiet_before w.hfiSeq w.queued w.taken.length
  have hstart : ∀ s, s = w → Before w.hfiSeq w.queued w.taken.length s := by
    intro s hs
    rw [hs]
    exact ⟨⟨hw, rfl, le_rfl⟩, rfl⟩
  refine ((does_cmdQueueDrained hbefore).pre hstart).bind fun q => ?_
  apply does_ite
  · exact fun _ => does_raise
  intro _
  refine Does.bind (Q := fun _ s => Before w.nextSeq w.queued w.taken.length s ∧ Idle q s)
    (does_modify ?_ ?_) fun _ => ?_
  · intro s _
    exact ⟨fun h => { h with }, prefix_refl _, prefix_refl _⟩
  · intro s hs
    have hs' := hs.1.waiting.sound
    refine ⟨⟨⟨{ hs' with }, hs.1.waiting.queued_eq, hs.1.waiting.base_le⟩, ?_⟩, hs.2⟩
    simp only [hs.1.hfiSeq_eq, nextSeq]
  refine Does.bind (Q := fun seq s => (Waiting w.queued w.taken.length s ∧ Idle q s) ∧
      seq = w.nextSeq)
    (does_gets fun s hs => ⟨⟨hs.1.waiting, hs.2⟩, hs.1.hfiSeq_eq⟩) fun seq => ?_
  apply does_of_forall
  intro s hs
  obtain ⟨hs, rfl⟩ := hs
  have hwrite : q.write < q.size := by
    obtain ⟨_, _, hholds⟩ := hs.1.sound.cmd.held
    have hsize := hs.1.sound.cmd.size_eq
    rw [hs.2.1] at hholds hsize
    rw [hsize]
    exact hholds.write_lt
  refine ((does_writeRuns _ q).pre fun t ht => ht ▸ hs).bind fun _ => ?_
  rw [foldl_storeRun_runs hwrite]
  refine (does_turn ((quiet_waiting w.queued w.taken.length).idle _)).bind fun _ => ?_
  refine Does.bind (Q := fun _ t => Waiting (w.queued ++ [m.words w.nextSeq]) w.taken.length t)
    (does_modify ?_ ?_) fun _ => ?_
  · intro t ht
    exact ⟨fun h => h.enqueue (m.framed w.nextSeq_lt) ht.2, prefix_refl _, prefix_refl _⟩
  · intro t ht
    refine ⟨ht.1.sound.enqueue (m.framed w.nextSeq_lt) ht.2, ?_, ht.1.base_le⟩
    rw [World.enqueue, ht.1.queued_eq]
  have hwait := quiet_waiting (w.queued ++ [m.words w.nextSeq]) w.taken.length
  refine (does_turn hwait).bind fun _ => ?_
  refine (does_waitRounds _ _ _).bind fun response => ?_
  refine (does_writeHost (hwait.accepted _ _ _ response) ?_).bind fun _ => does_pure fun _ h => h
  intro t n ht
  have ht' := ht.1.sound
  exact ⟨⟨{ ht' with }, ht.1.queued_eq, ht.1.base_le⟩,
    ht.2.base_lt, ht.2.last, ht.2.not_error, ht.2.ack⟩

theorem does_readHost : Does Moves Sound readHost fun _ => Sound := by
  refine (does_turn quiet_sound).bind fun _ => does_modify ?_ ?_
  · intro w _
    exact ⟨fun h => { h with }, prefix_refl _, prefix_refl _⟩
  · intro w h
    exact { h with }

theorem Sound.of_does {α : Type} {Q : α → World → Prop} {op : Op α} (h : Sound w) (hP : P w)
    (hdoes : Does Moves P op Q) : Sound (op w).2 :=
  steps_keep (fun _ _ hmoves => hmoves.sound) (hdoes w hP).1 h

theorem Sound.perform (h : Sound w) (a : Act) : Sound (w.perform a) := by
  cases a with
  | start => exact h.of_does h does_readHost
  | send m => exact h.of_does (P := fun s => s = w) rfl (does_hfiSend m w h)
  | save =>
    refine h.of_does h (does_writeHost quiet_sound ?_)
    intro w n hw
    exact { hw with }

theorem sound_after (turns : List Turn) (session : List Act) : Sound (after turns session) := by
  have hfold : ∀ w, Sound w → Sound (session.foldl perform w) := by
    induction session with
    | nil => exact fun _ h => h
    | cons a session ih => exact fun w h => ih _ (h.perform a)
  exact hfold _ (sound_boot turns)

/-! ## Pairing -/

theorem Carries.out_eq_take {q : Queue} {put out : List (List ℕ)} (h : Carries q put out) :
    out = put.take out.length := by
  obtain ⟨ms, hput, _⟩ := h.held
  simp [hput]

/-- No message past the answers taken so far has the sequence number and the id of the next
call. -/
def Fresh (w : World) (m : Message) : Prop :=
  ∀ i, ∀ words ∈ w.queued[i]?, (∀ r ∈ w.posted.take w.taken.length, ∀ j ∈ r.answers, j < i) →
      ¬(seqOf (words.headD 0) = w.nextSeq ∧ idOf (words.headD 0) = m.id)

/-- The reply behind the response taken last; all taken before it answer older messages. -/
theorem Sound.last_taken (h : Sound w) (hlast : w.taken.getLast? = some words) :
    ∃ r, w.posted[w.taken.length - 1]? = some r ∧ r.words = words ∧
      ∀ r' ∈ w.posted.take (w.taken.length - 1), ∀ j ∈ r'.answers, ∀ i ∈ r.answers, j < i := by
  obtain ⟨ms, hput, _⟩ := h.rsp.held
  obtain ⟨front, hfront⟩ := List.getLast?_eq_some_iff.mp hlast
  have hget : (w.posted.map Reply.words)[w.taken.length - 1]? = some words := by
    rw [hput, hfront]
    simp
  rw [getElem?_map, Option.map_eq_some_iff] at hget
  obtain ⟨r, hr, hwords⟩ := hget
  refine ⟨r, hr, hwords, ?_⟩
  intro r' hr' j hj i hi
  obtain ⟨hlt, hat⟩ := List.getElem?_eq_some_iff.mp hr
  have hsplit : w.posted = w.posted.take (w.taken.length - 1) ++
      r :: w.posted.drop (w.taken.length - 1 + 1) := by
    rw [← hat, ← drop_eq_getElem_cons hlt, take_append_drop]
  have hordered := h.ordered
  rw [hsplit, filterMap_append, pairwise_append] at hordered
  apply hordered.2.2 j (mem_filterMap.mpr ⟨r', hr', hj⟩) i
  exact mem_filterMap.mpr ⟨r, mem_cons_self, hi⟩

theorem Sound.acknowledged (h : Sound w) {r : Reply} (hr : r ∈ w.posted) {seq id : ℕ}
    (herror : r.words.headD 0 &&& 0xff ≠ msgError) (hack : isAck seq id r.words) :
    ∃ i, r.answers = some i ∧ ∃ m ∈ w.queued[i]?,
      seqOf (m.headD 0) = seq ∧ idOf (m.headD 0) = id := by
  cases hanswers : r.answers with
  | none => exact absurd (h.reported r hr hanswers) herror
  | some i =>
    obtain ⟨-, hlength, hseq, hid⟩ := hack
    obtain ⟨m, hm, hheader⟩ := h.answered r hr i hanswers
    have hget : r.words[1]? = some (r.words.getD 1 0) := by
      rw [getD_eq_getElem?_getD, getElem?_eq_getElem (by omega), Option.getD_some]
    rw [hheader _ hget] at hseq hid
    obtain ⟨ms, hput, _⟩ := h.cmd.held
    refine ⟨i, rfl, m, ?_, hseq, hid⟩
    have hlt := (List.getElem?_eq_some_iff.mp hm).1
    rw [hput, getElem?_append_left hlt]
    exact hm

theorem Sound.hfiSend_answers (h : Sound w) {m : Message} (hfresh : Fresh w m) {response : List ℕ}
    (hreturns : (hfiSend m w).1 = some response) :
    ∃ r, (hfiSend m w).2.posted[(hfiSend m w).2.taken.length - 1]? = some r ∧
      r.words = response ∧ r.answers = some w.queued.length ∧
      (hfiSend m w).2.queued = w.queued ++ [m.words w.nextSeq] := by
  obtain ⟨hsteps, hpost⟩ := does_hfiSend m w h w rfl
  obtain ⟨hwait, hacc⟩ := hpost response hreturns
  have hposted : w.posted <+: (hfiSend m w).2.posted :=
    steps_keep (I := fun t => w.posted <+: t.posted) (fun _ _ hmoves hi => hi.trans hmoves.posted)
      hsteps (prefix_refl _)
  generalize (hfiSend m w).2 = t at hwait hacc hposted ⊢
  obtain ⟨r, hr, rfl, holder⟩ := hwait.sound.last_taken hacc.last
  obtain ⟨i, hanswers, x, hx, hseq, hid⟩ :=
    hwait.sound.acknowledged (mem_of_getElem? hr) hacc.not_error hacc.ack
  refine ⟨r, hr, rfl, ?_, hwait.queued_eq⟩
  rw [hwait.queued_eq] at hx
  have hle : i < w.queued.length + 1 := by
    simpa using (List.getElem?_eq_some_iff.mp hx).1
  -- An older message would be one the call was not fresh for.
  have hnot : ¬i < w.queued.length := by
    intro hlt
    rw [getElem?_append_left hlt] at hx
    refine hfresh i x hx ?_ ⟨hseq, hid⟩
    intro r' hr' j hj
    refine holder r' ?_ j hj i hanswers
    have htaken : w.taken.length ≤ t.taken.length - 1 := by
      have := hacc.base_lt
      omega
    obtain ⟨more, hmore⟩ := hposted
    have hmem : r' ∈ t.posted.take w.taken.length := by
      rw [← hmore, take_append]
      exact mem_append_left _ hr'
    exact (take_sublist_take_left htaken).subset hmem
  rw [hanswers]
  congr 1
  omega

/-- After every session the GMU has read the messages queued, in order and each once, and the
host has taken the responses posted, in order and each once. An acknowledgement that a call then
returns is the answer to the message of that call, if the call is fresh. -/
theorem commands_paired (turns : List Turn) (session : List Act) : (after turns session).got =
        (after turns session).queued.take (after turns session).got.length ∧
      (after turns session).taken =
        ((after turns session).posted.map Reply.words).take (after turns session).taken.length ∧
      ∀ m response, Fresh (after turns session) m →
        (hfiSend m (after turns session)).1 = some response →
        ∃ r, (hfiSend m (after turns session)).2.posted[
            (hfiSend m (after turns session)).2.taken.length - 1]? = some r ∧
          r.words = response ∧ r.answers = some (after turns session).queued.length ∧
          (hfiSend m (after turns session)).2.queued =
            (after turns session).queued ++ [m.words (after turns session).nextSeq] := by
  have h := sound_after turns session
  refine ⟨h.cmd.out_eq_take, h.rsp.out_eq_take, ?_⟩
  intro m response hfresh hreturns
  exact h.hfiSend_answers hfresh hreturns

/-! ## A performance table sent twice -/

/-- `HFI_MSG_TABLE`, shortened to one dword. -/
def perfTable (opps : ℕ) : Message where
  id := 15
  payload := [opps]
  id_lt := by decide
  short := by simp

def idle : Turn := { gmu := [], value := 0, late := false }

/-- The acknowledgement of the first table of a GMU boot. -/
def tableAck : List ℕ := [hfiHeader 0 msgAck 3, hfiHeader 1 15 2, 0]

/-- The accesses of a call that is acknowledged in the first round. -/
def ackedCall (gmu : List GmuAct) : List Turn :=
  [idle, idle, idle, { idle with gmu := gmu }, { idle with value := 1 }, idle, idle, idle, idle,
    idle, idle]

/-- The accesses of a call whose message is read, and that gives up. -/
def givenUpCall : List Turn :=
  [idle, idle, idle, idle, { idle with gmu := [.read] }, { idle with late := true }]

/-- A run gave up on its message; the next one waits for the answer to message `i`. -/
def afterGivenUp (m : Message) (i : ℕ) : World :=
  after (idle :: givenUpCall ++ idle :: ackedCall [.read, .answer i tableAck])
    [.start, .send m, .start]

/-- `HFI_MSG_BW_TABLE`. -/
def bwTable : Message := { perfTable 0 with id := 3, id_lt := by decide }

theorem commands_paired_firstTable :
    ∃ r, (hfiSend (perfTable 7) (afterGivenUp bwTable 1)).2.posted[0]? = some r ∧
      r.words = tableAck ∧ r.answers = some 1 := by
  have hqueued : (afterGivenUp bwTable 1).queued = [[hfiHeader 1 3 2, 0]] := by decide +kernel
  -- The number is that of the message given up on, but not the id.
  have hfresh : Fresh (afterGivenUp bwTable 1) (perfTable 7) := by
    intro i words hwords _ hsame
    rw [hqueued] at hwords
    obtain rfl : words = [hfiHeader 1 3 2, 0] := List.mem_singleton.mp (mem_of_getElem? hwords)
    exact absurd hsame.2 (by decide)
  have hreturns : (hfiSend (perfTable 7) (afterGivenUp bwTable 1)).1 = some tableAck := by
    decide +kernel
  have htaken : (hfiSend (perfTable 7) (afterGivenUp bwTable 1)).2.taken.length = 1 := by
    decide +kernel
  obtain ⟨r, hr, hwords, hanswers, -⟩ := (commands_paired _ _).2.2 _ _ hfresh hreturns
  rw [show (hfiSend (perfTable 7) (after _ _)).2.taken.length = 1 from htaken] at hr
  exact ⟨r, hr, hwords, by rw [hanswers]; exact congrArg (some ·.length) hqueued⟩

/-- A run gives up on its table and the record keeps the old number. The next run sends another
table under the same number, and takes the late answer to the first one for its own. -/
theorem lateAnswer_acknowledges :
    (hfiSend (perfTable 9) (afterGivenUp (perfTable 7) 0)).1 = some tableAck ∧
      (hfiSend (perfTable 9) (afterGivenUp (perfTable 7) 0)).2.posted =
        [{ answers := some 0, words := tableAck }] ∧
      (hfiSend (perfTable 9) (afterGivenUp (perfTable 7) 0)).2.queued =
        [(perfTable 7).words 1, (perfTable 9).words 1] := by
  decide +kernel

end Q1n1.Adreno.Hfi
