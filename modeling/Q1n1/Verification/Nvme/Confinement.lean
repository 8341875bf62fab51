import Q1n1.Verification.Nvme.Quiet

/-! # Confinement of NVMe commands -/

namespace Q1n1.Nvme

open Bytes Cut List Layout Command

/-! ## Packing -/

theorem pack_eq_some {bytes : ℕ} {v : Int} {n : ℕ} (h : pack bytes v = some n) :
    (n : Int) = v ∧ n < 256 ^ bytes := by
  rw [pack] at h
  split at h
  · rename_i hv
    obtain rfl := Option.some.inj h
    have hcast : ((v.toNat : ℕ) : Int) = v := Int.toNat_of_nonneg hv.1
    refine ⟨hcast, ?_⟩
    have := hv.2
    rw [← hcast] at this
    exact_mod_cast this
  · cases h

theorem mapM_pack_eq_some {bytes : ℕ} {vs : List Int} {ns : List ℕ}
    (h : vs.mapM (pack bytes) = some ns) :
    ns.map (fun n : ℕ => (n : Int)) = vs ∧ ∀ n ∈ ns, n < 256 ^ bytes := by
  induction vs generalizing ns with
  | nil =>
    rw [mapM_nil] at h
    obtain rfl := Option.some.inj h
    simp
  | cons v vs ih =>
    rw [mapM_cons] at h
    obtain ⟨n, hn, h⟩ := Option.bind_eq_some_iff.mp h
    obtain ⟨ns', hns, h⟩ := Option.bind_eq_some_iff.mp h
    obtain rfl := Option.some.inj h
    obtain ⟨hv, hlt⟩ := pack_eq_some hn
    obtain ⟨hvs, hlts⟩ := ih hns
    exact ⟨by rw [map_cons, hv, hvs], forall_mem_cons.mpr ⟨hlt, hlts⟩⟩

/-- The fields of a packed command are the values it was given. -/
structure Packed (opcode : Int) (cid : ℕ) (nsid prp1 prp2 : Int) (cdw : List Int) (c : Command) :
    Prop where
  opcode : (c.opcode : Int) = opcode
  nsid : (c.nsid : Int) = nsid
  prp1 : (c.prp1 : Int) = prp1
  prp2 : (c.prp2 : Int) = prp2
  length : c.cdw.length = 6
  words : c.cdw.map (fun n : ℕ => (n : Int)) = cdw ++ List.replicate (6 - cdw.length) 0
  small : ∀ n ∈ c.cdw, n < 2 ^ 32

variable {opcode nsid prp1 prp2 : Int} {c : Command} {cdw : List Int} {cid : ℕ}

theorem Command.pack_packed (h : Command.pack opcode cid nsid prp1 prp2 cdw = some c) :
    Packed opcode cid nsid prp1 prp2 cdw c := by
  obtain ⟨opcode', hopcode, h⟩ := Option.bind_eq_some_iff.mp h
  obtain ⟨nsid', hnsid, h⟩ := Option.bind_eq_some_iff.mp h
  obtain ⟨prp1', hprp1, h⟩ := Option.bind_eq_some_iff.mp h
  obtain ⟨prp2', hprp2, h⟩ := Option.bind_eq_some_iff.mp h
  obtain ⟨words, hwords, h⟩ := Option.bind_eq_some_iff.mp h
  split at h
  · rename_i hlength
    obtain rfl := Option.some.inj h
    obtain ⟨hmap, hsmall⟩ := mapM_pack_eq_some hwords
    exact ⟨(pack_eq_some hopcode).1, (pack_eq_some hnsid).1, (pack_eq_some hprp1).1,
      (pack_eq_some hprp2).1, hlength, hmap, hsmall⟩
  · cases h

theorem Packed.three {x y z : Int} (h : Packed opcode cid nsid prp1 prp2 [x, y, z] c) :
    ∃ a b d : ℕ, c.cdw = [a, b, d, 0, 0, 0] ∧ x = a ∧ y = b ∧ z = d ∧ a < 2 ^ 32 := by
  obtain ⟨a, b, d, e, f, g, hcdw⟩ : ∃ a b d e f g, c.cdw = [a, b, d, e, f, g] := by
    match hc : c.cdw, h.length with
    | [a, b, d, e, f, g], _ => exact ⟨a, b, d, e, f, g, rfl⟩
  have hwords := h.words
  have hsmall := h.small
  rw [hcdw] at hwords hsmall
  simp only [map_cons, map_nil, length_cons, length_nil, cons_append,
    nil_append, List.cons.injEq] at hwords
  obtain ⟨ha, hb, hd, hrest⟩ := hwords
  simp only [replicate, List.cons.injEq, Nat.cast_eq_zero, and_true] at hrest
  obtain ⟨rfl, rfl, rfl⟩ := hrest
  exact ⟨a, b, d, hcdw, ha.symm, hb.symm, hd.symm, hsmall a (by simp)⟩

theorem Command.bytes_length (h : c.cdw.length = 6) : c.bytes.length = 64 := by
  have hwords : (c.cdw.flatMap (putLe 4)).length = 24 := by
    rw [length_flatMap]
    simp [h]
  simp [bytes, hwords]

variable {b : ℕ}

theorem lor_dwords {a : ℕ} (ha : a < 2 ^ 32) :
    Int.lor a ((b : Int) * 2 ^ 32) = ((a + b * 2 ^ 32 : ℕ) : Int) := by
  have hcast : ((b : Int) * 2 ^ 32) = ((2 ^ 32 * b : ℕ) : Int) := by
    push_cast
    ring
  rw [hcast]
  show ((a ||| 2 ^ 32 * b : ℕ) : Int) = _
  rw [Nat.or_comm, ← Nat.two_pow_add_eq_or_of_lt ha]
  congr 1
  ring

/-! ## Checks -/

section

variable {l : Layout} {w : ℕ} {step : Host → Host → Prop} {P : Host → Prop}

theorem does_require (condition : Bool) :
    Does step P (require condition) fun _ s => P s ∧ condition = true := by
  cases condition with
  | false => exact does_stop
  | true => exact does_pure fun s hs => ⟨hs, rfl⟩

theorem does_field {α : Type} {g : Host → Option α} :
    Does step P (field g) fun a s => P s ∧ g s = some a := by
  refine does_get_bind fun s hs => ?_
  cases hg : g s with
  | none => exact does_stop
  | some a => exact does_pure fun t ht => ht ▸ ⟨hs, hg⟩

structure CheckedWrite (s : Host) (nsid prp1 prp2 x y z : Int) (b : ℕ) : Prop where
  namespace_one : nsid = 1
  plain : plainBits z = z
  fua : z / 2 ^ 30 % 2 = 1
  inside : ∃ range ∈ s.writeRanges, (range.1 : Int) ≤ Int.lor x (y * 2 ^ 32) ∧
    Int.lor x (y * 2 ^ 32) + (z % 2 ^ 16 + 1) ≤ range.2
  lbaBytes : s.lbaBytes = some b
  size : ∃ m, s.maxTransfer = some m ∧ (z % 2 ^ 16 + 1).toNat * b ≤ m
  first_page : prp1 = (s.window + s.layout.data : ℕ)
  second_page : prp2 = if pagesOf ((z % 2 ^ 16 + 1).toNat * b) = 1 then 0
    else if pagesOf ((z % 2 ^ 16 + 1).toNat * b) = 2 then prp1 + pageBytes
    else (s.window + Layout.prp : ℕ)

/-- What `_check_io_command` lets through. -/
def CheckedIo (s : Host) (opcode nsid prp1 prp2 : Int) (cdw : List Int) : Prop :=
  opcode = 0x02 ∨ opcode = 0x00 ∨
    opcode = 0x01 ∧ ∃ x y z b, cdw = [x, y, z] ∧ CheckedWrite s nsid prp1 prp2 x y z b

theorem allowWrite_does (first count : Int) (s : Host) :
    Does step (· = s) (allowWrite (.int first) (.int count)) fun _ t => t = s ∧
      ∃ range ∈ s.writeRanges, (range.1 : Int) ≤ first ∧ first + count ≤ range.2 := by
  refine (does_require _).bind fun _ => does_get_bind fun t ht => ?_
  obtain ⟨rfl, -⟩ := ht
  refine (does_require _).post fun _ t ht => ⟨ht.1, ?_⟩
  obtain ⟨range, hmem, hrange⟩ := any_eq_true.mp ht.2
  exact ⟨range, hmem, of_decide_eq_true hrange⟩

theorem checkIoCommand_does (opcode nsid prp1 prp2 : Int) (cdw : List Int) (s : Host) :
    Does step (· = s) (checkIoCommand opcode nsid prp1 prp2 cdw) fun _ t =>
      t = s ∧ CheckedIo s opcode nsid prp1 prp2 cdw := by
  refine does_ite (fun hread => ?_) fun _ => ?_
  · exact (does_require _).post fun _ t ht => ⟨ht.1, .inl hread⟩
  refine does_get_bind fun t ht => ?_
  obtain rfl := ht
  refine (does_require _).bind fun _ => does_ite (fun hflush => ?_) fun _ => ?_
  · exact (does_require _).post fun _ u hu => ⟨hu.1.1, .inr (.inl hflush)⟩
  match cdw with
  | [x, y, z] =>
    refine (does_require _).bind fun _ => (does_require _).bind fun _ => ?_
    refine does_of_forall fun u hu => ?_
    obtain ⟨⟨⟨rfl, hnsid⟩, hplain⟩, hfua⟩ := hu
    refine (allowWrite_does _ _ u).bind fun _ => does_get_bind fun v hv => ?_
    obtain ⟨rfl, hinside⟩ := hv
    refine does_field.bind fun b => does_field.bind fun m => ?_
    refine (does_require _).bind fun _ => (does_require _).post fun _ v hv => ?_
    obtain ⟨⟨⟨⟨rfl, hb⟩, hm⟩, hsize⟩, hprp2⟩ := hv
    simp only [decide_eq_true_eq] at hnsid hplain hfua hsize hprp2
    refine ⟨rfl, .inr (.inr ⟨hplain.1, x, y, z, b, rfl, ?_⟩)⟩
    exact ⟨hnsid.2, hplain.2, hfua, hinside, hb, ⟨m, hm, hsize.1⟩, hsize.2, hprp2⟩
  | [] => exact does_stop
  | [_] => exact does_stop
  | [_, _] => exact does_stop
  | _ :: _ :: _ :: _ :: _ => exact does_stop

theorem checkAdminCommand_does (opcode : Int) (cdw : List Int) (s : Host) :
    Does step (· = s) (checkAdminCommand opcode cdw) fun _ t => t = s ∧ opcode ∈ adminAllowed := by
  refine (does_require _).bind fun _ => does_cond ?_ ?_
  · cases cdw with
    | nil => exact does_stop
    | cons feature rest =>
      exact (does_require _).post fun _ t ht => ⟨ht.1.1, of_decide_eq_true ht.1.2⟩
  · exact does_pure fun t ht => ⟨ht.1, of_decide_eq_true ht.2⟩

/-! ## Submitting -/

/-- The PRP list for a Write of these dwords is in memory, where it takes one. -/
def ListReady (s : Host) (cdw : List Int) : Prop :=
  ∀ x y z b, cdw = [x, y, z] → plainBits z = z → s.lbaBytes = some b →
    2 < pagesOf ((z % 2 ^ 16 + 1).toNat * b) →
    ∀ i < pagesOf ((z % 2 ^ 16 + 1).toNat * b) - 1,
      getLe 8 (s.memory.load (s.window + Layout.prp + 8 * i) 8) =
        s.window + s.layout.data + pageBytes * (i + 1)

theorem pagesOf_bounds (n : ℕ) :
    n ≤ pagesOf n * pageBytes ∧ pagesOf n * pageBytes < n + pageBytes := by
  simp only [pagesOf, pageBytes]
  omega

theorem pagesOf_le {l : Layout} (hl : l.Usable) {n : ℕ} (h : n ≤ l.chunk) :
    pagesOf n * pageBytes ≤ l.chunk := by
  obtain ⟨k, hk⟩ := hl.chunk_page
  rw [hk] at h ⊢
  simp only [pagesOf, pageBytes] at *
  omega

theorem Placed.prps_eq {p : Placed} {pages base : ℕ} (hpos : 0 < pages)
    (hfirst : p.command.prp1 = base) (htwo : pages = 2 → p.command.prp2 = base + pageBytes)
    (hlist : 2 < pages → ∀ i < pages - 1,
      getLe 8 (p.memory.load (p.command.prp2 + 8 * i) 8) = base + pageBytes * (i + 1)) :
    p.prps pages = (range pages).map fun i => base + pageBytes * i := by
  obtain ⟨n, rfl⟩ : ∃ n, pages = n + 1 := ⟨pages - 1, by omega⟩
  rw [range_succ_eq_map, map_cons, map_map, Placed.prps, hfirst]
  congr 1
  split
  · rename_i hone
    obtain rfl : n = 0 := by omega
    rfl
  · split
    · rename_i h
      obtain rfl : n = 1 := by omega
      rw [htwo rfl]
      rfl
    · apply map_congr_left
      intro i hi
      exact hlist (by omega) i (mem_range.mp hi)

variable {q : Queue}

theorem load_list_store {memory : Memory} {i : ℕ} (hq : q.Located w)
    (hlength : c.bytes.length = 64) :
    (memory.store (q.sq + q.tail * 64) c.bytes).load (w + prp + 8 * i) 8 =
      memory.load (w + prp + 8 * i) 8 := by
  apply Memory.load_store_of_disjoint
  right
  rw [hlength, hq.sq]
  have := hq.tail
  simp only [iosq, prp, ioEntries] at *
  omega

theorem CheckedWrite.confined {s : Host} {x y z : Int} (hl : l.Usable) (hs : Inv l w s)
    (hq : q.Located w) (h : CheckedWrite s nsid prp1 prp2 x y z b) (hlist : ListReady s [x, y, z])
    (hc : Packed 0x01 cid nsid prp1 prp2 [x, y, z] c) :
    WriteConfined l w ⟨.io, c, s.lbaBytes, s.writeRanges,
      s.memory.store (q.sq + q.tail * 64) c.bytes⟩ := by
  obtain ⟨first, second, count, hcdw, rfl, rfl, rfl, hsmall⟩ := hc.three
  have hlba : c.lba = first + second * 2 ^ 32 := by simp [lba, hcdw]
  have hblocks : c.blocks = count % 2 ^ 16 + 1 := by simp [blocks, hcdw]
  have hcount : ((count : Int) % 2 ^ 16 + 1).toNat = c.blocks := by
    rw [hblocks]
    omega
  obtain ⟨m, hm, hsize⟩ := h.size
  have hsecond := h.second_page
  rw [hcount] at hsize hsecond
  have hprp1 : c.prp1 = w + l.data := by
    have := hc.prp1.trans h.first_page
    rw [hs.window, hs.layout] at this
    exact_mod_cast this
  have hprp2 : (c.prp2 : Int) = if pagesOf (c.blocks * b) = 1 then 0
      else if pagesOf (c.blocks * b) = 2 then ((w + l.data + pageBytes : ℕ) : Int)
      else ((w + prp : ℕ) : Int) := by
    rw [hc.prp2, hsecond, ← hc.prp1, hprp1, hs.window]
    push_cast
    rfl
  have hpages := pagesOf_bounds (c.blocks * b)
  have hchunk : c.blocks * b ≤ l.chunk := hsize.trans (hs.maxTransfer m hm).1
  have hfit := pagesOf_le hl hchunk
  obtain ⟨j, hj⟩ := hs.lbaBytes b h.lbaBytes
  have hpos : 0 < c.blocks * b := by
    rw [hj, hblocks]
    positivity
  refine ⟨?_, ⟨?_, ?_⟩, ?_, ?_⟩
  · obtain ⟨range, hmem, hlow, hhigh⟩ := h.inside
    rw [lor_dwords hsmall] at hlow hhigh
    refine ⟨range, hmem, ?_, ?_⟩
    · show range.1 ≤ c.lba
      rw [hlba]
      exact_mod_cast hlow
    · show c.lba + c.blocks ≤ range.2
      rw [hlba, hblocks]
      exact_mod_cast hhigh
  · have := hc.nsid.trans h.namespace_one
    exact_mod_cast this
  · have hplain := h.plain
    have hfua := h.fua
    rw [plainBits] at hplain
    rw [hcdw, hblocks]
    simp only [drop_succ_cons, drop_zero, List.cons.injEq, and_true]
    omega
  · refine ⟨b, pagesOf (c.blocks * b), h.lbaBytes, hpages.1, hpages.2, ?_, ?_⟩
    · exact hfit.trans hl.chunk_le
    · have hpagesPos : 0 < pagesOf (c.blocks * b) := by
        simp only [pagesOf, pageBytes] at *
        omega
      refine Placed.prps_eq hpagesPos hprp1 (fun htwo => ?_) fun hmany i hi => ?_
      · rw [htwo, if_neg (by decide), if_pos rfl] at hprp2
        exact_mod_cast hprp2
      · rw [if_neg (by omega), if_neg (by omega)] at hprp2
        have hprp2' : c.prp2 = w + prp := by exact_mod_cast hprp2
        have hready := hlist _ _ _ b rfl h.plain h.lbaBytes
        rw [hcount, hs.window, hs.layout] at hready
        rw [hprp2', load_list_store hq (bytes_length hc.length)]
        exact hready hmany i hi
  · intro b' hb' hone
    obtain rfl := Option.some.inj (h.lbaBytes.symm.trans hb')
    have : pagesOf (c.blocks * b) = 1 := by
      have hone' : c.blocks * b ≤ 4096 := hone
      simp only [pagesOf, pageBytes] at *
      omega
    rw [if_pos this] at hprp2
    exact_mod_cast hprp2

theorem CheckedIo.confined {s : Host} (hl : l.Usable) (hs : Inv l w s) (hq : q.Located w)
    (h : CheckedIo s opcode nsid prp1 prp2 cdw) (hlist : opcode = 0x01 → ListReady s cdw)
    (hc : Packed opcode cid nsid prp1 prp2 cdw c) :
    Confined l w ⟨.io, c, s.lbaBytes, s.writeRanges,
      s.memory.store (q.sq + q.tail * 64) c.bytes⟩ := by
  have hopcode := hc.opcode
  rcases h with rfl | rfl | ⟨rfl, x, y, z, b, rfl, hwrite⟩
  · exact .inl (by exact_mod_cast hopcode)
  · exact .inr (.inl (by exact_mod_cast hopcode))
  · exact .inr (.inr ⟨by exact_mod_cast hopcode, hwrite.confined hl hs hq (hlist rfl) hc⟩)

theorem enqueue_does {b m : Option ℕ} {id : QueueId} (hq : id = .io → q.Located w) :
    Does (Keep l w) (fun s => Steady l w b m s ∧ Confined l w ⟨id, c, s.lbaBytes, s.writeRanges,
      s.memory.store (q.sq + q.tail * 64) c.bytes⟩) (enqueue id q c) fun _ => Steady l w b m := by
  have hplace : ∀ s, (Steady l w b m s ∧ Confined l w ⟨id, c, s.lbaBytes, s.writeRanges,
      s.memory.store (q.sq + q.tail * 64) c.bytes⟩) →
      Steady l w b m { s with placed := s.placed ++ [⟨id, c, s.lbaBytes, s.writeRanges,
        s.memory.store (q.sq + q.tail * 64) c.bytes⟩] } := by
    rintro s ⟨hs, hconfined⟩
    refine { hs with inv := { hs.inv with placed := ?_ } }
    exact forall_mem_append.mpr ⟨hs.inv.placed, forall_mem_singleton.mpr hconfined⟩
  have hrest : Quiet l w (do
      write (q.sq + q.tail * 64) c.bytes
      civac (q.sq + q.tail * 64) 64
      setQueue id { q with
        nextCid := q.nextCid % 0xFFFF + 1
        tail := (q.tail + 1) % q.entries
        outstanding := insertCid q.nextCid q.outstanding }
      return q.nextCid) := by
    refine (Quiet.write _ _).bind fun _ => (Quiet.civac _ _).bind fun _ => ?_
    refine (Quiet.setQueue fun hio => ?_).bind fun _ => .pure _
    have hlocated := hq hio
    refine ⟨hlocated.sq, hlocated.entries, ?_⟩
    rw [hlocated.entries]
    exact Nat.mod_lt _ (by decide)
  refine (does_modify ?_ ?_).bind fun _ => hrest b m
  · exact fun s hs _ => (hplace s hs).inv
  · exact fun s hs => hplace s hs

theorem submit_does {b m : Option ℕ} {id : QueueId} (hl : l.Usable) : Does (Keep l w)
      (fun s => Steady l w b m s ∧ (id = .io → opcode = 0x01 → ListReady s cdw))
      (submit checkIoCommand id opcode nsid prp1 prp2 cdw) fun _ => Steady l w b m := by
  refine does_of_forall fun s hs => does_field.bind fun q => ?_
  obtain ⟨hsteady, hlist⟩ := hs
  refine does_of_forall fun t ht => ?_
  obtain ⟨rfl, hqueue⟩ := ht
  have hq : id = .io → q.Located w := located_of_queue ⟨t, hsteady.inv, hqueue⟩
  have hadvance : id = .io → ({ q with nextCid := q.nextCid % 0xFFFF + 1 } : Queue).Located w :=
    fun hio => ⟨(hq hio).sq, (hq hio).entries, (hq hio).tail⟩
  have hcounted (next : Call ℕ)
      (hnext : Does (Keep l w) (· = t.setQueue { q with nextCid := q.nextCid % 0xFFFF + 1 } id)
        next fun _ => Steady l w b m) :
      Does (Keep l w) (· = t) (do
        require (q.outstanding.length < q.entries - 1)
        setQueue id { q with nextCid := q.nextCid % 0xFFFF + 1 }
        next) fun _ => Steady l w b m := by
    refine (does_require _).bind fun _ => Does.bind (Q := fun _ u =>
      u = t.setQueue { q with nextCid := q.nextCid % 0xFFFF + 1 } id) ?_ fun _ => hnext
    refine does_modify ?_ fun u hu => by rw [hu.1]
    rintro u ⟨rfl, -⟩ -
    exact (hsteady.with_queue hadvance).inv
  have henqueue (c : Command) (hconfined : Confined l w ⟨id, c, t.lbaBytes, t.writeRanges,
        t.memory.store (q.sq + q.tail * 64) c.bytes⟩) :
      Does (Keep l w) (· = t.setQueue { q with nextCid := q.nextCid % 0xFFFF + 1 } id)
        (enqueue id q c) fun _ => Steady l w b m := by
    refine (enqueue_does hq).pre ?_
    rintro u rfl
    refine ⟨hsteady.with_queue hadvance, ?_⟩
    cases id with
    | admin => exact hconfined
    | io => exact hconfined
  cases id with
  | admin =>
    refine (checkAdminCommand_does _ _ t).bind fun _ => ?_
    refine does_of_forall fun u hu => ?_
    obtain ⟨rfl, hallowed⟩ := hu
    refine hcounted _ ?_
    cases hpack : Command.pack opcode q.nextCid nsid prp1 prp2 cdw with
    | none => exact does_stop
    | some c =>
      refine henqueue c ?_
      show (c.opcode : Int) ∈ adminAllowed
      rw [(pack_packed hpack).opcode]
      exact hallowed
  | io =>
    refine (checkIoCommand_does _ _ _ _ _ t).bind fun _ => ?_
    refine does_of_forall fun u hu => ?_
    obtain ⟨rfl, hchecked⟩ := hu
    refine hcounted _ ?_
    cases hpack : Command.pack opcode q.nextCid nsid prp1 prp2 cdw with
    | none => exact does_stop
    | some c =>
      exact henqueue c (hchecked.confined hl hsteady.inv (hq rfl) (hlist rfl) (pack_packed hpack))

theorem submit_quiet {id : QueueId} (hl : l.Usable) (hwrite : id = .io → opcode ≠ 0x01) :
    Quiet l w (submit checkIoCommand id opcode nsid prp1 prp2 cdw) :=
  fun _ _ => (submit_does hl).pre fun _ hs => ⟨hs, fun hio h => absurd h (hwrite hio)⟩

/-! ## Calls that place no Write -/

section

variable (hl : l.Usable)
include hl

theorem adminCmd_quiet (opcode nsid prp1 : Int) (cdw : List Int) :
    Quiet l w (adminCmd checkIoCommand opcode nsid prp1 cdw) := by
  refine (submit_quiet hl (by simp)).bind fun cid => (Quiet.ring _).bind fun _ => ?_
  refine (Quiet.reap _ _).bind fun found => ?_
  cases found with
  | nil => exact .raise
  | cons c rest => exact .pure c

theorem features_quiet : Quiet l w (features checkIoCommand) :=
  .get_bind fun _ _ => (adminCmd_quiet hl _ _ _ _).bind fun _ =>
    (adminCmd_quiet hl _ _ _ _).bind fun _ => (Quiet.fetch _ _).bind fun _ => .pure ()

theorem ioQueues_quiet : Quiet l w (ioQueues checkIoCommand) := by
  refine .get_bind fun s hs => (adminCmd_quiet hl _ _ _ _).bind fun _ => ?_
  refine (adminCmd_quiet hl _ _ _ _).bind fun _ => (adminCmd_quiet hl _ _ _ _).bind fun _ => ?_
  refine Quiet.field.bind fun stride => .setQueue fun _ => ?_
  refine ⟨?_, rfl, Nat.zero_lt_succ _⟩
  show s.window + iosq = w + iosq
  rw [hs.window]

theorem deleteIoQueues_quiet : Quiet l w (deleteIoQueues checkIoCommand) := by
  refine .get_bind fun s _ => .ite (.pure ()) ?_
  refine (adminCmd_quiet hl _ _ _ _).bind fun _ => (adminCmd_quiet hl _ _ _ _).bind fun _ => ?_
  refine .modify fun t b m ht => { ht with inv := { ht.inv with io := ?_ } }
  intro q hq
  cases hq

omit hl in
theorem writePrps_quiet (address list pages : ℕ) : Quiet l w (writePrps address list pages) := by
  refine .ite (.pure _) (.ite ?_ (.pure 0))
  refine (Quiet.require _).bind fun _ => (Quiet.write _ _).bind fun _ => ?_
  exact (Quiet.civac _ _).bind fun _ => .pure list

theorem readCmd_quiet (slot : ℕ) (lba count : Int) :
    Quiet l w (readCmd checkIoCommand slot lba count) :=
  .get_bind fun _ _ => Quiet.field.bind fun _ => (writePrps_quiet _ _ _).bind fun _ =>
    submit_quiet hl (by decide)

theorem readFrom_quiet (per rounds lba count : ℕ) (out : List UInt8) :
    Quiet l w (readFrom checkIoCommand per rounds lba count out) := by
  induction rounds generalizing lba count out with
  | zero => exact .pure out
  | succ rounds ih =>
    refine .ite (.pure out) (Quiet.field.bind fun _ => (readCmd_quiet hl _ _ _).bind fun _ => ?_)
    refine (Quiet.ring _).bind fun _ => (Quiet.reap _ _).bind fun _ => .get_bind fun _ _ => ?_
    exact (Quiet.fetch _ _).bind fun bs => ih _ _ _

theorem readLbas_quiet (lba count : Int) : Quiet l w (readLbas checkIoCommand lba count) :=
  Quiet.field.bind fun _ => (Quiet.require _).bind fun _ => Quiet.field.bind fun _ =>
    Quiet.field.bind fun _ => readFrom_quiet hl _ _ _ _ _

theorem timedSlots_quiet (per : ℕ) (slots : List ℕ) (lba left : Int) :
    Quiet l w (timedSlots checkIoCommand per slots lba left) := by
  induction slots generalizing lba left with
  | nil => exact .pure _
  | cons slot slots ih =>
    refine .ite (.pure _) ((readCmd_quiet hl _ _ _).bind fun cid => (ih _ _).bind fun r => ?_)
    exact .pure _

theorem timedFrom_quiet (per slots rounds : ℕ) (lba left : Int) :
    Quiet l w (timedFrom checkIoCommand per slots rounds lba left) := by
  induction rounds generalizing lba left with
  | zero => exact .raise
  | succ rounds ih =>
    refine .ite (.pure ()) ((timedSlots_quiet hl _ _ _ _).bind fun r => ?_)
    exact (Quiet.ring _).bind fun _ => (Quiet.reap _ _).bind fun _ => ih _ _

theorem timed_quiet (lba totalBytes : Int) : Quiet l w (timed checkIoCommand lba totalBytes) :=
  .get_bind fun _ _ => Quiet.field.bind fun _ => Quiet.field.bind fun _ =>
    timedFrom_quiet hl _ _ _ _ _

theorem flush_quiet : Quiet l w flush :=
  (submit_quiet hl (by decide)).bind fun _ => (Quiet.ring _).bind fun _ =>
    (Quiet.reap _ _).bind fun _ => .pure ()

end

/-! ## Writes -/

theorem does_ask {Q : Answer → Host → Prop}
    (h : ∀ s a rest, P s → Q a { s with answers := rest }) : Does (Keep l w) P ask Q := by
  refine does_get_bind fun s hs => ?_
  cases hanswers : s.answers with
  | nil => exact does_stop
  | cons a rest =>
    refine Does.bind (Q := fun _ t => t = { s with answers := rest }) (does_modify ?_ ?_) ?_
    · rintro t rfl ht
      exact { ht with }
    · rintro t rfl
      rfl
    · exact fun _ => does_pure fun t ht => ht ▸ h s a rest hs

theorem does_civac {address n : ℕ} (h : ∀ s answers, P s → P { s with answers := answers }) :
    Does (Keep l w) P (civac address n) fun _ => P := by
  refine (does_ask fun s _ rest hs => h s rest hs).bind fun a => ?_
  cases a with
  | value v => exact does_skip
  | bytes bs => exact does_skip
  | raises n => exact does_stop

variable {data : List UInt8}

theorem does_write {address : ℕ} {Q : Unit → Host → Prop} (h : ∀ s answers, P s → Q () { s with
      answers := answers, memory := s.memory.store address data }) :
    Does (Keep l w) P (write address data) Q := by
  have hkeep : ∀ (s : Host) memory, Keep l w s { s with memory := memory } :=
    fun s memory hs => { hs with }
  refine Does.bind (Q := fun _ t => ∃ s rest, P s ∧ t = { s with answers := rest }) ?_ fun a => ?_
  · exact does_ask fun s _ rest hs => ⟨s, rest, hs, rfl⟩
  have hstore : Does (Keep l w) (fun t => ∃ s rest, P s ∧ t = { s with answers := rest })
      (Cut.modify fun s => { s with memory := s.memory.store address data }) Q := by
    refine does_modify (fun s _ => hkeep s _) ?_
    rintro t ⟨s, rest, hs, rfl⟩
    exact h s rest hs
  cases a with
  | value v => exact hstore
  | bytes bs => exact hstore
  | raises n =>
    refine Does.bind (Q := fun _ _ => True) (does_modify (fun s _ => hkeep s _) ?_) ?_
    · exact fun _ _ => trivial
    · exact fun _ => does_stop

theorem prpEntries_length (address pages : ℕ) :
    (prpEntries address pages).length = 8 * (pages - 1) := by
  simp [prpEntries, length_flatMap, mul_comm]

theorem getLe_prpEntries {memory : Memory} {address list pages i : ℕ} (hi : i < pages - 1)
    (hfit : address + pageBytes * (pages - 1) < 2 ^ 64) :
    getLe 8 ((memory.store list (prpEntries address pages)).load (list + 8 * i) 8) =
      address + pageBytes * (i + 1) := by
  have hload := memory.load_store_self list (prpEntries address pages)
  rw [prpEntries_length] at hload
  rw [Memory.load_piece (by simp) hload hi]
  have hlt : address + pageBytes * (i + 1) < 256 ^ 8 := by
    simp only [pageBytes] at *
    omega
  simpa using getLe_putLe_of_lt hlt []

theorem writePrps_does {b m : Option ℕ} (address list pages : ℕ) :
    Does (Keep l w) (Steady l w b m) (writePrps address list pages) fun _ s =>
      Steady l w b m s ∧ (2 < pages → ∀ i < pages - 1,
        getLe 8 (s.memory.load (list + 8 * i) 8) = address + pageBytes * (i + 1)) := by
  refine does_ite (fun htwo => ?_) fun _ => does_ite (fun hmany => ?_) fun hfew => ?_
  · exact does_pure fun s hs => ⟨hs, fun h => by omega⟩
  · refine (does_require _).bind fun _ => (does_write (Q := fun _ s =>
      Steady l w b m s ∧ ∀ i < pages - 1,
        getLe 8 (s.memory.load (list + 8 * i) 8) = address + pageBytes * (i + 1))
          ?_).bind fun _ => ?_
    · rintro s answers ⟨hs, hfit⟩
      exact ⟨(hs.with_answers answers).with_memory _, fun i hi =>
        getLe_prpEntries hi (of_decide_eq_true hfit)⟩
    · refine (does_civac fun s answers hs => ⟨hs.1.with_answers answers, hs.2⟩).bind fun _ => ?_
      exact does_pure fun s hs => ⟨hs.1, fun _ => hs.2⟩
  · exact does_pure fun s hs => ⟨hs, fun h => absurd h hfew⟩

/-- A slice of the payload of `write`: whole blocks, or less than one. -/
structure PieceOk (b m : ℕ) (piece : List UInt8) : Prop where
  short : piece.length ≤ m
  whole : piece.length / b = 0 ∨ b ∣ piece.length ∧ piece.length / b ≤ 65536

theorem slices_dvd {m : ℕ} (hb : ∃ j, b = 2 ^ j) (hm : ∃ k, m = 2 ^ k) (hle : b ≤ m)
    (hdata : b ∣ data.length) : ∀ piece ∈ slices (min m (65536 * b)) data, b ∣ piece.length := by
  intro piece hpiece
  obtain ⟨k, -, rfl⟩ := mem_map.mp hpiece
  generalize hper : min m (65536 * b) = per
  have hdvd : b ∣ per := by
    obtain ⟨j, rfl⟩ := hb
    obtain ⟨i, rfl⟩ := hm
    have hij : 2 ^ j ∣ 2 ^ i := Nat.pow_dvd_pow 2 ((Nat.pow_le_pow_iff_right (by decide)).mp hle)
    rw [← hper]
    rcases le_total (2 ^ i) (65536 * 2 ^ j) with h | h
    · rwa [min_eq_left h]
    · rw [min_eq_right h]
      exact dvd_mul_left _ _
  rw [length_take, length_drop]
  rcases le_total per (data.length - k * per) with h | h
  · rwa [min_eq_left h]
  · rw [min_eq_right h]
    exact Nat.dvd_sub hdata (hdvd.mul_left k)

theorem slices_ok {m : ℕ} (hb : ∃ j, b = 2 ^ j) (hm : ∃ k, m = 2 ^ k) (hdata : b ∣ data.length) :
    ∀ piece ∈ slices (min m (65536 * b)) data, PieceOk b m piece := by
  intro piece hpiece
  have hlength := length_of_mem_slices hpiece
  refine ⟨by omega, ?_⟩
  by_cases hle : b ≤ m
  · refine .inr ⟨slices_dvd hb hm hle hdata piece hpiece, Nat.div_le_of_le_mul ?_⟩
    rw [mul_comm]
    omega
  · exact .inl (Nat.div_eq_of_lt (by omega))

theorem lor_fua {count : ℕ} (hpos : 0 < count) (hcount : count ≤ 65536) :
    Int.lor ((count : Int) - 1) (2 ^ 30) = ((count - 1 + 2 ^ 30 : ℕ) : Int) := by
  have hcast : ((count : Int) - 1) = ((count - 1 : ℕ) : Int) := by omega
  rw [hcast]
  show ((count - 1 ||| 2 ^ 30 : ℕ) : Int) = _
  rw [Nat.or_comm, ← mul_one (2 ^ 30), ← Nat.two_pow_add_eq_or_of_lt (by omega)]
  omega

theorem writePiece_does {m lba : ℕ} {piece : List UInt8} (hl : l.Usable) (hm : m ≤ l.chunk)
    (hpiece : PieceOk b m piece) :
    Does (Keep l w) (Steady l w (some b) (some m)) (writePiece lba piece) fun _ =>
      Steady l w (some b) (some m) := by
  refine does_get_bind fun s hs => does_field.bind fun b' => ?_
  refine does_of_forall fun t ht => ?_
  obtain ⟨rfl, hb'⟩ := ht
  obtain rfl := Option.some.inj (hs.lbaBytes.symm.trans hb')
  refine ((writePrps_does _ _ _).pre fun u hu => hu ▸ hs).bind fun prp2 => ?_
  have hdisjoint : pagesOf piece.length - 1 ≤ 512 := by
    have h := hl.pages_le
    have h' := hpiece.short
    simp only [pagesOf, pageBytes] at *
    omega
  refine (does_write (Q := fun _ u => Steady l w (some b) (some m) u ∧
    (2 < pagesOf piece.length → ∀ i < pagesOf piece.length - 1,
      getLe 8 (u.memory.load (w + prp + 8 * i) 8) =
        w + l.data + pageBytes * (i + 1))) ?_).bind fun _ => ?_
  · rintro u answers ⟨hu, hlist⟩
    refine ⟨(hu.with_answers answers).with_memory _, fun hmany i hi => ?_⟩
    have hlists := l.lists_le
    rw [hs.inv.window, hs.inv.layout] at hlist ⊢
    rw [← hlist hmany i hi]
    congr 1
    apply Memory.load_store_of_disjoint
    left
    simp only [prp, pageBytes] at *
    omega
  refine (does_civac fun u answers hu => ⟨hu.1.with_answers answers, hu.2⟩).bind fun _ => ?_
  refine ((submit_does hl).pre fun u hu => ⟨hu.1, fun _ _ => ?_⟩).bind fun cid => ?_
  · intro x y z b' hcdw hplain hb'
    obtain rfl := Option.some.inj (hu.1.lbaBytes.symm.trans hb')
    simp only [List.cons.injEq, and_true] at hcdw
    obtain ⟨-, -, rfl⟩ := hcdw
    -- Less than one block: the dword is -1, which the check does not let through.
    have hcount : piece.length / b ≠ 0 := by
      intro hzero
      rw [hzero] at hplain
      exact absurd hplain (by decide +kernel)
    obtain ⟨hdvd, hle⟩ := hpiece.whole.resolve_left hcount
    rw [lor_fua (pos_of_ne_zero hcount) hle]
    have hblocks : (((piece.length / b - 1 + 2 ^ 30 : ℕ) : Int) % 2 ^ 16 + 1).toNat =
        piece.length / b := by
      generalize piece.length / b = count at hcount hle ⊢
      omega
    rw [hblocks, Nat.div_mul_cancel hdvd, hu.1.inv.window, hu.1.inv.layout]
    exact hu.2
  · exact ((Quiet.ring _).bind fun _ => (Quiet.reap _ _).bind fun _ => .pure _) _ _

theorem writePieces_does {m lba : ℕ} {rest : List (List UInt8)} (hl : l.Usable) (hm : m ≤ l.chunk)
    (hrest : ∀ piece ∈ rest, PieceOk b m piece) :
    Does (Keep l w) (Steady l w (some b) (some m)) (writePieces lba rest) fun _ =>
      Steady l w (some b) (some m) := by
  induction rest generalizing lba with
  | nil => exact does_skip
  | cons piece rest ih =>
    obtain ⟨hpiece, hrest⟩ := forall_mem_cons.mp hrest
    exact (writePiece_does hl hm hpiece).bind fun count => ih hrest

/-! ## Whole sequences of calls -/

theorem Quiet.does {α : Type} {x : Call α} (h : Quiet l w x) :
    Does (Keep l w) (Inv l w) x fun _ => Inv l w := by
  refine does_of_forall fun s hs => ?_
  refine (h s.lbaBytes s.maxTransfer).weaken ?_ fun _ _ ht => ht.inv
  rintro t rfl
  exact ⟨hs, rfl, rfl⟩

theorem writeLbas_does (hl : l.Usable) (lba : Arg) (payload : Option (List UInt8)) :
    Does (Keep l w) (Inv l w) (writeLbas lba payload) fun _ => Inv l w := by
  refine does_get_bind fun s hs => ?_
  cases payload with
  | none => exact does_stop
  | some data =>
    cases hb : s.lbaBytes with
    | none => exact does_stop
    | some b =>
      cases lba with
      | other => exact does_stop
      | int first =>
        refine (does_require _).bind fun _ => does_of_forall fun t ht => ?_
        obtain ⟨rfl, hdata⟩ := ht
        refine (allowWrite_does _ _ t).bind fun _ => does_field.bind fun m => ?_
        refine (does_require _).bind fun _ => does_of_forall fun u hu => ?_
        obtain ⟨⟨⟨rfl, -⟩, hm⟩, -⟩ := hu
        obtain ⟨hchunk, hpow⟩ := hs.maxTransfer m hm
        obtain ⟨-, -, hdvd⟩ := of_decide_eq_true hdata
        have hok := slices_ok (hs.lbaBytes b hb) hpow (Nat.dvd_of_mod_eq_zero hdvd)
        refine (writePieces_does hl hchunk hok).weaken ?_ ?_
        · rintro v rfl
          exact ⟨hs, hb, hm⟩
        · exact fun _ _ hv => hv.inv

theorem identify_does (hl : l.Usable) :
    Does (Keep l w) (Inv l w) (identify checkIoCommand) fun _ => Inv l w := by
  have hmodify : ∀ f : Host → Host, (∀ s, Inv l w s → Inv l w (f s)) →
      Does (Keep l w) (Inv l w) (Cut.modify f) fun _ => Inv l w :=
    fun f hf => does_modify (fun s _ => hf s) hf
  refine does_get_bind fun s hs => ?_
  refine ((adminCmd_quiet hl _ _ _ _).does.pre fun t ht => ht ▸ hs).bind fun _ => ?_
  refine (Quiet.fetch _ _).does.bind fun c => (Quiet.require _).does.bind fun _ => ?_
  refine (hmodify _ fun t ht => ?_).bind fun _ => ?_
  · refine ⟨ht.layout, ht.window, ?_, ht.lbaBytes, ht.io, ht.placed⟩
    rintro m hm
    obtain rfl := Option.some.inj hm
    rw [hs.layout]
    obtain ⟨k, hk⟩ := hl.chunk_pow
    split
    · exact ⟨le_rfl, k, hk⟩
    · refine ⟨min_le_left _ _, ?_⟩
      rcases le_total l.chunk (pageBytes * 2 ^ getLe 1 (c.drop 77)) with h | h
      · exact ⟨k, by rw [min_eq_left h, hk]⟩
      · exact ⟨12 + getLe 1 (c.drop 77), by rw [min_eq_right h, pow_add]; rfl⟩
  refine (adminCmd_quiet hl _ _ _ _).does.bind fun _ => (Quiet.fetch _ _).does.bind fun n => ?_
  refine (Quiet.require _).does.bind fun _ => (Quiet.require _).does.bind fun _ => ?_
  refine (hmodify _ fun t ht => ?_).bind fun _ => (Quiet.require _).does
  refine { ht with lbaBytes := ?_ }
  rintro b hb
  exact ⟨_, (Option.some.inj hb).symm⟩

theorem setRanges_does (ranges : Host → List (ℕ × ℕ)) :
    Does (Keep l w) (Inv l w) (Cut.modify fun s => { s with writeRanges := ranges s })
      fun _ => Inv l w := by
  have hkeep : ∀ s, Inv l w s → Inv l w { s with writeRanges := ranges s } :=
    fun s hs => { hs with }
  exact does_modify (fun s _ => hkeep s) hkeep

theorem enableWrites_does (ranges : List (Arg × Arg)) :
    Does (Keep l w) (Inv l w) (enableWrites ranges) fun _ => Inv l w := by
  refine does_get_bind fun s hs => ?_
  refine ((Quiet.require _).does.pre fun t ht => ht ▸ hs).bind fun _ => ?_
  cases checkRanges (s.nsze.getD 0) ranges with
  | none => exact does_stop
  | some checked => exact setRanges_does fun _ => checked

theorem Method.call_does (hl : l.Usable) (method : Method) :
    Does (Keep l w) (Inv l w) method.call fun _ => Inv l w := by
  cases method with
  | takeover => exact Quiet.takeover.does
  | identify => exact identify_does hl
  | features => exact (features_quiet hl).does
  | ioQueues => exact (ioQueues_quiet hl).does
  | deleteIoQueues => exact (deleteIoQueues_quiet hl).does
  | shutdown => exact Quiet.shutdown.does
  | adminCmd opcode nsid prp1 cdw =>
    exact ((adminCmd_quiet hl opcode nsid prp1 cdw).bind fun _ => .pure ()).does
  | fetch off n => exact ((Quiet.fetch off n).bind fun _ => .pure ()).does
  | read lba count => exact ((readLbas_quiet hl lba count).bind fun _ => .pure ()).does
  | timed lba totalBytes => exact (timed_quiet hl lba totalBytes).does
  | enableWrites ranges => exact enableWrites_does ranges
  | disableWrites => exact setRanges_does fun _ => []
  | write lba payload => exact writeLbas_does hl lba payload
  | flush => exact (flush_quiet hl).does

theorem Host.run_inv (hl : l.Usable) {s : Host} (hs : Inv l w s) (methods : List Method) :
    Inv l w (s.run methods) := by
  induction methods generalizing s with
  | nil => exact hs
  | cons method rest ih =>
    exact ih (steps_keep (fun _ _ hstep => hstep) (Method.call_does hl method s hs).1 hs)

end

def Host.new (layout : Layout) (bar window : ℕ) (answers : List Answer) : Host :=
  { layout := layout, bar := bar, window := window, answers := answers }

/-- Whatever is called and whatever the proxy answers, nothing but confined commands is put
into the queues. -/
theorem Host.run_confined (layout : Layout) (hlayout : layout ∈ [m3Layout, adoptLayout])
    (bar window : ℕ) (answers : List Answer) (methods : List Method) :
    ∀ p ∈ ((Host.new layout bar window answers).run methods).placed, Confined layout window p := by
  have hl : layout.Usable := by
    rcases mem_pair.mp hlayout with rfl | rfl
    · exact m3Layout_usable
    · exact adoptLayout_usable
  have hinit : Inv layout window (Host.new layout bar window answers) :=
    ⟨rfl, rfl, by simp [Host.new], by simp [Host.new], by simp [Host.new], by simp [Host.new]⟩
  exact (Host.run_inv hl hinit methods).placed

/-- What a controller answers to a command: it takes the entry, and completes it. -/
def completes (cid : ℕ) : List Answer :=
  let entry := putLe 8 0 ++ putLe 4 0 ++ putLe 4 (cid + 2 ^ 16)
  [.value 0, .value 0, .value 0, .value 0, .bytes entry, .value 0, .bytes entry, .value 0]

def namespacePage : List UInt8 :=
  putLe 8 1000 ++ List.replicate 112 0 ++ expectEui64 ++ [0, 0, 9, 0] ++ List.replicate 3964 0

/-- A controller that comes up, and a Write of one block. -/
def bringUpAnswers : List Answer :=
  .value (2 ^ 37 + 63) :: List.replicate 16 (.value 0) ++ [.value 1] ++
    completes 1 ++ [.value 0, .bytes (List.replicate 4096 0)] ++
    completes 2 ++ [.value 0, .bytes namespacePage] ++
    completes 3 ++ completes 4 ++ completes 5 ++ [.value 0, .value 0] ++ completes 1

def bringUp : List Method :=
  [.takeover, .identify, .ioQueues, .write (.int 10) (some (List.replicate 512 0)),
    .enableWrites [(.int 10, .int 20)], .write (.int 10) (some (List.replicate 512 0)),
    .write (.int 40) (some (List.replicate 512 0))]

theorem Host.run_confined_bringUp :
    (∀ p ∈ ((Host.new m3Layout 0 0x80000000 bringUpAnswers).run bringUp).placed,
      Confined m3Layout 0x80000000 p) ∧
    ((Host.new m3Layout 0 0x80000000 bringUpAnswers).run bringUp).placed.map
      (fun p => (p.queue, p.command.opcode)) =
        [(.admin, 0x06), (.admin, 0x06), (.admin, 0x09), (.admin, 0x05), (.admin, 0x01),
          (.io, 0x01)] :=
  ⟨Host.run_confined m3Layout (by simp) 0 0x80000000 bringUpAnswers bringUp, by decide +kernel⟩

end Q1n1.Nvme
