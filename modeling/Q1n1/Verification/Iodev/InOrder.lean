import Q1n1.Library.History
import Q1n1.Model.Iodev.Console

/-! # Every device sees the console stream in order -/

namespace Q1n1.Iodev

open List History

def Entry.length : Entry → ℕ
  | .took bytes => bytes.length
  | .dropped n => n
  | .behind n => n
  | .straight _ => 0

def total (log : List (ℕ × Entry)) : ℕ := (log.map (·.2.length)).sum

section

variable {ι : Type}

def Write.buffered (w : Write ι) : List UInt8 := if w.secondary then [] else w.data

/-- What the writes that reach the buffer have to say. -/
def stream (writes : List (Write ι)) : List UInt8 := writes.flatMap Write.buffered

/-- What device `i`, which stood at `start`, may do at write `k`: it takes the bytes that come
next, passes over bytes because it is disabled or had more than the buffer to catch up with, or
gets those of a secondary CPU. -/
def Entry.Right (writes : List (Write ι)) (i : ι) (start k : ℕ) (w : Write ι) : Entry → Prop
  | .took bytes => w.secondary = false ∧ (∃ accepts, w.answers i = .ready accepts) ∧
    bytes <+: (stream writes).drop start
  | .dropped _ => w.secondary = false ∧ w.answers i = .disabled
  | .behind n => w.secondary = false ∧
    (0 < n → (stream (writes.take k)).length = start + n + consoleBufferSize)
  | .straight _ => w.secondary = true

structure Device.InOrder (writes : List (Write ι)) (i : ι) (d : Device) : Prop where
  stands : total d.log = d.rp
  within : d.rp ≤ (stream writes).length
  right : Every (fun before e => ∃ w, writes[e.1]? = some w ∧
    e.2.Right writes i (total before) e.1 w) d.log

end

/-- From `lo` on, the buffer holds the last bytes of the stream. -/
def Holds (lo : ℕ) (buf : Memory) (stream : List UInt8) : Prop :=
  ∀ k, lo ≤ k → k < stream.length → stream.length ≤ k + 8192 → buf (k % 8192) = stream.getD k 0

variable {ι : Type} {d : Device} {S data : List UInt8} {buf : Memory} {lo k : ℕ} {i : ι}
  {writes : List (Write ι)} {w : Write ι}

theorem stream_concat : stream (writes ++ [w]) = stream writes ++ w.buffered := by
  simp [stream]

theorem Device.InOrder.push {e : Entry} {rp : ℕ} (h : d.InOrder writes i)
    (hw : writes[k]? = some w) (he : e.Right writes i d.rp k w) (hrp : rp = d.rp + e.length)
    (hle : rp ≤ (stream writes).length) : Device.InOrder writes i ⟨rp, d.log ++ [(k, e)]⟩ := by
  refine ⟨?_, hle, every_concat.mpr ⟨h.right, w, hw, ?_⟩⟩
  · rw [hrp, ← h.stands]
    simp [total]
  · rwa [h.stands]

theorem Device.InOrder.mono (h : d.InOrder writes i) (w : Write ι) :
    d.InOrder (writes ++ [w]) i := by
  refine ⟨h.stands, ?_, fun before e after heq => ?_⟩
  · rw [stream_concat, length_append]
    exact h.within.trans (Nat.le_add_right _ _)
  · obtain ⟨w', hw', he⟩ := h.right before e after heq
    have hlt := (List.getElem?_eq_some_iff.mp hw').1
    refine ⟨w', by rw [getElem?_append_left hlt, hw'], ?_⟩
    obtain ⟨k, e⟩ := e
    cases e with
    | took bytes =>
      obtain ⟨hsecondary, hready, hbytes⟩ := he
      refine ⟨hsecondary, hready, ?_⟩
      rw [stream_concat, drop_append]
      exact hbytes.trans (prefix_append _ _)
    | behind n =>
      refine ⟨he.1, ?_⟩
      rw [take_append_of_le_length hlt.le]
      exact he.2
    | dropped n => exact he
    | straight bytes => exact he

theorem load_prefix (hbuf : Holds 0 buf S) {rp ret : ℕ} (hret : rp + ret ≤ S.length)
    (hlag : S.length ≤ rp + 8192) (hblock : rp % 8192 + ret ≤ 8192) :
    buf.load (rp % 8192) ret <+: S.drop rp := by
  have heq : buf.load (rp % 8192) ret = (S.drop rp).take ret := by
    apply ext_getElem (by simp; omega)
    intro i hi _
    rw [Memory.load_length] at hi
    have hk := hbuf (rp + i) (Nat.zero_le _) (by omega) (by omega)
    rw [getD_eq_getElem _ _ (by omega), show (rp + i) % 8192 = rp % 8192 + i by omega] at hk
    simp [Memory.load, hk]
  rw [heq]
  exact take_prefix _ _

namespace Device

section

variable (hw : writes[k]? = some w) (hsecondary : w.secondary = false)
  (htotal : (stream writes).length < 2 ^ 64)
include hw hsecondary htotal

theorem InOrder.took {bytes : List UInt8} {accepts : List ℕ} (h : d.InOrder writes i)
    (hready : w.answers i = .ready accepts) (hbytes : bytes <+: (stream writes).drop d.rp) :
    (d.took k bytes).InOrder writes i ∧ (d.took k bytes).rp = d.rp + bytes.length := by
  have hle : d.rp + bytes.length ≤ (stream writes).length := by
    have := hbytes.length_le
    have := h.within
    rw [length_drop] at *
    omega
  have hrp : (d.rp + bytes.length) % 2 ^ 64 = d.rp + bytes.length :=
    Nat.mod_eq_of_lt (hle.trans_lt htotal)
  exact ⟨h.push hw ⟨hsecondary, ⟨_, hready⟩, hbytes⟩ hrp (hrp.trans_le hle), hrp⟩

theorem flush_inOrder (hbuf : Holds 0 buf S) (hS : S <+: stream writes) {accepts' : List ℕ}
    (hready : w.answers i = .ready accepts') (accepts : List ℕ) (h : d.InOrder writes i)
    (hle : d.rp ≤ S.length) (hlag : S.length ≤ d.rp + 8192) :
    (d.flush k S.length buf accepts).1.InOrder writes i ∧
      ((d.flush k S.length buf accepts).2 ≠ none →
        (d.flush k S.length buf accepts).1.rp = S.length) := by
  fun_induction flush k S.length buf accepts d with
  | case1 d =>
    refine ⟨h, fun hsome => ?_⟩
    by_contra hne
    exact hsome (if_pos (lt_of_le_of_ne hle hne))
  | case2 => exact ⟨h, fun hsome => absurd rfl hsome⟩
  | case3 a accepts d hlt bufRp ret hret ih =>
    have hmod : bufRp < 8192 := Nat.mod_lt _ (by decide)
    have hleft : ret ≤ S.length - d.rp := (min_le_right _ _).trans (min_le_left _ _)
    have hblock : ret ≤ 8192 - bufRp := (min_le_right _ _).trans (min_le_right _ _)
    have hfirst : buf.load bufRp ret <+: S.drop d.rp :=
      load_prefix hbuf (by omega) hlag (show bufRp + ret ≤ 8192 by omega)
    have hdrop : S.drop d.rp <+: (stream writes).drop d.rp := by
      obtain ⟨rest, hrest⟩ := hS
      rw [← hrest, drop_append_of_le_length hle]
      exact prefix_append _ _
    obtain ⟨hnext, hrp⟩ := h.took hw hsecondary htotal hready (hfirst.trans hdrop)
    rw [Memory.load_length] at hrp
    exact ih hnext (by omega) (by omega)
  | case4 a accepts d hge => exact ⟨h, fun _ => le_antisymm hle (Nat.le_of_not_lt hge)⟩

theorem write_inOrder {accepts' : List ℕ} (hready : w.answers i = .ready accepts')
    (accepts : List ℕ) (h : d.InOrder writes i) (hdata : (stream writes).drop d.rp = data) :
    (d.write k accepts data).InOrder writes i := by
  induction accepts generalizing d data with
  | nil => exact h
  | cons a accepts ih =>
    rw [write]
    split
    · exact h
    · have hfirst : data.take (min a data.length) <+: (stream writes).drop d.rp :=
        hdata ▸ take_prefix _ _
      obtain ⟨hnext, hrp⟩ := h.took hw hsecondary htotal hready hfirst
      refine ih hnext ?_
      rw [hrp, length_take_of_le (min_le_right _ _), ← drop_drop, hdata]

end

theorem catchUp_inOrder (h : d.InOrder (writes ++ [w]) i) (hsecondary : w.secondary = false)
    (hle : d.rp ≤ (stream writes).length) :
    let d' := d.catchUp writes.length (stream writes).length
    d'.InOrder (writes ++ [w]) i ∧ d'.rp ≤ (stream writes).length ∧
      (stream writes).length ≤ d'.rp + 8192 := by
  have hbound := h.within
  rw [stream_concat, length_append] at hbound
  have hsize : consoleBufferSize = 8192 := rfl
  simp only [catchUp]
  split_ifs with hlong
  · have hright : (Entry.behind ((stream writes).length - consoleBufferSize - d.rp)).Right
        (writes ++ [w]) i d.rp writes.length w := by
      refine ⟨hsecondary, fun hn => ?_⟩
      rw [take_left]
      omega
    refine ⟨h.push (by simp) hright ?_ ?_, ?_⟩
    · rw [Entry.length]
      omega
    · rw [stream_concat, length_append]
      omega
    · show max _ _ ≤ _ ∧ _ ≤ max _ _ + 8192
      omega
  · exact ⟨h, hle, by omega⟩

theorem visit_inOrder (hbuf : Holds 0 buf (stream writes)) (h : d.InOrder writes i)
    (hsecondary : w.secondary = false) (htotal : (stream (writes ++ [w])).length < 2 ^ 64) :
    (d.visit writes.length (stream writes).length buf w.data (w.answers i)).InOrder
      (writes ++ [w]) i := by
  have hw : (writes ++ [w])[writes.length]? = some w := by simp
  have hstream : stream (writes ++ [w]) = stream writes ++ w.data := by
    simp [stream_concat, Write.buffered, hsecondary]
  cases hanswer : w.answers i with
  | unready => exact h.mono w
  | disabled =>
    have hle := h.within
    have hlen := congrArg length hstream
    rw [length_append] at hlen
    have hmod : ((stream writes).length + w.data.length) % 2 ^ 64 =
        (stream writes).length + w.data.length := Nat.mod_eq_of_lt (hlen ▸ htotal)
    refine (h.mono w).push hw ⟨hsecondary, hanswer⟩ ?_ (by omega)
    rw [hmod, Entry.length]
    omega
  | ready accepts =>
    obtain ⟨h', hle, hlag⟩ := catchUp_inOrder (h.mono w) hsecondary h.within
    obtain ⟨hflush, hdone⟩ := flush_inOrder hw hsecondary htotal hbuf
      (hstream ▸ prefix_append _ _) hanswer accepts h' hle hlag
    simp only [visit]
    split
    · rename_i heq
      rw [heq] at hflush
      exact hflush
    · rename_i heq
      rw [heq] at hflush hdone
      refine write_inOrder hw hsecondary htotal hanswer _ hflush ?_
      rw [hdone nofun, hstream, drop_left]

theorem straight_inOrder (h : d.InOrder writes i) (hsecondary : w.secondary = true) :
    (d.straight writes.length w.data (w.answers i)).InOrder (writes ++ [w]) i := by
  have hkeep := h.mono w
  rw [straight.eq_def]
  split
  · split
    · exact hkeep
    · exact hkeep.push (w := w) (by simp) hsecondary rfl hkeep.within
  · exact hkeep

end Device

theorem Holds.store (h : Holds lo buf S) (hblock : data.length ≤ 8192 - S.length % 8192) :
    Holds lo (buf.store (S.length % 8192) data) (S ++ data) := by
  intro k hlo hk hlag
  rw [length_append] at hk hlag
  by_cases hold : k < S.length
  · rw [Memory.store, if_neg (by omega), h k hlo hold (by omega), getD_append _ _ _ _ hold]
  · rw [Memory.store, if_pos (by omega), getD_append_right _ _ _ _ (by omega)]
    congr 1
    omega

theorem Holds.fill {S : List UInt8} {buf : Memory} (h : Holds lo buf S) (data : List UInt8)
    (htotal : S.length + data.length < 2 ^ 64) :
    Holds lo (fill S.length buf data) (S ++ data) := by
  rw [Iodev.fill]
  split
  · rename_i hnil
    rwa [hnil, append_nil]
  · rename_i hne
    have hpos := length_pos_iff.mpr hne
    simp only [consoleBufferSize]
    generalize hblock : min data.length (8192 - S.length % 8192) = block
    have hlen : (data.take block).length = block := by
      rw [length_take]
      omega
    have hstore := h.store (show (data.take block).length ≤ 8192 - S.length % 8192 by omega)
    have hnext := hstore.fill (data.drop block) (by rw [length_append, length_drop]; omega)
    rw [append_assoc, take_append_drop, length_append, hlen] at hnext
    rwa [Nat.mod_eq_of_lt (by omega)]
termination_by data.length
decreasing_by
  rw [length_drop]
  omega

structure Console.Inv (writes : List (Write ι)) (c : Console ι) : Prop where
  wp : c.wp = (stream writes).length
  buf : Holds 0 c.buf (stream writes)
  devices : ∀ i, (c.devices i).InOrder writes i
  writes : c.writes = writes.length

variable {c : Console ι}

theorem Holds.skip (h : Holds 0 buf S) (data : List UInt8)
    (htotal : S.length + data.length < 2 ^ 64) :
    Holds 0 (Iodev.fill ((S.length + (data.length - 8192)) % 2 ^ 64) buf
      (data.drop (data.length - 8192))) (S ++ data) := by
  generalize hskip : data.length - 8192 = skip
  have hlen : (S ++ data.take skip).length = S.length + skip := by
    rw [length_append, length_take]
    omega
  have hfill (lo : ℕ) (h : Holds lo buf (S ++ data.take skip)) :
      Holds lo (Iodev.fill ((S.length + skip) % 2 ^ 64) buf (data.drop skip)) (S ++ data) := by
    have hfill := h.fill (data.drop skip) (by rw [hlen, length_drop]; omega)
    rw [hlen, append_assoc, take_append_drop] at hfill
    rwa [Nat.mod_eq_of_lt (by omega)]
  by_cases hshort : skip = 0
  · subst hshort
    exact hfill 0 (by simpa using h)
  · -- What the buffer held is gone, and what is stored now fills it.
    intro k _ hk hlag
    refine hfill (S.length + skip) (fun k hk hlt => by omega) k ?_ hk hlag
    rw [length_append] at hlag
    omega

theorem Console.Inv.write (h : c.Inv writes) (uart : ι → Bool)
    (htotal : (stream (writes ++ [w])).length < 2 ^ 64) :
    (c.write uart w).Inv (writes ++ [w]) := by
  obtain ⟨hwp, hbuf, hdevices, hwrites⟩ := h
  have hstream : stream (writes ++ [w]) = stream writes ++ w.buffered := stream_concat
  rw [Console.write]
  split
  · rename_i hsecondary
    rw [Write.buffered, if_pos hsecondary, append_nil] at hstream
    refine ⟨by rw [hstream, hwp], by rwa [hstream], fun i => ?_, by simp [hwrites]⟩
    simp only [hwrites]
    split
    · exact Device.straight_inOrder (hdevices i) hsecondary
    · exact (hdevices i).mono w
  · rename_i hsecondary
    rw [Write.buffered, if_neg hsecondary] at hstream
    have hlen := htotal
    rw [hstream, length_append] at hlen
    refine ⟨?_, ?_, fun i => ?_, by simp [hwrites]⟩
    · rw [hstream, length_append, hwp, Nat.mod_eq_of_lt hlen]
    · rw [hstream, hwp]
      exact hbuf.skip w.data hlen
    · rw [hwp, hwrites]
      exact Device.visit_inOrder hbuf (hdevices i) (by simpa using hsecondary) htotal

/-- Every device takes the bytes that reach the buffer in order, each once, and passes over some
only while it is disabled or more than the buffer behind. -/
theorem run_devices_inOrder (uart : ι → Bool) (writes : List (Write ι))
    (htotal : (stream writes).length < 2 ^ 64) (i : ι) :
    ((Console.run uart writes).devices i).InOrder writes i := by
  suffices hrun : (Console.run uart writes).Inv writes from hrun.devices i
  induction writes using List.reverseRecOn with
  | nil => exact ⟨rfl, fun k _ hk => by simp [stream] at hk, fun _ => ⟨rfl, le_rfl, every_nil⟩, rfl⟩
  | append_singleton writes w ih =>
    have hle := htotal
    rw [stream_concat, length_append] at hle
    rw [Console.run, foldl_concat]
    exact (ih (by omega)).write uart htotal

/-- A device that takes one byte, is passed by, and is no console any more. -/
def threeWrites : List (Write Unit) :=
  [⟨false, [97, 98], fun _ => .ready [1]⟩, ⟨true, [99], fun _ => .ready [1, 1]⟩,
    ⟨false, [100], fun _ => .disabled⟩]

theorem run_devices_inOrder_threeWrites :
    ((Console.run (fun _ => true) threeWrites).devices ()).log =
      [(0, .took [97]), (1, .straight [42, 99]), (2, .dropped 2)] ∧
    ((Console.run (fun _ => true) threeWrites).devices ()).InOrder threeWrites () :=
  ⟨by decide, run_devices_inOrder _ threeWrites (by decide) ()⟩

def Device.accepted (d : Device) : List UInt8 :=
  d.log.flatMap fun e => match e.2 with
    | .took bytes | .straight bytes => bytes
    | _ => []

/-- A UART that was not ready for the first byte gets the second, of a secondary CPU, before it. -/
theorem run_secondary_overtakes :
    let writes : List (Write Unit) := [⟨false, [97], fun _ => .unready⟩,
      ⟨true, [98], fun _ => .ready [1, 1]⟩, ⟨false, [99], fun _ => .ready [1, 1]⟩]
    ¬((Console.run (fun _ => true) writes).devices ()).accepted.Sublist
      (writes.flatMap Write.data) := by
  simp [Console.run, Console.write, Device.visit, Device.straight, Device.catchUp, Device.flush,
    Device.write, Device.took, Device.accepted, fill, Memory.load, Memory.store, consoleBufferSize]
  decide

end Q1n1.Iodev
