import Mathlib.Data.List.Basic
import Q1n1.Model.Adreno.Pm4

/-! # PM4 streams parse back to the packets built -/

namespace Q1n1.Adreno.Pm4

open List

open CS (word raw bunch)

inductive Packet where
  | type7 (opcode : ℕ) (payload : List ℕ)
  | type4 (first : ℕ) (payload : List ℕ)

/-- A field and its parity bit have an odd number of ones. -/
def odd (field parity : ℕ) : Bool := ((List.range 32).countP field.testBit + parity) % 2 = 1

/-- The type of a header with its opcode or register, and its count, if the parities are right. -/
def readHeader (w : ℕ) : Option ((List ℕ → Packet) × ℕ) :=
  if w / 2 ^ 28 = 7 ∧ odd (w % 2 ^ 14) (w / 2 ^ 15 % 2) ∧
      odd (w / 2 ^ 16 % 2 ^ 7) (w / 2 ^ 23 % 2) then
    some (.type7 (w / 2 ^ 16 % 2 ^ 7), w % 2 ^ 14)
  else if w / 2 ^ 28 = 4 ∧ odd (w % 2 ^ 7) (w / 2 ^ 7 % 2) ∧
      odd (w / 2 ^ 8 % 2 ^ 18) (w / 2 ^ 27 % 2) then
    some (.type4 (w / 2 ^ 8 % 2 ^ 18), w % 2 ^ 7)
  else none

/-- At most `fuel` packets. -/
def parse : ℕ → List ℕ → Option (List Packet)
  | _, [] => some []
  | 0, _ => none
  | fuel + 1, header :: rest => (readHeader header).bind fun h =>
    if rest.length < h.2 then none
    else (parse fuel (rest.drop h.2)).map (h.1 (rest.take h.2) :: ·)

def Call.packet : Call → Packet
  | .pkt7 opcode payload => .type7 opcode (raw payload)
  | .pkt4 regs => .type4 (regs.flatten.headD (0, 0)).1 (raw (regs.flatten.map (·.2)))
  | .crb regs => .type7 cpContextRegBunch (raw (bunch regs))
  | .ncrb regs => .type7 cpNonContextRegBunch (raw (1 :: 0 :: bunch regs))

def Call.Fits : Call → Prop
  | .pkt7 opcode payload => opcode < 2 ^ 7 ∧ payload.length ≤ 16383
  | .pkt4 regs => (∀ p ∈ regs.flatten, p.1 < 2 ^ 18) ∧ regs.flatten.length ≤ 127
  | .crb regs => (bunch regs).length ≤ 16383
  | .ncrb regs => (1 :: 0 :: bunch regs).length ≤ 16383

theorem countP_mod_two (f : ℕ → Bool) (l : List ℕ) :
    l.countP f % 2 = (l.foldr (fun i b => f i ^^ b) false).toNat := by
  induction l with
  | nil => rfl
  | cons i l ih =>
    rw [countP_cons, Nat.add_mod, ih, foldr_cons]
    cases f i <;> cases l.foldr (fun i b => f i ^^ b) false <;> rfl

theorem table_eq : ∀ x < 16, 0x9669 >>> x &&& 1 =
    (!(x.testBit 0 ^^ x.testBit 1 ^^ x.testBit 2 ^^ x.testBit 3)).toNat := by
  decide

/-- The exclusive or of the nibbles of a word, which indexes the table. -/
def nibbles (v : ℕ) : ℕ := 0xF &&& (v ^^^ v >>> 4 ^^^ v >>> 8 ^^^ v >>> 12 ^^^ v >>> 16 ^^^
  v >>> 20 ^^^ v >>> 24 ^^^ v >>> 28)

theorem testBit_nibbles {i : ℕ} (hi : Nat.testBit 0xF i = true) (v : ℕ) : (nibbles v).testBit i =
    (v.testBit i ^^ v.testBit (4 + i) ^^ v.testBit (8 + i) ^^ v.testBit (12 + i) ^^
      v.testBit (16 + i) ^^ v.testBit (20 + i) ^^ v.testBit (24 + i) ^^ v.testBit (28 + i)) := by
  simp only [nibbles, Nat.testBit_and, Nat.testBit_xor, Nat.testBit_shiftRight, hi, Bool.true_and]

theorem odd_parity (v : ℕ) : odd v (pm4Parity v) = true := by
  -- Folding by nibbles takes the bits in this order; the sum modulo two is their exclusive or.
  have hperm : (List.range 32).Perm [0, 4, 8, 12, 16, 20, 24, 28, 1, 5, 9, 13, 17, 21, 25, 29,
    2, 6, 10, 14, 18, 22, 26, 30, 3, 7, 11, 15, 19, 23, 27, 31] := by decide
  have hparity := table_eq (nibbles v) (lt_of_le_of_lt Nat.and_le_left (by decide))
  rw [testBit_nibbles rfl, testBit_nibbles rfl, testBit_nibbles rfl, testBit_nibbles rfl] at hparity
  rw [odd, decide_eq_true_eq, Nat.add_mod, hperm.countP_eq, countP_mod_two,
    show pm4Parity v = _ from hparity]
  simp only [List.foldr, Bool.xor_assoc, Bool.xor_false, add_zero, Nat.reduceAdd]
  generalize (v.testBit 0 ^^ _) = b
  cases b <;> rfl

theorem parity_lt (v : ℕ) : pm4Parity v < 2 := by
  rw [pm4Parity, Nat.and_one_is_mod]
  omega

theorem fields_eq {t c p n q i j k : ℕ} (hc : c < 2 ^ i) (hp : p <<< i + c < 2 ^ j)
    (hn : n <<< j + (p <<< i + c) < 2 ^ k) (hq : q <<< k + (n <<< j + (p <<< i + c)) < 2 ^ 28) :
    t <<< 28 ||| c ||| p <<< i ||| n <<< j ||| q <<< k =
      t <<< 28 + (q <<< k + (n <<< j + (p <<< i + c))) := by
  rw [Nat.shiftLeft_add_eq_or_of_lt hq, Nat.shiftLeft_add_eq_or_of_lt hn,
    Nat.shiftLeft_add_eq_or_of_lt hp, Nat.shiftLeft_add_eq_or_of_lt hc]
  rw [Nat.or_comm (p <<< i), Nat.or_comm (n <<< j), Nat.or_comm (q <<< k)]
  simp only [Nat.or_assoc]

theorem word_of_lt {w : ℕ} (hw : w < 2 ^ 32) : word w = w := by
  rw [word]
  omega

theorem readHeader_pkt7 {opcode count : ℕ} (ho : opcode < 2 ^ 7) (hc : count ≤ 16383) :
    readHeader (word (pkt7 opcode count)) = some (.type7 opcode, count) := by
  have hp := parity_lt count
  have hq := parity_lt opcode
  have hmask : opcode &&& 0x7F = opcode := by
    rw [Nat.and_two_pow_sub_one_eq_mod opcode 7, Nat.mod_eq_of_lt ho]
  have heq : pkt7 opcode count = 7 <<< 28 + (pm4Parity opcode <<< 23 + (opcode <<< 16 +
      (pm4Parity count <<< 15 + count))) := by
    rw [pkt7, hmask]
    exact fields_eq (t := 7) (by omega) (by omega) (by omega) (by omega)
  generalize pkt7 opcode count = w at *
  rw [word_of_lt (by omega), readHeader, show w / 2 ^ 28 = 7 by omega,
    show w % 2 ^ 14 = count by omega, show w / 2 ^ 15 % 2 = pm4Parity count by omega,
    show w / 2 ^ 16 % 2 ^ 7 = opcode by omega, show w / 2 ^ 23 % 2 = pm4Parity opcode by omega]
  exact if_pos ⟨rfl, odd_parity _, odd_parity _⟩

theorem readHeader_pkt4Header {offset count : ℕ} (ho : offset < 2 ^ 18) (hc : count ≤ 127) :
    readHeader (word (pkt4Header offset count)) = some (.type4 offset, count) := by
  have hp := parity_lt count
  have hq := parity_lt offset
  have hmask : offset &&& 0x3FFFF = offset := by
    rw [Nat.and_two_pow_sub_one_eq_mod offset 18, Nat.mod_eq_of_lt ho]
  have heq : pkt4Header offset count = 4 <<< 28 + (pm4Parity offset <<< 27 + (offset <<< 8 +
      (pm4Parity count <<< 7 + count))) := by
    rw [pkt4Header, hmask]
    exact fields_eq (t := 4) (by omega) (by omega) (by omega) (by omega)
  generalize pkt4Header offset count = w at *
  rw [word_of_lt (by omega), readHeader, if_neg (by omega), show w / 2 ^ 28 = 4 by omega,
    show w % 2 ^ 7 = count by omega, show w / 2 ^ 7 % 2 = pm4Parity count by omega,
    show w / 2 ^ 8 % 2 ^ 18 = offset by omega, show w / 2 ^ 27 % 2 = pm4Parity offset by omega]
  exact if_pos ⟨rfl, odd_parity _, odd_parity _⟩

theorem parse_header {w : ℕ} {packet : List ℕ → Packet} {payload : List ℕ}
    (hw : readHeader w = some (packet, payload.length)) (fuel : ℕ) (rest : List ℕ) :
    parse (fuel + 1) (w :: payload ++ rest) = (parse fuel rest).map (packet payload :: ·) := by
  rw [cons_append, parse, hw, Option.bind_some, if_neg (by simp), drop_left,
    take_left]

theorem parse_pkt7 {opcode : ℕ} {payload : List ℤ} (ho : opcode < 2 ^ 7)
    (hc : payload.length ≤ 16383) (fuel : ℕ) (rest : List ℕ) :
    parse (fuel + 1) (CS.pkt7 opcode payload ++ rest) =
      (parse fuel rest).map (.type7 opcode (raw payload) :: ·) := by
  refine parse_header ?_ fuel rest
  rw [length_map, readHeader_pkt7 ho hc]

theorem Call.parse_words {call : Call} {words : List ℕ} (h : call.words = some words)
    (hfits : call.Fits) (fuel : ℕ) (rest : List ℕ) :
    parse (fuel + 1) (words ++ rest) = (parse fuel rest).map (call.packet :: ·) := by
  cases call with
  | pkt7 opcode payload =>
    obtain rfl := Option.some.inj h
    exact parse_pkt7 hfits.1 hfits.2 fuel rest
  | pkt4 regs =>
    obtain ⟨hoffset, hcount⟩ := hfits
    rw [Call.words, CS.pkt4] at h
    rw [Call.packet]
    split_ifs at h
    generalize regs.flatten = pairs at *
    cases pairs with
    | nil => simp at h
    | cons p pairs =>
      obtain rfl := Option.some.inj h
      refine parse_header ?_ fuel rest
      rw [length_map, length_map]
      exact readHeader_pkt4Header (hoffset p mem_cons_self) hcount
  | crb regs =>
    obtain rfl := Option.some.inj h
    exact parse_pkt7 (by decide) hfits fuel rest
  | ncrb regs =>
    obtain rfl := Option.some.inj h
    exact parse_pkt7 (by decide) hfits fuel rest

theorem parse_build {calls : List Call} {words : List ℕ} (h : build calls = some words)
    (hfits : ∀ call ∈ calls, call.Fits) :
    parse calls.length words = some (calls.map Call.packet) := by
  induction calls generalizing words with
  | nil =>
    obtain rfl := Option.some.inj h
    rfl
  | cons call calls ih =>
    obtain ⟨first, hfirst, h⟩ := Option.bind_eq_some_iff.mp h
    obtain ⟨rest, hrest, h⟩ := Option.bind_eq_some_iff.mp h
    obtain rfl := Option.some.inj h
    rw [length_cons, Call.parse_words hfirst (hfits call mem_cons_self),
      ih hrest fun c hc => hfits c (mem_cons_of_mem _ hc)]
    rfl

theorem parse_build_draw :
    let calls : List Call := [.pkt7 38 [], .pkt4 [[(0x8870, -1)]], .ncrb [[(0x9600, 1)]]]
    ∃ words, build calls = some words ∧ parse 3 words = some (calls.map Call.packet) := by
  intro calls
  have hbuild : build calls = some _ := rfl
  exact ⟨_, hbuild, parse_build hbuild (by simp [calls, Call.Fits, bunch])⟩

end Q1n1.Adreno.Pm4
