import Mathlib.Tactic.Linarith

/-! # PM4 streams: `CS` of `a16gpu_p6p7.py` and the packet headers

A register argument is the list of its (offset, value) pairs; a call gives the words it adds. -/

namespace Q1n1.Adreno.Pm4

def pm4Parity (value : ℕ) : ℕ :=
  0x9669 >>> (0xF &&& (value ^^^ value >>> 4 ^^^ value >>> 8 ^^^ value >>> 12 ^^^
    value >>> 16 ^^^ value >>> 20 ^^^ value >>> 24 ^^^ value >>> 28)) &&& 1

def pkt7 (opcode count : ℕ) : ℕ :=
  0x70000000 ||| count ||| pm4Parity count <<< 15 ||| (opcode &&& 0x7F) <<< 16 |||
    pm4Parity opcode <<< 23

def pkt4Header (offset count : ℕ) : ℕ :=
  0x40000000 ||| count ||| pm4Parity count <<< 7 ||| (offset &&& 0x3FFFF) <<< 8 |||
    pm4Parity offset <<< 27

def cpContextRegBunch : ℕ := 92

def cpNonContextRegBunch : ℕ := 93

namespace CS

abbrev Regs := List (List (ℕ × ℤ))

def word (w : ℤ) : ℕ := (w % 2 ^ 32).toNat

def raw (words : List ℤ) : List ℕ := words.map word

def pkt7 (opcode : ℕ) (payload : List ℤ) : List ℕ :=
  raw (Pm4.pkt7 opcode payload.length :: payload)

def pkt4 (regs : Regs) : Option (List ℕ) :=
  let pairs := regs.flatten
  if (pairs.zip pairs.tail).any fun q => q.2.1 ≠ q.1.1 + 1 then none
  else pairs.head?.map fun p => raw (pkt4Header p.1 pairs.length :: pairs.map (·.2))

def bunch (regs : Regs) : List ℤ := regs.flatten.flatMap fun p => [(p.1 : ℤ), p.2]

def crb (regs : Regs) : List ℕ := pkt7 cpContextRegBunch (bunch regs)

def ncrb (regs : Regs) : List ℕ := pkt7 cpNonContextRegBunch (1 :: 0 :: bunch regs)

end CS

open CS in
inductive Call where
  | pkt7 (opcode : ℕ) (payload : List ℤ)
  | pkt4 (regs : Regs)
  | crb (regs : Regs)
  | ncrb (regs : Regs)

def Call.words : Call → Option (List ℕ)
  | .pkt7 opcode payload => some (CS.pkt7 opcode payload)
  | .pkt4 regs => CS.pkt4 regs
  | .crb regs => some (CS.crb regs)
  | .ncrb regs => some (CS.ncrb regs)

/-- `w` after the calls, `none` when one of them is refused. -/
def build : List Call → Option (List ℕ)
  | [] => some []
  | call :: calls => do return (← call.words) ++ (← build calls)

end Q1n1.Adreno.Pm4
