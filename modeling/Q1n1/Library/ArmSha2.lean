import Q1n1.Library.Sha256

/-! # Arm vector instructions for SHA-256

The register-to-register instructions of the SHA-256 extension and the few others a block
loop needs, on a file of 128-bit registers, after the pseudocode of the Arm architecture. -/

namespace Q1n1.Arm

open Sha256 (Word Hash)

/-- A vector register as four words, the lowest lane first. -/
@[ext] structure Vec where
  x₀ : Word
  x₁ : Word
  x₂ : Word
  x₃ : Word
deriving DecidableEq

namespace Vec

def add (x y : Vec) : Vec := ⟨x.x₀ + y.x₀, x.x₁ + y.x₁, x.x₂ + y.x₂, x.x₃ + y.x₃⟩

/-- Apply a function to every lane. -/
def map (f : Word → Word) (x : Vec) : Vec := ⟨f x.x₀, f x.x₁, f x.x₂, f x.x₃⟩

end Vec

/-! ## The instructions -/

def reverseBytes (w : Word) : Word :=
  w.extractLsb' 0 8 ++ w.extractLsb' 8 8 ++ w.extractLsb' 16 8 ++ w.extractLsb' 24 8

def shaChoose (x y z : Word) : Word := ((y ^^^ z) &&& x) ^^^ z

def shaMajority (x y z : Word) : Word := (x &&& y) ||| ((x ||| y) &&& z)

/-- One turn of the loop of `SHA256hash`, on `X` and `Y`: the top lanes are replaced, then
`Y:X` is rotated left by one lane. -/
def sha256hashTurn (xy : Vec × Vec) (w : Word) : Vec × Vec :=
  let x := xy.1
  let y := xy.2
  let chs := shaChoose y.x₀ y.x₁ y.x₂
  let maj := shaMajority x.x₀ x.x₁ x.x₂
  let t := y.x₃ + Sha256.bigSigma1 y.x₀ + chs + w
  (⟨t + Sha256.bigSigma0 x.x₀ + maj, x.x₀, x.x₁, x.x₂⟩, ⟨t + x.x₃, y.x₀, y.x₁, y.x₂⟩)

/-- `SHA256hash`, both halves. -/
def sha256hash (x y w : Vec) : Vec × Vec :=
  [w.x₀, w.x₁, w.x₂, w.x₃].foldl sha256hashTurn (x, y)

def sha256h (d n m : Vec) : Vec := (sha256hash d n m).1

def sha256h2 (d n m : Vec) : Vec := (sha256hash n d m).2

def sha256su0 (d n : Vec) : Vec :=
  ⟨Sha256.smallSigma0 d.x₁ + d.x₀, Sha256.smallSigma0 d.x₂ + d.x₁,
   Sha256.smallSigma0 d.x₃ + d.x₂, Sha256.smallSigma0 n.x₀ + d.x₃⟩

def sha256su1 (d n m : Vec) : Vec :=
  let r₀ := Sha256.smallSigma1 m.x₂ + d.x₀ + n.x₁
  let r₁ := Sha256.smallSigma1 m.x₃ + d.x₁ + n.x₂
  ⟨r₀, r₁, Sha256.smallSigma1 r₀ + d.x₂ + n.x₃, Sha256.smallSigma1 r₁ + d.x₃ + m.x₀⟩

/-! ## Programs -/

/-- Instructions by their register numbers, the destination first. -/
inductive Instr where
  | add (d n m : ℕ)
  | mov (d n : ℕ)
  | rev32 (d n : ℕ)
  | sha256h (d n m : ℕ)
  | sha256h2 (d n m : ℕ)
  | sha256su0 (d n : ℕ)
  | sha256su1 (d n m : ℕ)
deriving DecidableEq

abbrev Regs := ℕ → Vec

namespace Instr

def dest : Instr → ℕ
  | add d _ _ | mov d _ | rev32 d _ | sha256h d _ _ | sha256h2 d _ _ | sha256su0 d _
  | sha256su1 d _ _ => d

/-- What it writes there. -/
def value (v : Regs) : Instr → Vec
  | add _ n m => (v n).add (v m)
  | mov _ n => v n
  | rev32 _ n => (v n).map reverseBytes
  | sha256h d n m => Arm.sha256h (v d) (v n) (v m)
  | sha256h2 d n m => Arm.sha256h2 (v d) (v n) (v m)
  | sha256su0 d n => Arm.sha256su0 (v d) (v n)
  | sha256su1 d n m => Arm.sha256su1 (v d) (v n) (v m)

def exec (v : Regs) (i : Instr) : Regs := Function.update v i.dest (i.value v)

end Instr

def run (v : Regs) (program : List Instr) : Regs := program.foldl Instr.exec v

@[simp] theorem run_nil (v : Regs) : run v [] = v := rfl

@[simp] theorem run_cons (v : Regs) (i : Instr) (program : List Instr) :
    run v (i :: program) = run (i.exec v) program := rfl

theorem run_append (v : Regs) (p q : List Instr) : run v (p ++ q) = run (run v p) q :=
  List.foldl_append ..

/-! ## Four rounds and four schedule words at a time -/

/-- The working variables held in two registers. -/
def hashOf (x y : Vec) : Hash := ⟨x.x₀, x.x₁, x.x₂, x.x₃, y.x₀, y.x₁, y.x₂, y.x₃⟩

/-- The two registers that hold the working variables. -/
def vecsOf (s : Hash) : Vec × Vec := (⟨s.a, s.b, s.c, s.d⟩, ⟨s.e, s.f, s.g, s.h⟩)

theorem shaChoose_eq_ch (x y z : Word) : shaChoose x y z = Sha256.ch x y z := by
  ext i hi
  simp only [shaChoose, Sha256.ch, BitVec.getElem_xor, BitVec.getElem_and, BitVec.getElem_not]
  cases x[i] <;> cases y[i] <;> cases z[i] <;> rfl

theorem shaMajority_eq_maj (x y z : Word) : shaMajority x y z = Sha256.maj x y z := by
  ext i hi
  simp only [shaMajority, Sha256.maj, BitVec.getElem_xor, BitVec.getElem_and, BitVec.getElem_or]
  cases x[i] <;> cases y[i] <;> cases z[i] <;> rfl

theorem sha256hashTurn_eq_round (s : Hash) (w : Word) :
    sha256hashTurn (vecsOf s) w = vecsOf (Sha256.round s w) := by
  simp only [sha256hashTurn, vecsOf, Sha256.round, shaChoose_eq_ch, shaMajority_eq_maj,
    BitVec.add_assoc, BitVec.add_comm s.d]

theorem sha256hash_eq_rounds (s : Hash) (w : Vec) :
    sha256hash (vecsOf s).1 (vecsOf s).2 w =
      vecsOf ([w.x₀, w.x₁, w.x₂, w.x₃].foldl Sha256.round s) := by
  show [w.x₀, w.x₁, w.x₂, w.x₃].foldl sha256hashTurn (vecsOf s) = _
  induction [w.x₀, w.x₁, w.x₂, w.x₃] generalizing s with
  | nil => rfl
  | cons w ws ih => rw [List.foldl_cons, List.foldl_cons, sha256hashTurn_eq_round, ih]

def quad (w : ℕ → Word) (t : ℕ) : Vec := ⟨w t, w (t + 1), w (t + 2), w (t + 3)⟩

/-- The schedule instructions compute the next four words from the last sixteen. -/
theorem sha256su1_su0_schedule (block : List UInt8) (t : ℕ) :
    sha256su1 (sha256su0 (quad (Sha256.schedule block) t) (quad (Sha256.schedule block) (t + 4)))
      (quad (Sha256.schedule block) (t + 8)) (quad (Sha256.schedule block) (t + 12)) =
      quad (Sha256.schedule block) (t + 16) := by
  have h₀ := Sha256.schedule_add block t
  have h₁ := Sha256.schedule_add block (t + 1)
  have h₂ := Sha256.schedule_add block (t + 2)
  have h₃ := Sha256.schedule_add block (t + 3)
  simp only [Nat.add_assoc, Nat.reduceAdd] at h₀ h₁ h₂ h₃
  simp only [sha256su1, sha256su0, quad, Nat.add_assoc, Nat.reduceAdd, Vec.mk.injEq]
  have e₀ : Sha256.smallSigma1 (Sha256.schedule block (t + 14)) +
      (Sha256.smallSigma0 (Sha256.schedule block (t + 1)) + Sha256.schedule block t) +
      Sha256.schedule block (t + 9) = Sha256.schedule block (t + 16) := by
    rw [h₀]
    ac_rfl
  have e₁ : Sha256.smallSigma1 (Sha256.schedule block (t + 15)) +
      (Sha256.smallSigma0 (Sha256.schedule block (t + 2)) + Sha256.schedule block (t + 1)) +
      Sha256.schedule block (t + 10) = Sha256.schedule block (t + 17) := by
    rw [h₁]
    ac_rfl
  refine ⟨e₀, e₁, ?_, ?_⟩
  · rw [e₀, h₂]
    ac_rfl
  · rw [e₁, h₃]
    ac_rfl

end Q1n1.Arm
