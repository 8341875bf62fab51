import Mathlib.Data.List.Basic
import Mathlib.Tactic.Ring

/-! # A transfer or command ring, and a controller that reads it

`platform/uefi/xhci.c`: `write_trb`, `ring_init` and `ring_push`. A push is the list of its
word stores in program order, so that a controller can look between any two of them. -/

namespace Q1n1.Xhci

def trbNormal : ℕ := 1
def trbSetup : ℕ := 2
def trbData : ℕ := 3
def trbStatus : ℕ := 4
def trbLink : ℕ := 6
def trbSize : ℕ := 16

inductive Word where
  | parameterLow | parameterHigh | status | control

/-- A TRB in memory, as four 32-bit words. -/
structure Trb where
  parameterLow : ℕ := 0
  parameterHigh : ℕ := 0
  status : ℕ := 0
  control : ℕ := 0

def Trb.set (t : Trb) (value : ℕ) : Word → Trb
  | .parameterLow => { t with parameterLow := value }
  | .parameterHigh => { t with parameterHigh := value }
  | .status => { t with status := value }
  | .control => { t with control := value }

def Trb.parameter (t : Trb) : ℕ := t.parameterLow + 2 ^ 32 * t.parameterHigh

def Trb.cycle (t : Trb) : Bool := t.control % 2 = 1

def Trb.type (t : Trb) : ℕ := t.control / 2 ^ 10 % 64

def Trb.toggles (t : Trb) : Bool := t.control / 2 % 2 = 1

def Trb.of (parameter status control : ℕ) : Trb where
  parameterLow := parameter % 2 ^ 32
  parameterHigh := parameter / 2 ^ 32 % 2 ^ 32
  status := status % 2 ^ 32
  control := control % 2 ^ 32

structure Store where
  slot : ℕ
  word : Word
  value : ℕ

abbrev Cells := ℕ → Trb

def Store.apply (cells : Cells) (w : Store) : Cells :=
  Function.update cells w.slot ((cells w.slot).set w.value w.word)

/-- The stores of `write_trb`; its barrier keeps the control word last. -/
def writeTrb (slot : ℕ) (t : Trb) : List Store :=
  [⟨slot, .parameterLow, t.parameterLow⟩, ⟨slot, .parameterHigh, t.parameterHigh⟩,
    ⟨slot, .status, t.status⟩, ⟨slot, .control, t.control⟩]

structure Ring where
  base : ℕ
  count : ℕ
  index : ℕ
  cycle : Bool

def Ring.link (ring : Ring) (cycle : Bool) : Trb :=
  Trb.of ring.base 0 (trbLink * 2 ^ 10 + 2 + cycle.toNat)

def Ring.init (base count : ℕ) : Ring × Cells :=
  let ring : Ring := { base, count, index := 0, cycle := true }
  (ring, (writeTrb (count - 1) (ring.link true)).foldl Store.apply fun _ => {})

/-- The arguments of a push. Every caller's control word names a type other than Link. -/
structure Submission where
  parameter : ℕ
  status : ℕ
  control : ℕ
  notLink : control / 2 ^ 10 % 64 ≠ trbLink

/-- The TRB a submission becomes: the cycle bit is the ring's. -/
def Submission.trb (s : Submission) (cycle : Bool) : Trb :=
  Trb.of s.parameter s.status (s.control / 2 * 2 + cycle.toNat)

def Ring.push (ring : Ring) (s : Submission) : Ring × List Store :=
  let stores := writeTrb ring.index (s.trb ring.cycle)
  if ring.index + 1 = ring.count - 1 then
    ({ ring with index := 0, cycle := !ring.cycle },
      stores ++ writeTrb (ring.count - 1) (ring.link ring.cycle))
  else ({ ring with index := ring.index + 1 }, stores)

/-! ## Producer and controller together -/

/-- Where the controller stands in the ring. -/
structure Dequeue where
  slot : ℕ := 0
  cycle : Bool := true

structure Machine where
  ring : Ring
  cells : Cells
  /-- the stores of the push under way that have not been made yet -/
  stores : List Store := []
  dequeue : Dequeue := {}
  pushed : List Submission := []
  consumed : List Trb := []

def Machine.init (base count : ℕ) : Machine where
  ring := (Ring.init base count).1
  cells := (Ring.init base count).2

def Machine.store (t : Machine) : Machine :=
  match t.stores with
  | [] => t
  | w :: stores => { t with cells := w.apply t.cells, stores }

def Machine.flush (t : Machine) : Machine :=
  { t with cells := t.stores.foldl Store.apply t.cells, stores := [] }

def Machine.push (t : Machine) (s : Submission) : Machine :=
  let (ring, stores) := t.ring.push s
  { t.flush with ring, stores, pushed := t.pushed ++ [s] }

/-- The controller looks at its next TRB: with the wrong cycle bit it waits, a Link TRB takes
it to its target, and any other is consumed. -/
def Machine.look (t : Machine) : Machine :=
  let trb := t.cells t.dequeue.slot
  if trb.cycle ≠ t.dequeue.cycle then t
  else if trb.type = trbLink then
    { t with dequeue := {
        slot := (trb.parameter - t.ring.base) / trbSize
        cycle := if trb.toggles then !t.dequeue.cycle else t.dequeue.cycle } }
  else
    { t with
      dequeue.slot := t.dequeue.slot + 1
      consumed := t.consumed ++ [trb] }

inductive Action where
  | push (s : Submission)
  | store
  | look

def Machine.step (t : Machine) : Action → Machine
  | .push s => t.push s
  | .store => t.store
  | .look => t.look

def Machine.run (t : Machine) (actions : List Action) : Machine := actions.foldl Machine.step t

def Machine.unconsumed (t : Machine) : ℕ := t.pushed.length - t.consumed.length

/-- The same, counting a Link TRB that the controller stands at. -/
def Machine.unpassed (t : Machine) : ℕ :=
  t.unconsumed + if t.dequeue.slot = t.ring.count - 1 then 1 else 0

end Q1n1.Xhci
