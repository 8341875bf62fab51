import Mathlib.Tactic.Linarith
import Q1n1.Model.Adreno.PageTables

/-! # Proving the GPU arena: `arena_prove` of `a16gpu_stage3.py`

The records it reads are arguments, and `claimed` is what the claim returned and left. -/

namespace Q1n1.Adreno.Arena

structure Span where
  base : ℕ
  size : ℕ

inductive EfiType where
  | conventional
  | loaderData
  | other (kind : ℕ)
  deriving DecidableEq

/-- An entry of the EFI memory map. -/
structure Descriptor extends Span where
  type : EfiType

/-- The regions of the boot information that have a base and a size. -/
structure Bootinfo where
  image : Span
  heap : Span
  dma : Span
  stage : Span
  fb : Span
  memoryMap : Span
  preload : Span
  gptSurvey : Span

structure GpuState where
  arena : Span
  arenaSource : ℕ

inductive Stop where
  | claimFailed (status : ℕ)
  | noArena
  | unfit
  | notGivenUp
  | notConventional
  | owned

def Span.meets (s t : Span) : Bool := s.base < t.base + t.size ∧ t.base < s.base + s.size

def covered (arena : Span) (hits : List Descriptor) : ℕ :=
  (hits.map fun r =>
    min (arena.base + arena.size) (r.base + r.size) - max arena.base r.base).sum

def Bootinfo.owned (info : Bootinfo) : List Span :=
  [info.image, info.heap, info.dma, info.stage, info.fb, info.memoryMap, info.preload]

def arenaProve (info : Bootinfo) (regions : List Descriptor) (claim : Bool)
    (published : GpuState) (claimed : ℕ × GpuState) : Except Stop GpuState :=
  let claims : Bool := published.arena.base = 0 ∧ claim
  let state := if claims then claimed.2 else published
  let hits := regions.filter (·.meets state.arena)
  if claims ∧ claimed.1 ≠ 0 then .error (.claimFailed claimed.1)
  else if state.arena.base = 0 then .error .noArena
  else if state.arena.size < arenaSize ∨ state.arena.base % 4096 ≠ 0 then .error .unfit
  else if (∃ r ∈ hits, ¬(r.type = .conventional ∨ r.type = .loaderData)) ∨
      covered state.arena hits < state.arena.size then .error .notGivenUp
  else if state.arenaSource = 2 ∧ ¬(hits ≠ [] ∧ ∀ r ∈ hits, r.type = .conventional) then
    .error .notConventional
  else if ∃ s ∈ info.owned, s.base ≠ 0 ∧ s.size ≠ 0 ∧ s.meets state.arena then .error .owned
  else .ok state

end Q1n1.Adreno.Arena
