import Q1n1.Model.Proxy.Serve

/-! # What a program of the proxy can do

A transport may answer a program as it likes: reads yield anything or nothing, and writes
may fail. An execution records what the program wrote and whether that went out. -/

namespace Q1n1.Proxy

/-- A write of a program, and whether the transport took it. -/
abbrev Written := List UInt8 × Bool

variable {W α β : Type}

inductive Prog.Exec : Prog W → List Written → After W → Prop where
  | finish (after : After W) : Exec (.finish after) [] after
  | readFull {n : ℕ} {k : Option (List UInt8) → Prog W} {out : List Written} {after : After W}
      (got : Option (List UInt8)) (h : Exec (k got) out after) : Exec (.readFull n k) out after
  | writeFull {bs : List UInt8} {k : Bool → Prog W} {out : List Written} {after : After W}
      (ok : Bool) (h : Exec (k ok) out after) : Exec (.writeFull bs k) ((bs, ok) :: out) after
  | poll {k : Prog W} {out : List Written} {after : After W} (h : Exec k out after) :
      Exec (.poll k) out after
  | checksumsOff {k : Bool → Prog W} {out : List Written} {after : After W} (off : Bool)
      (h : Exec (k off) out after) : Exec (.checksumsOff k) out after
  | setChecksumsOff {off : Bool} {k : Prog W} {out : List Written} {after : After W}
      (h : Exec k out after) : Exec (.setChecksumsOff off k) out after
  | call {w : W} {k : W → Prog W} {out : List Written} {after : After W}
      (h : Exec (k w) out after) : Exec (.call w k) out after

/-- Started in `w`, the program reboots the machine, or comes to a result, a state and writes
that satisfy `R`. -/
def Does (f : Serve W α) (w : W) (R : α → W → List Written → Prop) : Prop :=
  ∀ k out after, Prog.Exec (f w k) out after → after = .reboot ∨
    ∃ x w' o o', R x w' o ∧ Prog.Exec (k x w') o' after ∧ out = o ++ o'

variable {f : Serve W α} {w : W} {R S : α → W → List Written → Prop}

theorem Does.mono (h : Does f w R) (hRS : ∀ x w' o, R x w' o → S x w' o) : Does f w S := by
  intro k out after hexec
  rcases h k out after hexec with hreboot | ⟨x, w', o, o', hR, hrest, hout⟩
  · exact .inl hreboot
  · exact .inr ⟨x, w', o, o', hRS x w' o hR, hrest, hout⟩

theorem Does.pure {x : α} (h : R x w []) : Does (Pure.pure x) w R := by
  intro k out after hexec
  exact .inr ⟨x, w, [], out, h, hexec, rfl⟩

variable {g : α → Serve W β}

theorem Does.pure_bind {x : α} {S : β → W → List Written → Prop} (h : Does (g x) w S) :
    Does (Pure.pure x >>= g) w S :=
  h

theorem Does.bind {S : β → W → List Written → Prop} (hf : Does f w R)
    (hg : ∀ x w' o, R x w' o → Does (g x) w' fun y w'' o' => S y w'' (o ++ o')) :
    Does (f >>= g) w S := by
  intro k out after hexec
  rcases hf _ out after hexec with hreboot | ⟨x, w', o, o', hR, hrest, rfl⟩
  · exact .inl hreboot
  · rcases hg x w' o hR k o' after hrest with hreboot | ⟨y, w'', o₁, o₂, hS, hlast, rfl⟩
    · exact .inl hreboot
    · exact .inr ⟨y, w'', o ++ o₁, o₂, hS, hlast, by rw [List.append_assoc]⟩

theorem Does.reboot : Does (fun _ _ => .finish .reboot) w R := by
  intro k out after hexec
  cases hexec
  exact .inl rfl

theorem Does.of {x : StateM W α} (h : R (x w).1 (x w).2 []) : Does (Serve.of x) w R := by
  intro k out after hexec
  exact .inr ⟨_, _, [], out, h, hexec, rfl⟩

variable {T : β → W → List Written → Prop}

theorem Does.of_bind {x : StateM W α} (h : Does (g (x w).1) (x w).2 T) :
    Does (Serve.of x >>= g) w T :=
  h

theorem Does.readFull_bind {n : ℕ} {g : Option (List UInt8) → Serve W β}
    (h : ∀ got, Does (g got) w T) : Does (readFull n >>= g) w T := by
  intro k out after hexec
  cases hexec with
  | readFull got hrest => exact h got k out after hrest

variable {g : Bool → Serve W β}

theorem Does.writeFull_bind {bs : List UInt8}
    (h : ∀ ok, Does (g ok) w fun y w' o => T y w' ((bs, ok) :: o)) :
    Does (writeFull bs >>= g) w T := by
  intro k out after hexec
  cases hexec with
  | writeFull ok hrest =>
    rcases h ok k _ after hrest with hreboot | ⟨y, w', o, o', hT, hlast, rfl⟩
    · exact .inl hreboot
    · exact .inr ⟨y, w', (bs, ok) :: o, o', hT, hlast, rfl⟩

theorem Does.sendReply_bind {type : ℕ} {status : Int} {data : List UInt8}
    (h : ∀ ok, Does (g ok) w fun y w' o => T y w' ((replyBytes type status data, ok) :: o)) :
    Does (sendReply type status data >>= g) w T :=
  Does.writeFull_bind h

theorem Does.checksumsOff_bind (h : ∀ off, Does (g off) w T) : Does (checksumsOff >>= g) w T := by
  intro k out after hexec
  cases hexec with
  | checksumsOff off hrest => exact h off k out after hrest

theorem Does.setChecksumsOff_bind {off : Bool} {g : Unit → Serve W β} (h : Does (g ()) w T) :
    Does (setChecksumsOff off >>= g) w T := by
  intro k out after hexec
  cases hexec with
  | setChecksumsOff hrest => exact h k out after hrest

theorem Does.enterCall_bind {g : Unit → Serve W β} (h : Does (g ()) w T) :
    Does (enterCall >>= g) w T := by
  intro k out after hexec
  cases hexec with
  | call hrest => exact h k out after hrest

theorem Does.pollTimes {R : Unit → W → List Written → Prop} (n : ℕ) (h : R () w []) :
    Does (Proxy.pollTimes n) w R := by
  induction n with
  | zero => exact Does.pure h
  | succ n ih =>
    intro k out after hexec
    cases hexec with
    | poll hrest => exact ih k out after hrest

end Q1n1.Proxy
