import Q1n1.Model.BootWindow.Window

/-! # When BootNext is left set -/

namespace Q1n1.BootWindow

/-! ## What is to be kept -/

def Access.ok : Access → Bool
  | .write _ => true
  | .readBack confirmed => confirmed
  | .remove status => status = 0

/-- Every read-back confirmed the write before it, and every removal succeeded. -/
def Clean (w : World) : Prop := ∀ a ∈ w.accesses, a.ok = true

/-- Nothing is armed and nothing of the window's is left. -/
structure Fresh (w : World) : Prop where
  unarmed : w.result.returnArmed = false
  notLeft : w.bootNext ≠ .window
  clean : Clean w

def Choice.leaves : Choice → Bool
  | .windows => true
  | .shell => true
  | _ => false

/-- What holds once `BootNext` may have been written. -/
structure Accounted (w : World) : Prop where
  armed : w.result.returnArmed = true → w.bootNext = .window ∧ Clean w
  unarmed : w.result.returnArmed = false → (w.bootNext ≠ .window ↔ Clean w)
  stays : w.result.returnArmed = true → w.result.choice.leaves = false

variable {w : World}

theorem Fresh.accounted (h : Fresh w) : Accounted w := by
  refine ⟨?_, fun _ => iff_of_true h.notLeft h.clean, ?_⟩
  · intro harmed
    rw [h.unarmed] at harmed
    cases harmed
  · intro harmed
    rw [h.unarmed] at harmed
    cases harmed

theorem clean_concat {w' : World} {a : Access} (h : w'.accesses = w.accesses ++ [a]) :
    Clean w' ↔ Clean w ∧ a.ok = true := by
  simp only [Clean, h, List.mem_append, List.mem_singleton]
  constructor
  · intro hall
    exact ⟨fun b hb => hall b (.inl hb), hall a (.inr rfl)⟩
  · rintro ⟨hall, ha⟩ b (hb | rfl)
    · exact hall b hb
    · exact ha

/-- What `arm_return` does where nothing was left: it reports success exactly when it left the
window's value and read it back. -/
structure Arms (w : World) (r : Status × World) : Prop where
  result : r.2.result = w.result
  success : r.1 = 0 → r.2.bootNext = .window ∧ Clean r.2
  failure : r.1 ≠ 0 → (r.2.bootNext ≠ .window ↔ Clean r.2)

theorem armReturn_arms (h : Fresh w) (number : ℕ) : Arms w (armReturn number w) := by
  rw [armReturn]
  simp only [World.writeBootNext, World.get]
  by_cases hwrite : w.setVariable w.sets = 0
  · simp only [hwrite, ne_eq, not_true_eq_false, if_false, if_true]
    have hclean (confirmed : Bool) (w' : World)
        (hw' : w'.accesses = w.accesses ++ [.write 0] ++ [.readBack confirmed]) :
        Clean w' ↔ confirmed = true := by
      simp only [Clean, hw', List.mem_append, List.mem_singleton]
      constructor
      · intro hall
        exact hall _ (.inr rfl)
      · rintro hconfirmed a ((ha | rfl) | rfl)
        · exact h.clean a ha
        · rfl
        · exact hconfirmed
    by_cases hread : (w.getVariable w.gets).status = 0
    · rw [if_neg (by simpa using hread)]
      refine ⟨rfl, fun hstatus => ⟨rfl, (hclean _ _ rfl).mpr ?_⟩, fun hstatus => ?_⟩
      · by_contra hnot
        have hunsupported : efiUnsupported = 0 := (if_neg hnot).symm.trans hstatus
        exact absurd hunsupported (by decide)
      · refine iff_of_false (by simp) fun hok => hstatus ?_
        exact if_pos ((hclean _ _ rfl).mp hok)
    · rw [if_pos hread]
      refine ⟨rfl, fun hstatus => absurd hstatus hread, fun _ => ?_⟩
      refine iff_of_false (by simp) fun hok => ?_
      have hconfirmed := (hclean _ _ rfl).mp hok
      simp [hread] at hconfirmed
  · simp only [hwrite, ne_eq, not_false_eq_true, if_true, if_false]
    refine ⟨rfl, fun hstatus => absurd hstatus hwrite, fun _ => iff_of_true h.notLeft ?_⟩
    exact (clean_concat rfl).mpr ⟨h.clean, rfl⟩

theorem arm_accounted (h : Fresh w) (hchoice : w.result.choice.leaves = false) :
    Accounted (arm w) := by
  rw [arm]
  by_cases hentry : w.result.entryStatus = 0
  · rw [if_neg (by simpa using hentry)]
    have harms := armReturn_arms h w.result.bootCurrent
    generalize armReturn w.result.bootCurrent w = r at harms
    obtain ⟨status, w'⟩ := r
    refine ⟨fun harmed => harms.success (of_decide_eq_true harmed),
      fun hunarmed => harms.failure (of_decide_eq_false hunarmed), fun _ => ?_⟩
    show w'.result.choice.leaves = false
    rw [harms.result, hchoice]
  · rw [if_pos hentry]
    refine ⟨fun harmed => absurd (of_decide_eq_true harmed) hentry,
      fun _ => iff_of_true h.notLeft h.clean, fun _ => hchoice⟩

/-- Nothing is claimed to be armed, and what is left tells whether all went well. -/
structure Disarmed (w : World) : Prop where
  unarmed : w.result.returnArmed = false
  left : w.bootNext ≠ .window ↔ Clean w

theorem Disarmed.accounted (h : Disarmed w) : Accounted w := by
  refine ⟨?_, fun _ => h.left, ?_⟩
  · intro harmed
    rw [h.unarmed] at harmed
    cases harmed
  · intro harmed
    rw [h.unarmed] at harmed
    cases harmed

theorem disarm_disarmed (h : Accounted w) : Disarmed (disarm w) := by
  rw [disarm]
  cases harmed : w.result.returnArmed with
  | false => exact ⟨rfl, h.unarmed harmed⟩
  | true =>
    obtain ⟨hleft, hclean⟩ := h.armed harmed
    refine ⟨rfl, ?_⟩
    have hremoved : Clean w.removeBootNext ↔ w.setVariable w.sets = 0 := by
      rw [clean_concat (w := w) rfl]
      simp [hclean, Access.ok]
    rw [if_pos rfl]
    show w.removeBootNext.bootNext ≠ .window ↔ Clean w.removeBootNext
    rw [hremoved]
    by_cases hstatus : w.setVariable w.sets = 0
    · simp [World.removeBootNext, hstatus]
    · simp [World.removeBootNext, hstatus, hleft]

theorem Fresh.disarm (h : Fresh w) : Fresh (disarm w) := by
  rw [BootWindow.disarm, if_neg (by simp [h.unarmed])]
  exact ⟨rfl, h.notLeft, h.clean⟩

/-! ## The loop -/

/-- The loop arms at most once, when a choice is made. -/
structure Loop.Inv (s : Loop) (w : World) : Prop where
  before : s.drain = none → s.chose = false ∧ Fresh w
  behind : s.drain ≠ none → s.chose = true ∧ Accounted w

/-- Nothing has been armed, and nothing is on its way out. -/
structure Waiting (r : Loop × World) : Prop where
  fresh : Fresh r.2
  drain : r.1.drain = none

variable {s : Loop}

theorem Loop.obey_waiting (h : Waiting (s, w)) (command : Option Command) :
    Waiting (s.obey w command) := by
  have hchoose (choice : Choice) (arm : Bool) : Waiting (s.choose choice arm w) :=
    ⟨{ h.fresh with }, h.drain⟩
  cases command with
  | none => exact h
  | some command =>
    cases command with
    | proxy => exact hchoose _ _
    | proxyOnce => exact hchoose _ _
    | windows => exact hchoose _ _
    | shell => exact hchoose _ _
    | hold => exact ⟨h.fresh, h.drain⟩
    | other => exact h

theorem Loop.timeout_waiting (h : Waiting (s, w)) (automatic : Bool) (t : Turn) :
    Waiting (s.timeout automatic t w) := by
  rw [Loop.timeout]
  split
  · exact ⟨{ h.fresh with }, h.drain⟩
  · exact h

theorem Accounted.setConfigured (h : Accounted w) (configured : Bool) :
    Accounted (w.onResult fun r => { r with configured }) :=
  { h with }

theorem Fresh.setChoice (h : Fresh w) (choice : Choice) :
    Fresh (w.onResult fun r => { r with choice }) :=
  { h with }

theorem armIf_accounted (h : Fresh w) (wanted : Bool) :
    Accounted (if (wanted && (decide (w.result.choice = .proxy) ||
      decide (w.result.choice = .proxyNcm))) = true then arm w else w) := by
  split
  · rename_i hwanted
    simp only [Bool.and_eq_true, Bool.or_eq_true, decide_eq_true_eq] at hwanted
    apply arm_accounted h
    rcases hwanted.2 with hchoice | hchoice
    · rw [hchoice]
      rfl
    · rw [hchoice]
      rfl
  · exact h.accounted

theorem Loop.settle_accounted {hz : ℕ} {t : Turn} (h : Fresh w) :
    Accounted (s.settle hz t w).2 := by
  have hshell : Fresh (if (decide (w.result.choice = .proxy) && !t.configured) = true then
      w.onResult fun r => { r with choice := .shell } else w) := by
    split
    · exact h.setChoice .shell
    · exact h
  exact (armIf_accounted hshell _).setConfigured t.configured

/-- What the loop leaves behind. -/
structure Looped (s : Loop) (w : World) : Prop where
  accounted : Accounted w
  fresh : s.chose = false → Fresh w

theorem Loop.Inv.looped (h : s.Inv w) : Looped s w := by
  by_cases hdrain : s.drain = none
  · obtain ⟨-, hfresh⟩ := h.before hdrain
    exact ⟨hfresh.accounted, fun _ => hfresh⟩
  · obtain ⟨hchose, haccounted⟩ := h.behind hdrain
    refine ⟨haccounted, fun hnot => ?_⟩
    rw [hchose] at hnot
    cases hnot

theorem loop_looped {automatic : Bool} {hz : ℕ} {turns : List Turn} {s' : Loop} {w' : World}
    {status : Status} (h : s.Inv w) (hloop : loop automatic hz turns s w = some (status, s', w')) :
    Looped s' w' := by
  induction turns generalizing s w with
  | nil => cases hloop
  | cons t rest ih =>
    have hs : Loop.Inv { s with configured := t.configured } w := ⟨h.before, h.behind⟩
    rw [loop] at hloop
    split at hloop
    · cases hloop
      exact hs.looped
    split at hloop
    · split at hloop
      · cases hloop
        exact hs.looped
      · exact ih hs hloop
    · rename_i hdrain
      obtain ⟨-, hfresh⟩ := hs.before hdrain
      have hobeyed := Loop.obey_waiting
        (s := Loop.extend hz t { s with configured := t.configured }) ⟨hfresh, hdrain⟩ t.command
      generalize Loop.obey _ w t.command = r at hloop hobeyed
      obtain ⟨s₁, w₁⟩ := r
      have hwaiting := Loop.timeout_waiting hobeyed automatic t
      dsimp only at hloop
      generalize s₁.timeout automatic t w₁ = r at hloop hwaiting
      obtain ⟨s₂, w₂⟩ := r
      split at hloop
      · refine ih ⟨?_, fun _ => ⟨?_, Loop.settle_accounted hwaiting.fresh⟩⟩ hloop
        · intro hnone
          cases hnone
        · assumption
      · rename_i hnot
        refine ih ⟨fun _ => ⟨by simpa using hnot, hwaiting.fresh⟩, fun hsome => ?_⟩ hloop
        exact absurd hwaiting.drain hsome

/-! ## The window -/

/-- How the window returns. -/
structure Returned (r : Status × World) : Prop where
  accounted : Accounted r.2
  failure : r.1 ≠ 0 → r.2.result.returnArmed = false

theorem Fresh.returned (h : Fresh w) (status : Status) : Returned (status, w) :=
  ⟨h.accounted, fun _ => h.unarmed⟩

theorem usb0Unavailable_returned (e : Env) (why : Status) (h : Fresh w) :
    Returned (usb0Unavailable e why w) := by
  rw [usb0Unavailable]
  split
  · exact h.returned _
  split
  · rename_i choice _
    exact (h.setChoice choice).returned 0
  · exact ⟨arm_accounted (h.setChoice .proxyNcm) rfl, fun hstatus => absurd rfl hstatus⟩

theorem finish_returned {e : Env} {status : Status} {r : Status × World} (h : Looped s w)
    (hfinish : finish e status s w = some r) : Returned r := by
  have hdisarmed (status : Status) : Returned (status, disarm w) :=
    ⟨(disarm_disarmed h.accounted).accounted, fun _ => (disarm_disarmed h.accounted).unarmed⟩
  have hchosen : Returned (0, w) := ⟨h.accounted, fun hstatus => absurd rfl hstatus⟩
  rw [finish] at hfinish
  split at hfinish
  · cases hfinish
  split at hfinish
  · dsimp only at hfinish
    split at hfinish
    · rename_i hfailed
      simp only [Bool.and_eq_true, Bool.not_eq_true'] at hfailed
      cases hfinish
      exact usb0Unavailable_returned e status (h.fresh hfailed.1.1.2).disarm
    · cases hfinish
      exact hdisarmed _
  split at hfinish
  · cases hfinish
    exact hchosen
  split at hfinish
  · cases hfinish
    exact hchosen
  · cases hfinish
    exact hdisarmed _

theorem shellEntry_fresh (h : Fresh w) : Fresh (shellEntry w).2.2 := by
  have hget {w : World} (h : Fresh w) : Fresh w.get.2 := { h with }
  rw [shellEntry]
  dsimp only
  split
  · exact hget h
  split
  · exact hget h
  split
  · exact hget (hget h)
  split
  · exact hget (hget h)
  · exact hget (hget h)

theorem bootWindow_returned {e : Env} {r : Status × World} (h : Fresh w)
    (hreturn : bootWindow e w = some r) : Returned r := by
  have hstart : Fresh (w.onResult fun _ => {}) := ⟨rfl, h.notLeft, h.clean⟩
  rw [bootWindow] at hreturn
  generalize w.onResult _ = w₀ at hstart hreturn
  dsimp only at hreturn
  split at hreturn
  · cases hreturn
    exact hstart.returned _
  have hentry := shellEntry_fresh hstart
  have hknown : Fresh ((shellEntry w₀).2.2.onResult fun r =>
      { r with entryStatus := (shellEntry w₀).1, bootCurrent := (shellEntry w₀).2.1 }) :=
    { hentry with }
  generalize (shellEntry w₀).2.2.onResult _ = w₁ at hknown hreturn
  have hlooped (s : Loop) : Looped s w₁ := ⟨hknown.accounted, fun _ => hknown⟩
  split at hreturn
  · cases hreturn
    exact hknown.returned _
  split at hreturn
  · cases hreturn
    exact usb0Unavailable_returned e _ hknown
  split at hreturn
  · cases hreturn
    exact hknown.returned _
  split at hreturn
  · exact finish_returned (hlooped _) hreturn
  split at hreturn
  · exact finish_returned (hlooped _) hreturn
  split at hreturn
  · cases hreturn
  · rename_i hloop
    exact finish_returned (loop_looped ⟨fun _ => ⟨rfl, hknown⟩, fun hsome => absurd rfl hsome⟩
      hloop) hreturn

/-- Whenever the window returns without a return armed, or on its way out of q1n1, or with an
error, then nothing of its own is left in `BootNext` exactly if every read-back confirmed what
had been written and every removal succeeded. -/
theorem bootWindow_bootNext (e : Env) (getVariable : ℕ → Answer) (setVariable : ℕ → Status)
    {status : Status} {w : World}
    (hreturn : bootWindow e { getVariable, setVariable } = some (status, w))
    (hleft : w.result.returnArmed = false ∨ w.result.choice.leaves = true ∨ status ≠ 0) :
    w.bootNext ≠ .window ↔ Clean w := by
  have hfresh : Fresh { getVariable, setVariable } := ⟨rfl, by simp, by simp [Clean]⟩
  have hreturned := bootWindow_returned hfresh hreturn
  apply hreturned.accounted.unarmed
  rcases hleft with hunarmed | hleaves | hfailed
  · exact hunarmed
  · by_contra harmed
    have hstays := hreturned.accounted.stays (by simpa using harmed)
    rw [hleaves] at hstays
    cases hstays
  · exact hreturned.failure hfailed

/-! A machine without a usable USB0, whose shell entry can be armed. -/

def samplePath : List UInt8 :=
  [4, 4, 52, 0] ++ (shellPath.flatMap fun c => [c, 0]) ++ [0, 0] ++ [0x7f, 0xff, 4, 0]

def sampleOption : List UInt8 :=
  [1, 0, 0, 0, 56, 0] ++ (shellDescription.flatMap fun c => [UInt8.ofNat c, 0]) ++ samplePath

/-- Writes succeed; what is read back is as given. -/
def sampleWorld (readBack : Answer) : World where
  getVariable n := if n = 0 then ⟨0, [3, 0]⟩ else if n = 1 then ⟨0, sampleOption⟩ else readBack
  setVariable _ := 0

def sampleEnv (prepareStatus : Status) (turns : List Turn) : Env where
  automatic := true
  hasRuntimeServices := true
  configTableOk := true
  prepareStatus := prepareStatus
  functionDriverOk := true
  initStatus := 0
  started := true
  hz := 1
  startTicks := 0
  turns := turns
  setups := 1
  stopStatus := 0
  keys := []
  idRunning := 0
  idStopped := 0
  gctl := 0
  hsPhyCtrl := 0

/-- What is seen of a window that returned. -/
def seen (r : Option (Status × World)) : Option (Status × Bool × Holder × List Access) :=
  r.map fun (status, w) => (status, w.result.returnArmed, w.bootNext, w.accesses)

/-- USB0 is unavailable and the read-back fails: nothing is reported as armed, and `BootNext`
stays set. -/
theorem bootWindow_leaves_bootNext :
    seen (bootWindow (sampleEnv 1 []) (sampleWorld ⟨1, []⟩)) =
      some (0, false, .window, [.write 0, .readBack false]) := by
  decide +kernel

/-- A host asks for the proxy, and then the port fails. -/
def failingTurns : List Turn :=
  [⟨1, 0, true, 6, true, false, some "proxy", none⟩, ⟨2, 5, true, 6, true, false, none, none⟩]

theorem bootWindow_bootNext_failing : ∃ w,
    bootWindow (sampleEnv 0 failingTurns) (sampleWorld ⟨0, [3, 0]⟩) = some (5, w) ∧
      Clean w ∧ w.bootNext ≠ .window := by
  have hseen : seen (bootWindow (sampleEnv 0 failingTurns) (sampleWorld ⟨0, [3, 0]⟩)) =
      some (5, false, .removed, [.write 0, .readBack true, .remove 0]) := by
    decide +kernel
  obtain ⟨⟨status, w⟩, hreturn, hparts⟩ := Option.map_eq_some_iff.mp hseen
  obtain ⟨rfl, hrest⟩ := Prod.mk.inj hparts
  obtain ⟨hunarmed, hrest⟩ := Prod.mk.inj hrest
  have haccesses := (Prod.mk.inj hrest).2
  have hclean : Clean w := by
    rw [Clean, haccesses]
    decide
  exact ⟨w, hreturn, hclean, (bootWindow_bootNext _ _ _ hreturn (.inl hunarmed)).mpr hclean⟩

end Q1n1.BootWindow
