import Q1n1.Model.Pmic.Wire

/-! # The owed replies that a chainloaded stage adopts

`platform/uefi/live-battery.c` around the router: from the bind on, without the values it reports.
What is checked before, and the operations of the session that the router does not use, are up to
the surroundings. A tick that comes while a call runs does nothing. -/

namespace Q1n1.LiveBattery

open Pmic

def serviceUs : ℕ := 20000
def refreshUs : ℕ := 30000000
def serviceFrames : ℕ := 16

/-- The session under the router. -/
structure Session where
  world : World
  started : Wire → Bool
  check : Cut Wire Bool
  release : (deadline : ℕ) → Cut Wire Unit
  /-- whether it succeeded, as for `waitReady` -/
  restart : Cut Wire Bool
  waitReady : (deadline : ℕ) → Cut Wire Bool

structure Flags where
  survey : Bool := false
  release : Bool := false
  restart : Bool := false
  noRestart : Bool := false
  resume : Bool := false
  ucsiVersion : Bool := false
  refreshOn : Bool := false
  refreshOff : Bool := false

/-- What a call finds: whether a check before the bind ends it, whether the bind succeeds and the
record names the same items, and whether the checks before a restart pass. -/
structure Findings where
  deadline : ℕ
  ends : Bool := false
  view : Bool := true
  same : Bool := true
  mayRestart : Bool := true

/-- The statics: the router with its link, `router.glink`, `glink.desc`, `client_carry`. -/
structure Live where
  client : Client Wire
  attached : Bool := false
  bound : Bool := false
  carry : ℕ × ℕ := (0, 0)
  refresh : Bool := false
  lastServiceUs : ℕ := 0
  lastRefreshUs : ℕ := 0
  resumeTried : Bool := false

def onClient {α : Type} (m : Cut (Client Wire) α) : Cut Live α := fun s =>
  ((m s.client).1, { s with client := (m s.client).2 })

variable (g : Session)

def onSession {α : Type} (m : Cut Wire α) : Cut Live α := onClient (onLink g.world.ops m)

/-- Steps 10 to 12 of `run`. -/
def readOut (f : Flags) (deadline : ℕ) : Cut Live Unit := do
  if f.resume then
    let _ ← onSession g (g.world.service serviceFrames)
  else
    let ready ← onSession g (g.waitReady deadline)
    if !ready then return
    else if f.ucsiVersion then
      let _ ← onClient (Pmic.read g.world.ops ucsiVersion 4 deadline)
    else
      let _ ← onClient (battery g.world.ops deadline)

/-- `run` from step 9 on. -/
def runSession (f : Flags) (x : Findings) : Cut Live Unit := do
  let s ← Cut.get
  Cut.modify fun s => { s with attached := true }
  let continued ← onSession g (if f.restart then pure false else g.check)
  if f.release then
    if continued then onSession g (g.release x.deadline) else return
  else if continued then
    -- replies owed to the requests of the stage before
    onClient (modifyRouter fun r =>
      if s.attached then r else { r with orphans := s.carry.1, orphanSinceUs := s.carry.2 })
    readOut g f x.deadline
  else if f.noRestart || !x.mayRestart then return
  else
    onClient (modifyRouter fun r => { r with orphans := 0, previous := [] })
    let restarted ← onSession g g.restart
    if restarted then readOut g f x.deadline else return

/-- `run`; a bind to other items starts a new record. -/
def run (f : Flags) (x : Findings) : Cut Live Unit :=
  if x.ends || f.survey then return
  else do
    Cut.modify fun s =>
      { s with bound := x.view, carry := if x.view && !x.same then (0, 0) else s.carry }
    if x.view then runSession g f x else return

/-- `q1n1_live_battery_run`. -/
def liveBatteryRun (f : Flags) (x : Findings) : Cut Live Unit := do
  Cut.modify fun s => { s with refresh := !f.refreshOff && (f.refreshOn || s.refresh) }
  run g f x
  Cut.modify fun s =>
    if s.bound && !f.survey then
      { s with carry := (s.client.router.orphans, s.client.router.orphanSinceUs) }
    else s

/-- The first part of `q1n1_live_battery_tick`. -/
def tickService (now : ℕ) (x : Findings) : Cut Live Unit := do
  let s ← Cut.get
  if g.started s.client.link && decide (serviceUs ≤ now - s.lastServiceUs) then
    Cut.modify fun s => { s with lastServiceUs := now }
    if s.bound then
      let _ ← onSession g (g.world.service serviceFrames)
    else if s.resumeTried then return
    else
      Cut.modify fun s => { s with resumeTried := true }
      liveBatteryRun g { resume := true, noRestart := true } x
  else return

def liveBatteryTick (now : ℕ) (resume refresh : Findings) : Cut Live Unit :=
  if now = 0 then return
  else do
    tickService g now resume
    let s ← Cut.get
    if s.refresh && (s.lastRefreshUs = 0 || decide (refreshUs ≤ now - s.lastRefreshUs)) then
      Cut.modify fun s => { s with lastRefreshUs := now }
      liveBatteryRun g { noRestart := true } refresh
    else return

inductive Event where
  | call (f : Flags) (x : Findings)
  | tick (now : ℕ) (resume refresh : Findings)

def Event.perform : Event → Cut Live Unit
  | .call f x => liveBatteryRun g f x
  | .tick now resume refresh => liveBatteryTick g now resume refresh

/-- Calls and ticks one after the other. -/
def performAll : List Event → Cut Live Unit
  | [] => return
  | e :: rest => do
    e.perform g
    performAll rest

end Q1n1.LiveBattery
