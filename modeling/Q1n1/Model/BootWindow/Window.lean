import Q1n1.Library.Bytes

/-! # The boot window

`platform/uefi/boot-window.c`: a host or the keyboard chooses what happens next, and `BootNext`
is armed so that a reset comes back. The variable services answer as they like, and so does
everything that has to do with USB: what the code learns from it is an input. -/

namespace Q1n1.BootWindow

open Bytes (getLe)

/-- `efi_status`; zero is success. -/
abbrev Status := ℕ

def efiUnsupported : Status := 0x8000000000000003
def efiNotFound : Status := 0x800000000000000e

def windowSeconds : ℕ := 25
def hostSeconds : ℕ := 20
def typingSeconds : ℕ := 60
def drainSeconds : ℕ := 2

inductive Choice where
  | windows | proxy | shell | proxyNcm
  deriving DecidableEq

def timeoutChoice (automatic usb0Configured : Bool) : Choice :=
  if !automatic then .windows else if usb0Configured then .proxy else .proxyNcm

/-- `struct q1n1_boot_result`, without the snapshot. -/
structure Result where
  choice : Choice := .windows
  returnArmed : Bool := false
  bootCurrent : ℕ := 0
  configured : Bool := false
  entryStatus : Status := 0
  armStatus : Status := 0

/-! ## The variable services -/

structure Answer where
  status : Status
  data : List UInt8

inductive Holder where
  | firmware | window | removed
  deriving DecidableEq

/-- What was done to `BootNext`, and how it went. -/
inductive Access where
  | write (status : Status)
  | readBack (confirmed : Bool)
  | remove (status : Status)
  deriving DecidableEq

/-- The firmware's variables with their future answers, and the result so far. -/
structure World where
  getVariable : ℕ → Answer
  setVariable : ℕ → Status
  gets : ℕ := 0
  sets : ℕ := 0
  bootNext : Holder := .firmware
  accesses : List Access := []
  result : Result := {}

def World.get (w : World) : Answer × World := (w.getVariable w.gets, { w with gets := w.gets + 1 })

/-- Set `BootNext`; it changes when the call succeeds. -/
def World.writeBootNext (w : World) : Status × World :=
  let status := w.setVariable w.sets
  (status, { w with
    sets := w.sets + 1
    bootNext := if status = 0 then .window else w.bootNext
    accesses := w.accesses ++ [.write status] })

/-- Remove `BootNext`; nobody looks at the status. -/
def World.removeBootNext (w : World) : World :=
  let status := w.setVariable w.sets
  { w with
    sets := w.sets + 1
    bootNext := if status = 0 then .removed else w.bootNext
    accesses := w.accesses ++ [.remove status] }

def World.onResult (w : World) (f : Result → Result) : World := { w with result := f w.result }

/-! ## The load option -/

def lower (c : UInt8) : UInt8 := if 0x41 ≤ c ∧ c ≤ 0x5a then c + 0x20 else c

def backslash : UInt8 := 0x5c

def shellPath : List UInt8 :=
  [0x5c, 0x45, 0x46, 0x49, 0x5c, 0x71, 0x31, 0x6e, 0x31, 0x5c, 0x73, 0x68, 0x65, 0x6c, 0x6c,
    0x61, 0x61, 0x36, 0x34, 0x2e, 0x65, 0x66, 0x69]

/-- `q1n1 UEFI Shell`, with the zero behind it. -/
def shellDescription : List ℕ :=
  [0x71, 0x31, 0x6e, 0x31, 0x20, 0x55, 0x45, 0x46, 0x49, 0x20, 0x53, 0x68, 0x65, 0x6c, 0x6c, 0]

def joinedBytes : ℕ := 128

/-- Append the name of a File Path node; `first` at its first character. -/
def joinNode (joined : List UInt8) (first : Bool) : List UInt8 → Option (List UInt8)
  | a :: b :: rest =>
    let c := a.toNat + 256 * b.toNat
    if c = 0 then some joined
    else if 127 < c || joinedBytes ≤ joined.length + 2 then none
    else
      let joined := if first && joined ≠ [] && joined.getLast? ≠ some backslash && c ≠ 0x5c then
        joined ++ [backslash] else joined
      joinNode (joined ++ [UInt8.ofNat c]) false rest
  | _ => some joined

def joinPath (joined path : List UInt8) : Option (List UInt8) :=
  if path.length < 4 then some joined
  else
    let type := path.getD 0 0
    let subtype := path.getD 1 0
    let size := getLe 2 (path.drop 2)
    if size < 4 || path.length < size then none
    else if type = 0x7f && subtype = 0xff then some joined
    else if type = 4 && subtype = 4 then
      match joinNode joined true ((path.drop 4).take (size - 4)) with
      | none => none
      | some joined => joinPath joined (path.drop size)
    else joinPath joined (path.drop size)
termination_by path.length
decreasing_by
  all_goals
    simp only [List.length_drop]
    simp_all
    omega

def pathMatches (path : List UInt8) : Bool :=
  match joinPath [] path with
  | none => false
  | some joined => joined.length = shellPath.length && joined.map lower = shellPath.map lower

def optionMatches (option : List UInt8) : Bool :=
  let pathOffset := 6 + 2 * shellDescription.length
  let pathLength := getLe 2 (option.drop 4)
  !(option.length < pathOffset || option.getD 0 0 &&& 1 = 0) &&
    ((List.range shellDescription.length).all fun k =>
      getLe 2 (option.drop (6 + 2 * k)) = shellDescription.getD k 0) &&
    !(option.length < pathOffset + pathLength) &&
    pathMatches ((option.drop pathOffset).take pathLength)

/-- `shell_entry`: the status and the number. -/
def shellEntry (w : World) : Status × ℕ × World :=
  let (current, w) := w.get
  if current.status ≠ 0 then (current.status, 0, w)
  else if current.data.length ≠ 2 then (efiUnsupported, 0, w)
  else
    let (option, w) := w.get
    if option.status ≠ 0 then (option.status, 0, w)
    else if !optionMatches option.data then (efiNotFound, 0, w)
    else (0, getLe 2 current.data, w)

def armReturn (number : ℕ) (w : World) : Status × World :=
  let (status, w) := w.writeBootNext
  if status ≠ 0 then (status, w)
  else
    let (check, w) := w.get
    let confirmed := check.status = 0 && check.data.length = 2 && getLe 2 check.data = number
    let w := { w with accesses := w.accesses ++ [.readBack confirmed] }
    if check.status ≠ 0 then (check.status, w)
    else (if confirmed then 0 else efiUnsupported, w)

/-- Arm the return unless the entry cannot be armed, and note how it went. -/
def arm (w : World) : World :=
  let (status, w) :=
    if w.result.entryStatus ≠ 0 then (w.result.entryStatus, w)
    else armReturn w.result.bootCurrent w
  w.onResult fun r => { r with armStatus := status, returnArmed := status = 0 }

/-! ## The command loop -/

structure Key where
  scan : ℕ
  unicode : ℕ

/-- What one turn of the loop learns: the time, the status of the USB calls, the state of the
port, whether everything queued has been sent, a line from the host in lower case, and a key. -/
structure Turn where
  now : ℕ
  status : Status
  dtr : Bool
  received : ℕ
  configured : Bool
  idle : Bool
  line : Option String
  key : Option Key

inductive Command where
  | proxy | proxyOnce | windows | shell | hold | other
  deriving DecidableEq

/-- The commands that are told apart here; the others only report something. -/
def Command.ofLine (line : String) : Command :=
  if line = "proxy" then .proxy
  else if line = "proxy once" then .proxyOnce
  else if line = "windows" then .windows
  else if line = "shell" then .shell
  else if line = "hold" then .hold
  else .other

def lowerChar (c : ℕ) : ℕ := if 0x41 ≤ c ∧ c ≤ 0x5a then c + 0x20 else c

def Key.letter (key : Key) : ℕ := lowerChar (key.unicode % 256)

def Command.ofKey (key : Key) : Option Command :=
  if key.letter = 0x70 then some .proxy
  else if key.letter = 0x6f then some .proxyOnce
  else if key.letter = 0x77 then some .windows
  else if key.letter = 0x73 || key.scan = 23 || key.unicode = 27 then some .shell
  else none

/-- A key that means something replaces the line. -/
def Turn.command (t : Turn) : Option Command :=
  (t.key.bind Command.ofKey).or (t.line.map Command.ofLine)

structure Loop where
  deadline : ℕ
  drain : Option ℕ := none
  previousDtr : Bool := false
  previousReceived : ℕ := 0
  held : Bool := false
  chose : Bool := false
  arm : Bool := false
  configured : Bool := false

def Loop.extend (hz : ℕ) (t : Turn) (s : Loop) : Loop :=
  let deadline := if t.dtr && !s.previousDtr then max s.deadline (t.now + hz * hostSeconds)
    else s.deadline
  let deadline := if t.received ≠ s.previousReceived then max deadline (t.now + hz * typingSeconds)
    else deadline
  { s with deadline, previousDtr := t.dtr, previousReceived := t.received }

def Loop.choose (choice : Choice) (arm : Bool) (s : Loop) (w : World) : Loop × World :=
  ({ s with chose := true, arm := arm || s.arm }, w.onResult fun r => { r with choice })

def Loop.obey (s : Loop) (w : World) : Option Command → Loop × World
  | some .proxy => s.choose .proxy true w
  | some .proxyOnce => s.choose .proxy false w
  | some .windows => s.choose .windows false w
  | some .shell => s.choose .shell false w
  | some .hold => ({ s with held := true }, w)
  | some .other => (s, w)
  | none => (s, w)

def Loop.timeout (automatic : Bool) (t : Turn) (s : Loop) (w : World) : Loop × World :=
  if !s.held && !s.chose && s.deadline < t.now then
    ({ s with arm := automatic, chose := true },
      w.onResult fun r => { r with choice := timeoutChoice automatic t.configured })
  else (s, w)

def Loop.settle (hz : ℕ) (t : Turn) (s : Loop) (w : World) : Loop × World :=
  let refused := w.result.choice = .proxy && !t.configured
  let w := if refused then w.onResult fun r => { r with choice := .shell } else w
  let wanted := !refused && s.arm && (w.result.choice = .proxy || w.result.choice = .proxyNcm)
  let w := if wanted then BootWindow.arm w else w
  ({ s with arm := !refused && s.arm, drain := some (t.now + hz * drainSeconds) },
    w.onResult fun r => { r with configured := t.configured })

/-- The loop; the status it was left with, or nothing while it goes on. -/
def loop (automatic : Bool) (hz : ℕ) : List Turn → Loop → World → Option (Status × Loop × World)
  | [], _, _ => none
  | t :: rest, s, w =>
    let s := { s with configured := t.configured }
    if t.status ≠ 0 then some (t.status, s, w)
    else
      match s.drain with
      | some drain =>
        if t.idle || drain < t.now then some (0, s, w) else loop automatic hz rest s w
      | none =>
        let (s, w) := (s.extend hz t).obey w t.command
        let (s, w) := s.timeout automatic t w
        if s.chose then
          let (s, w) := s.settle hz t w
          loop automatic hz rest s w
        else loop automatic hz rest s w

/-! ## The window -/

/-- Everything else that the window meets. -/
structure Env where
  automatic : Bool
  hasRuntimeServices : Bool
  configTableOk : Bool
  prepareStatus : Status
  functionDriverOk : Bool
  /-- the first error of the watchdog, the buffers, and the start and configuration -/
  initStatus : Status
  started : Bool
  hz : ℕ
  startTicks : ℕ
  turns : List Turn
  setups : ℕ
  stopStatus : Status
  /-- the keyboard while USB0 is unavailable, tick by tick -/
  keys : List (Option Key)
  idRunning : ℕ
  idStopped : ℕ
  gctl : ℕ
  hsPhyCtrl : ℕ

def keyChoice : List (Option Key) → Option Choice
  | [] => none
  | none :: rest => keyChoice rest
  | some key :: rest =>
    if key.letter = 0x77 then some .windows
    else if key.letter = 0x73 || key.scan = 0x17 then some .shell
    else keyChoice rest

def usb0Unavailable (e : Env) (why : Status) (w : World) : Status × World :=
  if !e.automatic then (if why ≠ 0 then why else efiUnsupported, w)
  else
    match keyChoice (e.keys.take 500) with
    | some choice => (0, w.onResult fun r => { r with choice })
    | none => (0, arm (w.onResult fun r => { r with choice := .proxyNcm }))

def disarm (w : World) : World :=
  let w := if w.result.returnArmed then w.removeBootNext else w
  w.onResult fun r => { r with returnArmed := false, choice := .windows }

/-- The firmware's registers are those of a configured device-mode controller. -/
def snapshotOk (e : Env) (configured : Bool) : Bool :=
  !(e.idRunning = 0 || e.idRunning = 0xffffffff || e.idRunning ≠ e.idStopped ||
    (e.gctl >>> 12) &&& 3 ≠ 2 || e.hsPhyCtrl &&& (1 <<< 20) = 0 || !configured)

def finish (e : Env) (status : Status) (s : Loop) (w : World) : Option (Status × World) :=
  if e.started && e.stopStatus ≠ 0 then none
  else if status ≠ 0 || !s.chose then
    let w := disarm w
    if status ≠ 0 && !s.chose && e.setups = 0 && !s.configured then
      some (usb0Unavailable e status w)
    else some (if status ≠ 0 then status else efiUnsupported, w)
  else if w.result.choice ≠ .proxy then some (0, w)
  else if snapshotOk e (s.configured || w.result.configured) then some (0, w)
  else some (efiUnsupported, disarm w)

/-- `q1n1_boot_window`; nothing if it does not return. -/
def bootWindow (e : Env) (w : World) : Option (Status × World) :=
  let w := w.onResult fun _ => {}
  if !e.hasRuntimeServices then some (efiUnsupported, w)
  else
    let (entryStatus, bootCurrent, w) := shellEntry w
    let w := w.onResult fun r => { r with entryStatus, bootCurrent }
    if !e.configTableOk then some (efiUnsupported, w)
    else if e.prepareStatus ≠ 0 then some (usb0Unavailable e e.prepareStatus w)
    else if !e.functionDriverOk then some (efiUnsupported, w)
    else
      let s : Loop := { deadline := e.startTicks + e.hz * windowSeconds }
      if e.initStatus ≠ 0 then finish e e.initStatus s w
      else if e.hz = 0 then finish e 0 s w
      else
        match loop e.automatic e.hz e.turns s w with
        | none => none
        | some (status, s, w) => finish e status s w

end Q1n1.BootWindow
