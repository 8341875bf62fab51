import Q1n1.Model.Proxy.Serve

/-! # The request loop

`platform/uefi/q1n1-proxy.c`: `read_full`, `write_full` and `q1n1_proxy_run`, over any
transport. One step is one round of whichever loop the code is in. -/

namespace Q1n1.Proxy

open Bytes

/-- `struct q1n1_io`, over the state `σ` of the transport. A transport that carries several
connections says which one (`ι`) it read from or wrote to. -/
structure Io (σ ι : Type) where
  poll : σ → σ
  abort : σ → Bool × σ
  ready : σ → Bool × σ
  read : (count : ℕ) → σ → (ι × List UInt8) × σ
  write : (bs : List UInt8) → σ → (ι × ℕ) × σ
  end_ : σ → σ
  /-- the connection whose checksum mode the next request uses -/
  checksumState : σ → ι
  checksumsOff : ι → σ → Bool × σ
  setChecksumsOff : ι → Bool → σ → σ
  /-- whether the idle timeout has passed since the last byte -/
  expired : σ → Bool × σ
  /-- how much is on record about the checksum modes -/
  clock : σ → ℕ

inductive Task (W : Type) where
  | top
  | scan
  | reading (need : ℕ) (got : List UInt8) (k : Option (List UInt8) → Prog W)
  | writing (left : List UInt8) (k : Bool → Prog W)
  | calling (w : W) (k : W → Prog W)
  | left (value : ℕ)
  | rebooted

/-- What one request took from the transport and gave to it, piece by piece, the bytes that
were served as the request and its data, and the checksum modes it went by, with when it looked;
`nested` counts the exception sessions that ran inside it. -/
structure Exchange (ι : Type) where
  took : List (ι × List UInt8) := []
  gave : List (ι × List UInt8) := []
  served : List UInt8 := []
  modes : List (ℕ × ι × Bool) := []
  nested : ℕ := 0

/-- The locals of `q1n1_proxy_run`; `begun` is its `partial`, and `slot` the connection that
`checksum_state` points to. -/
structure Loop (W ι : Type) where
  reason : ℕ := 0
  code : ℕ := 0
  info : ℕ := 0
  window : ℕ := 0
  begun : Bool := false
  wasReady : Bool := false
  slot : ι
  world : W
  task : Task W := .top
  -- The rest only records what happened.
  current : Exchange ι := {}
  log : List (Exchange ι) := []
  announced : List (ι × List UInt8) := []

section

variable {M σ ι : Type} (io : Io σ ι)

namespace Loop

def take {W : Type} (l : Loop W ι) (r : ι × List UInt8) : Loop W ι :=
  { l with current := { l.current with took := l.current.took ++ [r] } }

def give {W : Type} (l : Loop W ι) (r : ι × List UInt8) : Loop W ι :=
  { l with current := { l.current with gave := l.current.gave ++ [r] } }

def serving {W : Type} (l : Loop W ι) (bs : List UInt8) : Loop W ι :=
  { l with current := { l.current with served := bs } }

def mode {W : Type} (l : Loop W ι) (clock : ℕ) (off : Bool) : Loop W ι :=
  { l with current := { l.current with modes := l.current.modes ++ [(clock, l.slot, off)] } }

def close {W : Type} (l : Loop W ι) (w : W) (task : Task W) : Loop W ι :=
  { l with world := w, task := task, current := {}, log := l.log ++ [l.current] }

/-- Run a program up to where it waits for the transport. -/
def start {W : Type} : Prog W → Loop W ι → σ → Loop W ι × σ
  | .finish (.next w), l, s => (l.close w .top, io.end_ s)
  | .finish (.leave value w), l, s => (l.close w (.left value), io.end_ s)
  | .finish .reboot, l, s => ({ l with task := .rebooted }, s)
  | .finish (.announced w), l, s =>
    ({ l with
      world := w
      task := .scan
      current := { l.current with gave := [] }
      announced := l.announced ++ l.current.gave }, s)
  | .readFull n k, l, s =>
    if n = 0 then start (k (some [])) l s else ({ l with task := .reading n [] k }, s)
  | .writeFull bs k, l, s =>
    if bs = [] then start (k true) l s else ({ l with task := .writing bs k }, s)
  | .poll k, l, s => start k l (io.poll s)
  | .checksumsOff k, l, s =>
    let clock := io.clock s
    let (off, s) := io.checksumsOff l.slot s
    start (k off) (l.mode clock off) s
  | .setChecksumsOff off k, l, s => start k l (io.setChecksumsOff l.slot off s)
  | .call w k, l, s => ({ l with task := .calling w k }, s)

def scanByte (P : Platform M) (l : Loop (World M) ι) (s : σ) : Loop (World M) ι × σ :=
  match io.read 1 s with
  | ((i, [b]), s) =>
    let window := l.window / 2 ^ 8 + b.toNat * 2 ^ 24
    let l := { l with task := .top, begun := true, window := window }.take (i, [b])
    if window % 2 ^ 24 ≠ 0xAA55FF then (l, s)
    else
      start io (serveFrom P window l.world)
        ({ l with window := 0, begun := false, slot := io.checksumState s }.serving
          (putLe 4 window)) s
  | (_, s) => ({ l with task := .top }, s)

/-- Bytes that lead to no request are dropped when the port is gone or nothing follows them. -/
def dropStale {W : Type} (ready : Bool) (l : Loop W ι) (s : σ) : Loop W ι × σ :=
  match if ready && l.begun then io.expired s else (false, s) with
  | (late, s) =>
    if !ready || late then ({ l with window := 0, begun := false, current := {} }, io.end_ s)
    else (l, s)

/-- The rest of an iteration: an announcement to a port that has come up, then one byte. -/
def greet (P : Platform M) (ready : Bool) (l : Loop (World M) ι) (s : σ) :
    Loop (World M) ι × σ :=
  if ready && !l.wasReady then
    start io (announce l.reason l.code l.info l.world) { l with wasReady := ready } s
  else { l with wasReady := ready }.scanByte io P s

/-- The top of an iteration. -/
def iterate (P : Platform M) (l : Loop (World M) ι) (s : σ) : Loop (World M) ι × σ :=
  match io.abort (io.poll s) with
  | (true, s) => ({ l with task := .left 0 }, s)
  | (false, s) =>
    match io.ready s with
    | (ready, s) =>
      match l.dropStale io ready s with
      | (l, s) => l.greet io P ready s

def readRound {W : Type} (need : ℕ) (got : List UInt8) (k : Option (List UInt8) → Prog W)
    (l : Loop W ι) (s : σ) : Loop W ι × σ :=
  let (ready, s) := io.ready s
  if !ready then start io (k none) l s
  else
    let ((i, bs), s) := io.read need s
    if bs ≠ [] then
      let l := l.take (i, bs)
      if bs.length < need then
        ({ l with task := .reading (need - bs.length) (got ++ bs) k }, s)
      else start io (k (some (got ++ bs))) (l.serving (l.current.served ++ (got ++ bs))) s
    else
      let (late, s) := io.expired s
      if late then start io (k none) l s else (l, io.poll s)

def writeRound {W : Type} (left : List UInt8) (k : Bool → Prog W) (l : Loop W ι) (s : σ) :
    Loop W ι × σ :=
  let (ready, s) := io.ready s
  if !ready then start io (k false) l s
  else
    let ((i, sent), s) := io.write left s
    if sent ≠ 0 then
      let l := l.give (i, left.take sent)
      if sent < left.length then ({ l with task := .writing (left.drop sent) k }, s)
      else start io (k true) l s
    else
      let (late, s) := io.expired s
      if late then start io (k false) l s else (l, io.poll s)

def step (P : Platform M) (l : Loop (World M) ι) (s : σ) : Loop (World M) ι × σ :=
  match l.task with
  | .top => l.iterate io P s
  | .scan => l.scanByte io P s
  | .reading need got k => l.readRound io need got k s
  | .writing left k => l.writeRound io left k s
  | .calling w k => start io (k w) l s
  | .left _ | .rebooted => (l, s)

def run (P : Platform M) : ℕ → Loop (World M) ι → σ → Loop (World M) ι × σ
  | 0, l, s => (l, s)
  | steps + 1, l, s =>
    let r := l.step io P s
    run P steps r.1 r.2

end Loop

/-! ## Exception sessions -/

def startException : ℕ := 1
def excRetHandled : ℕ := 2

/-- `q1n1_exception` while uploaded code runs: the loop is entered again over the same
transport, for so many steps. The code goes on when that session ends with the handled code;
otherwise, and when it faults itself, the machine is given up. -/
def Loop.fault (P : Platform M) (code info steps : ℕ) (l : Loop (World M) ι) (s : σ) :
    Option (Loop (World M) ι × σ) :=
  match l.task with
  | .calling w k =>
    let (inner, s) := Loop.run io P steps
      { reason := startException, code := code, info := info, slot := l.slot, world := w } s
    match inner.task with
    | .left value =>
      if value = excRetHandled then
        some ({ l with
          slot := inner.slot
          task := .calling inner.world k
          current := { l.current with nested := l.current.nested + 1 }
          log := l.log ++ inner.log
          announced := l.announced ++ inner.announced }, s)
      else none
    | _ => none
  | _ => none

inductive Move where
  | step
  | fault (code info steps : ℕ)

def Loop.move (P : Platform M) (l : Loop (World M) ι) (s : σ) : Move → Option (Loop (World M) ι × σ)
  | .step => some (l.step io P s)
  | .fault code info steps => l.fault io P code info steps s

def Loop.moves (P : Platform M) : List Move → Loop (World M) ι → σ → Option (Loop (World M) ι × σ)
  | [], l, s => some (l, s)
  | m :: rest, l, s => (l.move io P s m).bind fun r => Loop.moves P rest r.1 r.2

end

end Q1n1.Proxy
