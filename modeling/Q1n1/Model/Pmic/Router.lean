import Q1n1.Library.Bytes
import Q1n1.Library.Cut

/-! # Reading PMIC registers over a GLINK channel

`platform/uefi/pmic-router.c` and the decoder of `platform/uefi/battery.c`. The router is written
over the operations of the link that it uses; messages reach it while the link polls. -/

namespace Q1n1.Pmic

open Bytes

def orphanGiveUpUs : ℕ := 2000000
def owner : ℕ := 0x8011
def typeRequest : ℕ := 1
def opcodeRead : ℕ := 0x90
def replyBytes : ℕ := 1040
def dataBytes : ℕ := 1024

def get32 (off : ℕ) (data : List UInt8) : ℕ := getLe 4 (data.drop off)

inductive Status (ε : Type)
  | ok
  | denied
  | timedOut
  | reply
  | remote
  | unstable
  | stale
  | notPlausible
  | orphan
  | link (error : ε)
  deriving DecidableEq

/-- What became of a message that was delivered. -/
inductive Fate
  | foreign
  | stale
  | unsolicited
  | taken
  deriving DecidableEq

/-- `struct q1n1_pmic_router`, less the diagnostics of the last reply. Of the two buffers, `reply`
and `previous`, the bytes that the last reply filled: no code reads past them. -/
structure Router where
  reply : List UInt8 := []
  replyLength : ℕ := 0
  haveReply : Bool := false
  waiting : Bool := false
  orphans : ℕ := 0
  orphanSinceUs : ℕ := 0
  previous : List UInt8 := []
  requests : ℕ := 0
  replies : ℕ := 0
  staleDiscarded : ℕ := 0
  unsolicited : ℕ := 0
  foreign : ℕ := 0
  badReplies : ℕ := 0
  -- The rest only records what happened.
  /-- the fates of the messages delivered, in order, and the request awaited at the time -/
  fates : List (Fate × Option ℕ) := []
  /-- the requests that timed out, by their number, and when -/
  expired : List (ℕ × ℕ) := []
  deriving DecidableEq

def Router.fate (r : Router) (data : List UInt8) : Fate :=
  if data.length < 12 ∨ get32 0 data ≠ owner then .foreign
  else if r.orphans ≠ 0 then .stale
  else if r.waiting = false ∨ r.haveReply then .unsolicited
  else .taken

def Router.awaited (r : Router) : Option ℕ := if r.waiting then some r.requests else none

def Router.deliver (r : Router) (data : List UInt8) : Router :=
  match r.fate data with
  | .foreign => { r with foreign := r.foreign + 1, fates := r.fates ++ [(.foreign, r.awaited)] }
  | .stale =>
    { r with
      orphans := r.orphans - 1
      staleDiscarded := r.staleDiscarded + 1
      fates := r.fates ++ [(.stale, r.awaited)] }
  | .unsolicited =>
    { r with unsolicited := r.unsolicited + 1, fates := r.fates ++ [(.unsolicited, r.awaited)] }
  | .taken =>
    { r with
      reply := data.take replyBytes
      replyLength := data.length
      haveReply := true
      replies := r.replies + 1
      fates := r.fates ++ [(.taken, r.awaited)] }

/-! ## Over a link -/

structure LinkOps (σ ε : Type) where
  poll : Cut σ (Except ε ℕ)
  send : List UInt8 → (deadline : ℕ) → Cut σ (Except ε Unit)
  now : Cut σ ℕ
  relax : Cut σ Unit
  /-- the messages delivered on the client's channel so far -/
  inbox : σ → List (List UInt8)
  /-- more rounds of a waiting loop than the surroundings allow -/
  rounds : σ → ℕ

/-- The link and the router on it. -/
structure Client (σ : Type) where
  link : σ
  router : Router
  deriving DecidableEq

section

variable {σ ε α : Type} (ops : LinkOps σ ε)

/-- An operation of the link; the messages that arrive in it are delivered. -/
def onLink (m : Cut σ α) : Cut (Client σ) α := fun c =>
  let result := m c.link
  (result.1,
    { link := result.2
      router := ((ops.inbox result.2).drop (ops.inbox c.link).length).foldl Router.deliver
        c.router })

def modifyRouter (f : Router → Router) : Cut (Client σ) Unit :=
  Cut.modify fun c => { c with router := f c.router }

def getRouter : Cut (Client σ) Router := Cut.gets Client.router

def now : Cut (Client σ) ℕ := onLink ops ops.now

def awaitOrphans (deadline : ℕ) : ℕ → Cut (Client σ) (Status ε)
  | 0 => Cut.stop
  | bound + 1 => do
    let r ← getRouter
    if r.orphans = 0 then return .ok
    else do
      let time ← now ops
      let r ← getRouter
      if orphanGiveUpUs < time - r.orphanSinceUs then do
        modifyRouter fun r => { r with orphans := 0 }
        return .ok
      else do
        let time ← now ops
        if deadline < time then return .orphan
        else do
          onLink ops ops.relax
          match ← onLink ops ops.poll with
          | .error e => return .link e
          | .ok _ => awaitOrphans deadline bound

def awaitReply (deadline : ℕ) : ℕ → Cut (Client σ) (Status ε)
  | 0 => Cut.stop
  | bound + 1 => do
    match ← onLink ops ops.poll with
    | .error e => do
      modifyRouter fun r => { r with waiting := false }
      return .link e
    | .ok _ => do
      let r ← getRouter
      if r.haveReply then return .ok
      else do
        let time ← now ops
        if deadline < time then do
          modifyRouter fun r => { r with waiting := false, orphans := r.orphans + 1 }
          let time ← now ops
          modifyRouter fun r =>
            { r with orphanSinceUs := time, expired := r.expired ++ [(r.requests, time)] }
          return .timedOut
        else do
          onLink ops ops.relax
          awaitReply deadline bound

def requestFor (reg size : ℕ) : List UInt8 :=
  [owner, typeRequest, opcodeRead, 0, reg, size].flatMap (putLe 4)

/-- The checks of a reply, and the data in it. -/
def Router.judge (r : Router) (size : ℕ) : Except (Status ε) (List UInt8) :=
  if r.replyLength ≠ replyBytes ∨ get32 4 r.reply ≠ typeRequest ∨ get32 8 r.reply ≠ opcodeRead then
    .error .reply
  else if get32 (replyBytes - 4) r.reply ≠ 0 then .error .remote
  else .ok ((r.reply.drop 12).take size)

def takeReply (size : ℕ) : Cut (Client σ) (Except (Status ε) (List UInt8)) := do
  modifyRouter fun r => { r with waiting := false }
  let r ← getRouter
  match r.judge (ε := ε) size with
  | .error .reply => do
    modifyRouter fun r => { r with badReplies := r.badReplies + 1 }
    return .error .reply
  | result => return result

def exchange (reg size deadline : ℕ) : Cut (Client σ) (Except (Status ε) (List UInt8)) := do
  modifyRouter fun r => { r with haveReply := false, replyLength := 0, waiting := false }
  match ← onLink ops (ops.send (requestFor reg size) deadline) with
  | .error e => return .error (.link e)
  | .ok _ => do
    modifyRouter fun r => { r with waiting := true, requests := r.requests + 1 }
    let c ← Cut.get
    match ← awaitReply ops deadline (ops.rounds c.link + 1) with
    | .ok => takeReply size
    | status => return .error status

def sample (reg size deadline : ℕ) : Cut (Client σ) (Except (Status ε) (List UInt8)) := do
  if size = 0 ∨ dataBytes < size then return .error .denied
  else do
    match ← onLink ops ops.poll with
    | .error e => return .error (.link e)
    | .ok _ => do
      let c ← Cut.get
      match ← awaitOrphans ops deadline (ops.rounds c.link + 1) with
      | .ok => exchange ops reg size deadline
      | status => return .error status

/-! ## Registers -/

def bst : ℕ := 0x101a8
def bstBytes : ℕ := 16
def bix : ℕ := 0x10110
def bixBytes : ℕ := 0x44
def psr : ℕ := 0x101d8
def psrBytes : ℕ := 4
def ucsiVersion : ℕ := 0x20100

def allowed (reg size : ℕ) : Bool :=
  (reg, size) ∈ [(bst, bstBytes), (bix, bixBytes), (psr, psrBytes), (ucsiVersion, 4)]

/-- Two samples agree; of `_BST` the rate and the voltage may move. -/
def agrees (reg : ℕ) (first second : List UInt8) : Bool :=
  first = second ||
    reg = bst && first.take 4 = second.take 4 && (first.drop 8).take 4 = (second.drop 8).take 4

def Router.repeats (r : Router) (size : ℕ) (first : List UInt8) : Bool :=
  8 ≤ size && size ≤ r.previous.length && first = r.previous.take size

def read (reg size deadline : ℕ) : Cut (Client σ) (Except (Status ε) (List UInt8)) := do
  if allowed reg size = false then return .error .denied
  else do
    match ← sample ops reg size deadline with
    | .error e => return .error e
    | .ok first => do
      match ← sample ops reg size deadline with
      | .error e => return .error e
      | .ok second => do
        let r ← getRouter
        if agrees reg first second = false then return .error .unstable
        else if r.repeats size first then return .error .stale
        else do
          modifyRouter fun r => { r with previous := first }
          return .ok first

structure Battery where
  state : ℕ
  rate : ℕ
  remaining : ℕ
  voltage : ℕ
  unit : ℕ
  design : ℕ
  full : ℕ
  cycles : ℕ
  ac : ℕ
  percent : ℕ

def unknown : ℕ := 0xffffffff

def decode (bst bix psr : List UInt8) : Battery :=
  let remaining := get32 8 bst
  let full := get32 12 bix
  { state := get32 0 bst &&& 0x0f
    rate := get32 4 bst
    remaining := remaining
    voltage := get32 12 bst
    unit := get32 4 bix
    design := get32 8 bix
    full := full
    cycles := get32 32 bix
    ac := get32 0 psr
    percent :=
      if full ≠ 0 ∧ full ≠ unknown ∧ remaining ≠ unknown then
        min 100 ((remaining * 100 + full / 2) / full)
      else unknown }

/-- The plausibility checks of `q1n1_battery_decode`; sums and products are those of 32 bits. -/
def decodePasses (bst bix psr : List UInt8) : Bool :=
  let b := decode bst bix psr
  !(1 < b.unit || 1 < b.ac || 0x0f < get32 0 bst || b.state &&& 3 = 3 ||
    b.design = 0 || b.design = unknown || 500000 < b.design ||
    b.full = 0 || b.full = unknown || (b.design * 2) % 2 ^ 32 < b.full ||
    b.remaining = unknown || (b.full + b.full / 5) % 2 ^ 32 < b.remaining ||
    b.voltage ≠ unknown && (b.voltage < 5000 || 30000 < b.voltage) ||
    b.rate ≠ unknown && 500000 < b.rate ||
    b.cycles ≠ unknown && 100000 < b.cycles)

/-- `q1n1_pmic_router_battery`: the status, and what it filled in. -/
def battery (deadline : ℕ) : Cut (Client σ) (Status ε × Option Battery) := do
  match ← read ops bst bstBytes deadline with
  | .error e => return (e, none)
  | .ok bstData => do
    match ← read ops bix bixBytes deadline with
    | .error e => return (e, none)
    | .ok bixData => do
      match ← read ops psr psrBytes deadline with
      | .error e => return (e, none)
      | .ok psrData =>
        return (if decodePasses bstData bixData psrData then .ok else .notPlausible,
          some (decode bstData bixData psrData))

end

end Q1n1.Pmic
