import Q1n1.Model.Glink.Session

/-! # What one step of a session can do

Every function of the session moves the link by a sequence of small steps, and each
invariant of a run is proved of the steps alone. A step is a turn of the world, a
bookkeeping update, or an act of a live session under the conditions the code has
checked by then. -/

namespace Q1n1.Glink

/-- A data frame that found its channel and its local intent. -/
structure Part where
  c : ChannelIx
  slot : Fin 4
  first : Bool
  payload : List UInt8
  left : ℕ

/-- The part a received frame brings to the message of an intent, if any. -/
def dataPart (ch : Channels) (frame : List UInt8) : Option Part :=
  if isData frame then
    (byRcid ch (headerP1 frame)).bind fun c =>
      (localSlot (ch c) (headerP2 frame)).map fun slot =>
        { c := c
          slot := slot
          first := decide (headerCmd frame = Command.txData.code)
          payload := (frame.drop 16).take (get32 (frame.drop 8))
          left := get32 (frame.drop 12) }
  else none

def openName (frame : List UInt8) : List UInt8 := (frame.drop 8).take (headerP2 frame % 65536)

def intentId (frame : List UInt8) (n : ℕ) : ℕ := get32 (frame.drop (12 + 8 * n))
def intentSize (frame : List UInt8) (n : ℕ) : ℕ := get32 (frame.drop (8 + 8 * n))

/-! ## Conditions -/

def Event.isQuiet : Event → Bool
  | .sent _ _ | .dispatched _ _ _ => false
  | _ => true

/-- The last event has been followed up: a published CLOSE has set its flag, and a
part that was received has been stored or refused. -/
def Settled (g : Link) : Prop :=
  match g.trace.getLast? with
  | some (.sent frame _) =>
    headerCmd frame = Command.close.code →
      ∀ c, (g.s.ch c).lcid = headerP1 frame → (g.s.ch c).closeSent = true
  | some (.dispatched frame ch _) => dataPart ch frame = none
  | _ => True

/-- Neither down nor released. -/
def Active (g : Link) : Prop := g.s.state = .started ∨ g.s.state = .failed

def Fits (g : Link) (size : ℕ) : Prop :=
  ∃ avail, g.txAvail = some avail ∧ size ≤ avail

/-- A whole frame of `n` bytes stands at our tail. The bytes available were counted a
turn or two ago; a lawful remote has not taken any of them back. -/
def Framed (g : Link) (n : ℕ) : Prop :=
  ∃ avail, 8 ≤ avail ∧ frameLength g.s.rxLength (g.rxHeader avail) avail = .whole n ∧
    (g.rxUnruly = false → g.rxTail = g.s.rxTail → g.s.rxTail < g.s.rxLength →
      avail ≤ Ring.used g.s.rxLength g.rxTail g.rxHead)

/-- The commands of eight bytes, other than CLOSE. -/
def Command.isShort : Command → Bool
  | .open | .close | .intent | .txData | .txDataCont => false
  | _ => true

/-- The frames the session writes, each with what holds when it does. -/
inductive Allowed (g : Link) : List UInt8 → List UInt8 → Prop where
  | short (cmd : Command) (p1 p2 : ℕ) (hshort : cmd.isShort = true) :
      Allowed g (header cmd p1 p2) []
  | close (c : ChannelIx) : Allowed g (header .close (g.s.ch c).lcid 0) []
  | open (c : ChannelIx) (hclose : (g.s.ch c).closeSent = false) :
      Allowed g (openFrame (g.s.ch c)) []
  | intent (lcid size id : ℕ) :
      Allowed g (header .intent lcid 1 ++ put32 size ++ put32 id) []
  | data (w : Sending) (data : List UInt8) (hsending : g.sending = some w)
      (hlength : data.length = w.length) :
      Allowed g (dataHeader (g.s.ch w.c).lcid w.id data.length) data

/-- The second record differs in flags only, and is ready if the first is. -/
structure FlagsOnly (a b : Channel) : Prop where
  name : b.name = a.name
  lcid : b.lcid = a.lcid
  rcid : b.rcid = a.rcid
  remoteOpened : b.remoteOpened = a.remoteOpened
  closeSent : b.closeSent = a.closeSent
  localCount : b.localCount = a.localCount
  localIntent : b.localIntent = a.localIntent
  remoteIntent : b.remoteIntent = a.remoteIntent
  ready : a.ready = true → b.ready = true

/-- The second record differs in counters and version data only. -/
structure SameCore (s t : Session) : Prop where
  txLength : t.txLength = s.txLength
  rxLength : t.rxLength = s.rxLength
  state : t.state = s.state
  txHead : t.txHead = s.txHead
  rxTail : t.rxTail = s.rxTail
  ch : t.ch = s.ch

/-- What a live session does with frames, channels and intents. The frame that asked
for it was logged with the channel table and the pending message of that moment. -/
inductive Act (g : Link) : Link → Prop where
  | publish (hdr data : List UInt8) (hfits : Fits g (hdr ++ data).length)
      (hallowed : Allowed g hdr data) : Act g (g.publish hdr data)
  | take (n : ℕ) (hnone : g.current = none) (hframed : Framed g n) : Act g (g.take n)
  | spent (n : ℕ) (hcurrent : g.current = some n) : Act g (g.spent n)
  | reset (c : ChannelIx) (frame : List UInt8)
      (hseen : .dispatched frame g.s.ch g.sending ∈ g.trace)
      (hcmd : headerCmd frame = Command.close.code)
      (hby : byRcid g.s.ch (headerP1 frame) = some c) : Act g (g.resetChannel c)
  | closeAcked (c : ChannelIx) (frame : List UInt8)
      (hlast : g.trace.getLast? = some (.dispatched frame g.s.ch g.sending))
      (hcmd : headerCmd frame = Command.closeAck.code)
      (hby : byLcid g.s.ch (headerP1 frame) = some c)
      (hclose : (g.s.ch c).closeSent = true) :
      Act g (g.setCh c (g.s.ch c).ackClose)
  | opened (c : ChannelIx) (rcid : ℕ) (frame : List UInt8)
      (hseen : .dispatched frame g.s.ch g.sending ∈ g.trace)
      (hcmd : headerCmd frame = Command.open.code)
      (hby : openMatch g.s.ch (headerP2 frame % 65536) (openName frame) = some c) :
      Act g (g.handleOpen c rcid)
  | offer (c : ChannelIx) (n : ℕ) (frame : List UInt8) (ch : Channels)
      (hseen : .dispatched frame ch g.sending ∈ g.trace)
      (hcmd : headerCmd frame = Command.intent.code)
      (hby : byRcid ch (headerP1 frame) = some c) (hn : n < headerP2 frame)
      (hopen : (g.s.ch c).remoteOpened = true) :
      Act g (g.offer c (intentId frame n) (intentSize frame n))
  | returned (c : ChannelIx) (frame : List UInt8)
      (hslot : remoteSlot (g.s.ch c) (headerP2 frame) = none) :
      Act g (g.log (.returned c (headerP2 frame)))
  | rxDone (c : ChannelIx) (slot : Fin 8) (reuse : Bool) (frame : List UInt8)
      (hseen : .dispatched frame g.s.ch g.sending ∈ g.trace)
      (hcmd : reuse = true → headerCmd frame = Command.rxDoneWReuse.code)
      (hby : byRcid g.s.ch (headerP1 frame) = some c)
      (hslot : remoteSlot (g.s.ch c) (headerP2 frame) = some slot) :
      Act g (g.rxDone c slot (headerP2 frame) reuse)
  | pick (c : ChannelIx) (slot : Fin 8) (length : ℕ) (hnone : g.sending = none)
      (hready : (g.s.ch c).ready = true)
      (hslot : chooseIntent (g.s.ch c) length = some slot) : Act g (g.pick c slot length)
  | advertise (c : ChannelIx) (slot : Fin 4) : Act g (g.advertise c slot)
  | finishRelease : Act g g.finishRelease

inductive Step (g : Link) : Link → Prop where
  | turn (t : Turn) (rest : List Turn) (hturns : g.turns = t :: rest) : Step g (g.turn t rest)
  | quiet (s : Session) (servicing : ℕ) (releasing : Bool) (hsame : SameCore g.s s) :
      Step g { g with s := s, servicing := servicing, releasing := releasing }
  | wait : Step g g.wait
  | fail (error : Status) (command : ℕ) (hactive : Active g) : Step g (g.fail error command)
  | flags (c : ChannelIx) (ch : Channel) (hflags : FlagsOnly (g.s.ch c) ch) :
      Step g (g.setCh c ch)
  | closed (c : ChannelIx) (hopen : (g.s.ch c).remoteOpened = false) :
      Step g (g.setCh c (g.s.ch c).setCloseSent)
  | invalidate (c : ChannelIx) (slot : Fin 4) :
      Step g (g.setCh c ((g.s.ch c).retire slot))
  | abandon (c : ChannelIx) (slot : Fin 8)
      (hpicked : g.s.state = .started → ∃ w, g.sending = some w ∧ w.c = c ∧ w.slot = slot) :
      Step g (g.abandon c slot)
  | refuse (before : List Event) (frame : List UInt8) (ch : Channels)
      (sending : Option Sending) (part : Part)
      (htrace : g.trace = before ++ [.dispatched frame ch sending])
      (hpart : dataPart ch frame = some part) : Step g (g.refuse part.c part.slot)
  | keep (before : List Event) (frame : List UInt8) (ch : Channels)
      (sending : Option Sending) (part : Part) (b : Buffer) (capacity : ℕ)
      (htrace : g.trace = before ++ [.dispatched frame ch sending])
      (hpart : dataPart ch frame = some part) (hleft : part.left ≠ 0)
      (hbuffer : localBuffer part.c part.slot = some (b, capacity)) :
      Step g ((g.keep part.c part.slot b part.first part.payload).log
        (.kept part.c part.slot))
  | complete (before : List Event) (frame : List UInt8) (ch : Channels)
      (sending : Option Sending) (part : Part) (b : Buffer) (capacity : ℕ)
      (htrace : g.trace = before ++ [.dispatched frame ch sending])
      (hpart : dataPart ch frame = some part) (hleft : part.left = 0)
      (hbuffer : localBuffer part.c part.slot = some (b, capacity)) :
      Step g ((g.keep part.c part.slot b part.first part.payload).deliver
        part.c part.slot b)
  | act (next : Link) (hstarted : g.s.state = .started) (hsettled : Settled g)
      (hact : Act g next) : Step g next

abbrev Steps : Link → Link → Prop := Relation.ReflTransGen Step

end Q1n1.Glink
