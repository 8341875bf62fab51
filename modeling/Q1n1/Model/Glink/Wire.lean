import Q1n1.Library.Bytes
import Q1n1.Library.Ring

/-! # GLINK frames: commands, headers and how long a frame is

`platform/uefi/glink-smem.c`. Every command starts with `{u16 cmd, u16 param1,
u32 param2}` and occupies a multiple of eight bytes of its FIFO. -/

namespace Q1n1.Glink

open Bytes

inductive Command where
  | version | versionAck | «open» | close | openAck | intent | rxDone | rxIntentReq
  | rxIntentReqAck | txData | closeAck | txDataCont | readNotif | rxDoneWReuse | signals
  deriving DecidableEq

def Command.code : Command → ℕ
  | .version => 0
  | .versionAck => 1
  | .open => 2
  | .close => 3
  | .openAck => 4
  | .intent => 5
  | .rxDone => 6
  | .rxIntentReq => 7
  | .rxIntentReqAck => 8
  | .txData => 9
  | .closeAck => 11
  | .txDataCont => 12
  | .readNotif => 13
  | .rxDoneWReuse => 14
  | .signals => 15

/-- The command a header names; `none` is one no `switch` of the source lists. -/
def Command.ofCode? : ℕ → Option Command
  | 0 => some .version
  | 1 => some .versionAck
  | 2 => some .open
  | 3 => some .close
  | 4 => some .openAck
  | 5 => some .intent
  | 6 => some .rxDone
  | 7 => some .rxIntentReq
  | 8 => some .rxIntentReqAck
  | 9 => some .txData
  | 11 => some .closeAck
  | 12 => some .txDataCont
  | 13 => some .readNotif
  | 14 => some .rxDoneWReuse
  | 15 => some .signals
  | _ => none

@[simp] theorem Command.ofCode?_code (c : Command) : Command.ofCode? c.code = some c := by
  cases c <;> rfl

theorem Command.code_lt (c : Command) : c.code < 16 := by
  cases c <;> decide

def get16 (p : List UInt8) : ℕ := getLe 2 p
def get32 (p : List UInt8) : ℕ := getLe 4 p
def put16 (v : ℕ) : List UInt8 := putLe 2 v
def put32 (v : ℕ) : List UInt8 := putLe 4 v

/-- `(v + 7) & ~7` on a value that does not overflow. -/
def align8 (v : ℕ) : ℕ := (v + 7) / 8 * 8

def header (cmd : Command) (p1 p2 : ℕ) : List UInt8 :=
  put16 cmd.code ++ put16 p1 ++ put32 p2

/-- The three fields of a header, as every reader takes them apart. -/
def headerCmd (h : List UInt8) : ℕ := get16 h
def headerP1 (h : List UInt8) : ℕ := get16 (h.drop 2)
def headerP2 (h : List UInt8) : ℕ := get32 (h.drop 4)

inductive FrameLength where
  | bad
  | incomplete
  | whole (length : ℕ)
  deriving DecidableEq

/-- What a command occupies, before it is compared with the FIFO: `none` for a
frame that cannot be right. -/
def frameSpan (h : List UInt8) : Option ℕ :=
  match Command.ofCode? (headerCmd h) with
  | none => none
  | some .open =>
    if headerP2 h % 65536 = 0 then none else some (8 + align8 (headerP2 h % 65536))
  | some .intent => some (8 + 8 * headerP2 h)
  | some .txData | some .txDataCont => some (align8 (16 + get32 (h.drop 8)))
  | some _ => some 8

/-- The two commands that carry a payload and a 16-byte header. -/
def isData (h : List UInt8) : Bool :=
  match Command.ofCode? (headerCmd h) with
  | some .txData | some .txDataCont => true
  | _ => false

/-- Bytes the command whose first bytes are `h` occupies, with `avail` bytes to
read in a FIFO of `fifo` bytes. A frame as long as the FIFO can never be complete. -/
def frameLength (fifo : ℕ) (h : List UInt8) (avail : ℕ) : FrameLength :=
  if isData h ∧ avail < 16 then .incomplete
  else
    match frameSpan h with
    | none => .bad
    | some length =>
      if fifo ≤ length then .bad else if avail < length then .incomplete else .whole length

/-- The FIFO sizes `q1n1_glink_view` accepts. -/
def fifoLengthOk (size : ℕ) : Bool :=
  decide (64 ≤ size) && decide (size % 8 = 0) && decide (size ≤ 2 ^ 20)

def indexOk (index length : ℕ) : Bool := decide (index < length) && decide (index % 8 = 0)

/-- The bytes of a frame that mean something: a data frame's payload is not padded. -/
def frameBytes (h : List UInt8) (length : ℕ) : ℕ :=
  if isData h then 16 + get32 (h.drop 8) else length

/-- A reader that follows the framing rules takes bytes apart into whole frames;
`none` when they do not end with a frame. -/
def readFrames (fifo : ℕ) : ℕ → List UInt8 → Option (List (List UInt8))
  | _, [] => some []
  | 0, _ :: _ => none
  | bound + 1, b :: bs =>
    if (b :: bs).length < 8 then none
    else
      match frameLength fifo ((b :: bs).take 16) (b :: bs).length with
      | .whole n =>
        (readFrames fifo bound ((b :: bs).drop n)).map
          ((b :: bs).take (frameBytes ((b :: bs).take 16) n) :: ·)
      | _ => none

@[simp] theorem header_length (cmd : Command) (p1 p2 : ℕ) : (header cmd p1 p2).length = 8 := by
  simp [header, put16, put32]

@[simp] theorem headerCmd_header (cmd : Command) (p1 p2 : ℕ) (rest : List UInt8) :
    headerCmd (header cmd p1 p2 ++ rest) = cmd.code := by
  have h := cmd.code_lt
  simp only [headerCmd, header, get16, put16, List.append_assoc]
  exact getLe_putLe_of_lt (by omega) _

@[simp] theorem headerP1_header (cmd : Command) (p1 p2 : ℕ) (rest : List UInt8) :
    headerP1 (header cmd p1 p2 ++ rest) = p1 % 65536 := by
  have hd : (header cmd p1 p2 ++ rest).drop 2 = put16 p1 ++ (put32 p2 ++ rest) := by
    simp [header, put16, putLe]
  rw [headerP1, hd]
  exact getLe_putLe 2 p1 _

@[simp] theorem headerP2_header (cmd : Command) (p1 p2 : ℕ) (rest : List UInt8) :
    headerP2 (header cmd p1 p2 ++ rest) = p2 % 2 ^ 32 := by
  have hd : (header cmd p1 p2 ++ rest).drop 4 = put32 p2 ++ rest := by
    simp [header, put16, putLe]
  rw [headerP2, hd]
  exact getLe_putLe 4 p2 _

theorem le_align8 (v : ℕ) : v ≤ align8 v := by
  unfold align8
  omega

theorem align8_lt (v : ℕ) : align8 v < v + 8 := by
  unfold align8
  omega

@[simp] theorem align8_mod (v : ℕ) : align8 v % 8 = 0 := by
  unfold align8
  omega

theorem align8_of_mod {v : ℕ} (h : v % 8 = 0) : align8 v = v := by
  unfold align8
  omega

end Q1n1.Glink
