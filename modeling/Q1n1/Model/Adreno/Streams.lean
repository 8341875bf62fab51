import Q1n1.Library.Cut
import Q1n1.Model.Adreno.PageTables

/-! # The GPU's streams on the SMMU

The register writes of `gmu-smmu`, `gmu-smmu --undo`, `cp-fence` and `quiesce` in
`tools/a16gpu_stage3.py`. Each command is a process of its own that may end after any of its
register writes. What a command reads outside the SMMU (other registers, the host record, the
arena) is given with it. -/

namespace Q1n1.Adreno

/-! ## Registers -/

abbrev Word := BitVec 32

/-- The SMMU registers the tools use; most come in banks. -/
inductive Reg
  | sCR0 | idr0 | idr1 | idr2 | smr | s2cr | cbar | cba2r
  | cbSctlr | cbActlr | cbTcr2 | cbTtbr0 | cbTtbr0Hi | cbTtbr1 | cbTtbr1Hi | cbTcr |
    cbMair0 | cbMair1
  | cbFsr | cbTlbiasid | cbTlbsync | cbTlbstatus
  deriving DecidableEq

abbrev Regs := Reg → ℕ → Word

def setReg (regs : Regs) (r : Reg) (n : ℕ) (v : Word) : Regs := fun r' n' =>
  if r' = r ∧ n' = n then v else regs r' n'

def scr0Clientpd : Word := 1 <<< 0
def scr0Usfcfg : Word := 1 <<< 10
def smrValid : Word := 1 <<< 31
def s2crTypeTrans : Word := 0
def s2crTypeFault : Word := 2
def cbarS1BypassS2 : Word := 1 <<< 16 ||| 3 <<< 8 ||| 0xf <<< 12
def cba2rVa64 : Word := 1
def sctlrM : Word := 1
def sctlrAsidpne : Word := 1 <<< 12

/-- M, TRE, AFE, CFRE, CFIE, HUPCF and ASIDPNE. -/
def cbSctlrValue : Word :=
  sctlrM ||| 1 <<< 1 ||| 1 <<< 2 ||| 1 <<< 5 ||| 1 <<< 6 ||| sctlrAsidpne ||| 1 <<< 8

def cbActlrValue : Word := 3 <<< 8 ||| 1 <<< 1 ||| 1 <<< 0
def cbTcrValue : Word := 2 <<< 12 ||| BitVec.ofNat 32 cbT0sz ||| 1 <<< 23
def cbTcrWide : Word := cbTcrValue - BitVec.ofNat 32 cbT0sz + BitVec.ofNat 32 cbT0szWide
def cbTcr2Value : Word := 2 ||| 7 <<< 15 ||| 1 <<< 4
def cbMair0Value : Word := 0x44 ||| 0xff <<< 8 ||| 0x04 <<< 16 ||| 0xf4 <<< 24

/-- `CB_READBACK_FIXED`: bits that the hardware fixes whatever is written. -/
def cbReadbackFixed : Reg → Word
  | .cbSctlr => sctlrAsidpne
  | .cbTcr2 => 1 <<< 5 ||| 1 <<< 6
  | _ => 0

/-- Registers that the hardware changes by itself, or that start an operation. -/
def Reg.volatile : Reg → Bool
  | .cbFsr | .cbTlbiasid | .cbTlbsync | .cbTlbstatus => true
  | _ => false

/-- What a register holds after a write. A register that only the tools change holds what
was written, outside the fixed bits. -/
structure Hardware where
  latch : Reg → ℕ → (old written : Word) → Word
  latch_holds : ∀ r n old written, r.volatile = false →
    (latch r n old written ^^^ written) &&& ~~~cbReadbackFixed r = 0

/-! ## Streams and banks -/

/-- A stream-match entry of the tools: its index, its stream and the bank it leads to. -/
structure Stream where
  smr : ℕ
  sid : ℕ
  cb : ℕ
  deriving DecidableEq

def gpuStream : Stream := { smr := 0, sid := 0, cb := 0 }
def gmuStream : Stream := { smr := 1, sid := 5, cb := 1 }
def lpacStream : Stream := { smr := 2, sid := 1, cb := 0 }

def mustFaultSids : List ℕ := [2, 4, 7]
def smmuNumCb : ℕ := 25

def Stream.wantSmr (s : Stream) : Word := smrValid ||| BitVec.ofNat 32 s.sid
def Stream.wantS2cr (s : Stream) : Word := s2crTypeTrans <<< 16 ||| BitVec.ofNat 32 s.cb

def smrMatches (smr : Word) (sid : ℕ) : Bool :=
  smr &&& smrValid ≠ 0 && (BitVec.ofNat 32 sid ^^^ smr) &&& ~~~(smr >>> 16) &&& 0x7fff = 0

def s2crType (s2cr : Word) : Word := s2cr >>> 16 &&& 3

/-! ## Commands that may be cut -/

inductive Stop
  | clientPd
  | geometry
  | pollTimeout
  | bankNotOurs (cb : ℕ)
  | entryInUse (smr : ℕ)
  | entryNotOurs (smr : ℕ)
  | notReadBack (cb : ℕ)
  | notTranslating (sid : ℕ)
  | mustFault (sid : ℕ)
  | usfcfgClear
  | bypassing
  | outOfReset
  | tablesDiffer
  | tablesNotReadBack
  | refused (why : Refusal)
  | faults
  | notProven
  | narrowBus
  | notWide
  | sqeProbe
  | sqeRunning
  deriving DecidableEq

/-- The registers, how many more writes the process makes, what the volatile registers will
read (and whether the poll's deadline has passed by then), the registers after each write so
far, and why the process stopped. -/
structure World where
  regs : Regs
  writes : ℕ
  status : List (Word × Bool)
  moments : List Regs
  stopped : Option Stop

abbrev Op := Cut World

def raise {α : Type} (reason : Stop) : Op α := do
  Cut.modify fun w => { w with stopped := some reason }
  Cut.stop

def onlyIf (c : Bool) (m : Op Unit) : Op Unit := if c then m else pure ()

def rdVolatile : Op (Word × Bool) := do
  match (← Cut.get).status with
  | [] => Cut.stop
  | v :: rest =>
    Cut.modify fun w => { w with status := rest }
    pure v

def rd (r : Reg) (n : ℕ) : Op Word :=
  if r.volatile then do pure (← rdVolatile).1
  else Cut.gets fun w => w.regs r n

def World.write (w : World) (r : Reg) (n : ℕ) (v : Word) (writes : ℕ) : World :=
  { w with
    regs := setReg w.regs r n v
    writes := writes
    moments := w.moments ++ [setReg w.regs r n v] }

/-- The polls of `TLBSTATUS`: at most `n` more reads, `first` when there was none yet. -/
def pollTlb : (n : ℕ) → (first : Bool) → Op Unit
  | 0, _ => raise .pollTimeout
  | n + 1, first => do
    let (value, late) ← rdVolatile
    if value &&& 1 = 0 then pure ()
    else if !first && late then raise .pollTimeout
    else pollTlb n false

section

variable (hw : Hardware)

def wr (r : Reg) (v : Word) (n : ℕ) : Op Unit := do
  match (← Cut.get).writes with
  | 0 => Cut.stop
  | writes + 1 => Cut.modify fun w => w.write r n (hw.latch r n (w.regs r n) v) writes

def smmuTlbi (cb : ℕ) : Op Unit := do
  wr hw .cbTlbiasid (BitVec.ofNat 32 cb) cb
  wr hw .cbTlbsync 0 cb
  pollTlb 20 true

def smmuReadCb (cb : ℕ) : Op (Reg → Word) := do
  let regs ← Cut.gets fun w => w.regs
  let fsr ← rd .cbFsr cb
  pure fun r => if r = .cbFsr then fsr else regs r cb

/-- `smmu_cb_expected`, for tables with this root. -/
def smmuCbExpected (tables : PageTables) (cb : ℕ) (wide : Bool) : List (Reg × Word) :=
  let ttbr := ttbrFor tables cb
  [(.cbSctlr, cbSctlrValue), (.cbTcr, if wide && cb = gpuStream.cb then cbTcrWide else cbTcrValue),
    (.cbTcr2, cbTcr2Value), (.cbTtbr0, BitVec.ofNat 32 (ttbr &&& 0xffffffff)),
    (.cbTtbr0Hi, BitVec.ofNat 32 (ttbr >>> 32)), (.cbMair0, cbMair0Value), (.cbActlr, cbActlrValue),
    (.cbar, cbarS1BypassS2), (.cba2r, cba2rVa64)]

def cbDiff (current : Reg → Word) (expect : List (Reg × Word)) : List (Reg × Word × Word) :=
  (expect.filter fun kv => (current kv.1 ^^^ kv.2) &&& ~~~cbReadbackFixed kv.1 ≠ 0).map
    fun kv => (kv.1, current kv.1, kv.2)

def takeOff (s : Stream) : Op Unit := do
  wr hw .s2cr (s2crTypeFault <<< 16) s.smr
  wr hw .smr 0 s.smr

def putOn (s : Stream) : Op Unit := do
  wr hw .s2cr s.wantS2cr s.smr
  wr hw .smr s.wantSmr s.smr

/-- The registers of a bank, in the order they are written. -/
def bankWrites (tables : PageTables) (cb : ℕ) (wide : Bool) : List (Reg × Word) :=
  let ttbr := ttbrFor tables cb
  [(.cbSctlr, 0), (.cbActlr, cbActlrValue), (.cba2r, cba2rVa64), (.cbar, cbarS1BypassS2),
    (.cbTcr2, cbTcr2Value), (.cbTcr, if wide && cb = gpuStream.cb then cbTcrWide else cbTcrValue),
    (.cbTtbr0, BitVec.ofNat 32 (ttbr &&& 0xffffffff)), (.cbTtbr0Hi, BitVec.ofNat 32 (ttbr >>> 32)),
    (.cbTtbr1, 0), (.cbTtbr1Hi, BitVec.ofNat 32 (cb <<< 16)), (.cbMair0, cbMair0Value),
    (.cbMair1, 0), (.cbFsr, 0xffffffff), (.cbSctlr, cbSctlrValue)]

def wrBank (cb : ℕ) : List (Reg × Word) → Op Unit
  | [] => pure ()
  | (r, v) :: rest => do
    wr hw r v cb
    wrBank cb rest

/-- `smmu_program`: whether anything was written. -/
def smmuProgram (tables : PageTables) (s : Stream) (wide : Bool) : Op Bool := do
  let expect := smmuCbExpected tables s.cb wide
  let current ← smmuReadCb s.cb
  let smr ← rd .smr s.smr
  let s2cr ← rd .s2cr s.smr
  let ours := cbDiff current expect = []
  if ours ∧ smr = s.wantSmr ∧ s2cr = s.wantS2cr then pure false
  else if current .cbSctlr &&& sctlrM ≠ 0 ∧ ¬ours then raise (.bankNotOurs s.cb)
  else if smr &&& smrValid ≠ 0 ∧ smr ≠ s.wantSmr then raise (.entryInUse s.smr)
  else do
    onlyIf (smr &&& smrValid ≠ 0) do
      takeOff hw s
      smmuTlbi hw s.cb
    wrBank hw s.cb (bankWrites tables s.cb wide)
    smmuTlbi hw s.cb
    let readback ← smmuReadCb s.cb
    if cbDiff readback expect ≠ [] then raise (.notReadBack s.cb)
    else do
      putOn hw s
      pure true

def smmuDisable (s : Stream) : Op Unit := do
  let smr ← rd .smr s.smr
  if smr &&& smrValid ≠ 0 ∧ smr &&& 0x7fff ≠ BitVec.ofNat 32 s.sid then raise (.entryNotOurs s.smr)
  else do
    takeOff hw s
    wr hw .cbSctlr 0 s.cb
    smmuTlbi hw s.cb

def smmuRoute (s : Stream) : Op Bool := do
  let smr ← rd .smr s.smr
  let s2cr ← rd .s2cr s.smr
  if smr = s.wantSmr ∧ s2cr = s.wantS2cr then pure false
  else if smr &&& smrValid ≠ 0 ∧ smr ≠ s.wantSmr then raise (.entryInUse s.smr)
  else do
    putOn hw s
    pure true

def smmuUnroute (s : Stream) : Op Bool := do
  let smr ← rd .smr s.smr
  if smr &&& smrValid = 0 then pure false
  else if smr &&& 0x7fff ≠ BitVec.ofNat 32 s.sid then raise (.entryNotOurs s.smr)
  else do
    takeOff hw s
    pure true

/-- `smmu_globals`: the value of `sCR0` and the number of stream-match entries. -/
def smmuGlobals : Op (Word × ℕ) := do
  let scr0 ← rd .sCR0 0
  let idr0 ← rd .idr0 0
  let idr1 ← rd .idr1 0
  if scr0 &&& scr0Clientpd ≠ 0 then raise .clientPd
  else if (idr1 &&& 0xff).toNat ≠ smmuNumCb ∨ idr1 >>> 31 ≠ 0 ∨ idr1 >>> 28 &&& 7 ≠ 4 then
    raise .geometry
  else pure (scr0, (idr0 &&& 0xff).toNat)

/-- The entries, of the first `groups`, that match a stream. -/
def hits (regs : Regs) (groups sid : ℕ) : List ℕ :=
  (List.range groups).filter fun n => smrMatches (regs .smr n) sid

/-- `smmu_verify`, for streams and the banks they should lead to. -/
def smmuVerify (groups : ℕ) (expect : List (ℕ × ℕ)) : Op Unit := do
  let regs ← Cut.gets fun w => w.regs
  match expect.find? fun e =>
      !((hits regs groups e.1).map fun n => (s2crType (regs .s2cr n), regs .s2cr n &&& 0xff))
        == [(s2crTypeTrans, BitVec.ofNat 32 e.2)] with
  | some e => raise (.notTranslating e.1)
  | none =>
    match mustFaultSids.find? fun sid =>
        (hits regs groups sid).any fun n => s2crType (regs .s2cr n) ≠ s2crTypeFault with
    | some sid => raise (.mustFault sid)
    | none => if regs .sCR0 0 &&& scr0Usfcfg = 0 then raise .usfcfgClear else pure ()

def ensureUsfcfg : Op Unit := do
  let scr0 ← rd .sCR0 0
  if scr0 &&& scr0Usfcfg = 0 then wr hw .sCR0 (scr0 ||| scr0Usfcfg) 0
  else pure ()

/-- `sids_reaching_memory` finds a stream. -/
def sidsReachingMemory (groups : ℕ) (sids : List ℕ) : Op Bool := do
  let regs ← Cut.gets fun w => w.regs
  pure (sids.any fun sid =>
    ((hits regs groups sid).any fun n => s2crType (regs .s2cr n) ≠ s2crTypeFault) ||
      ((hits regs groups sid).isEmpty && regs .sCR0 0 &&& scr0Usfcfg = 0))

/-! ## The commands -/

/-- What `gmu-smmu` finds outside the SMMU: whether the prologue and the arena hold up, whether
the GMU is out of reset, where the arena is, whether the tables there are the GMU's, what
`write_tables` did (`none` when it did not read back), and whether the host record has a
`gpu_ttbr`. -/
structure GmuSmmu where
  proven : Bool
  live : Bool
  base : ℕ
  tablesMatch : Bool
  written : Option Bool
  gpuTtbr : Bool

/-- The end of `cmd_gmu_smmu`: step G4, after `ensure_usfcfg`. Faults are only reported. -/
def gmuSmmuVerify (o : GmuSmmu) (groups : ℕ) : Op Unit := do
  ensureUsfcfg hw
  smmuVerify groups ((gmuStream.sid, gmuStream.cb) ::
    if o.gpuTtbr then [(gpuStream.sid, gpuStream.cb), (lpacStream.sid, gpuStream.cb)] else [])
  let _fsr ← rd .cbFsr gmuStream.cb

/-- Steps G2 to G4 of `cmd_gmu_smmu`. A running GMU's tables and bank are only compared. -/
def gmuSmmuTables (o : GmuSmmu) (groups : ℕ) (tables : PageTables) : Op Unit := do
  if o.live then
    if !o.tablesMatch then raise .tablesDiffer
    else do
      let current ← smmuReadCb gmuStream.cb
      if cbDiff current (smmuCbExpected tables gmuStream.cb false) ≠ [] then
        raise (.bankNotOurs gmuStream.cb)
      else gmuSmmuVerify hw o groups
  else
    match o.written with
    | none => raise .tablesNotReadBack
    | some _ => do
      let _ ← smmuProgram hw tables gmuStream false
      gmuSmmuVerify hw o groups

def cmdGmuSmmu (undo : Bool) (o : GmuSmmu) : Op Unit := do
  if !o.proven then raise .notProven
  else do
    let globals ← smmuGlobals
    if undo then
      if o.live then raise .outOfReset else smmuDisable hw gmuStream
    else
      match buildTables o.base .gmu false with
      | .error why => raise (.refused why)
      | .ok tables => gmuSmmuTables hw o globals.2 tables

/-- What `cp-fence` finds outside the SMMU: whether everything up to the firmware holds up, the
bit of `CP_SQE_CNTL`, the tokens of the host record, whether the `--x290` check passes, and
what `write_tables` did; and its options. -/
structure CpFence where
  proven : Bool
  sqeOn : Bool
  bootToken : ℕ
  cpToken : ℕ
  hwinitToken : ℕ
  sqeProbe : ℕ
  x290 : Bool
  base : ℕ
  written : Option Bool
  wide : Bool
  probe : Bool

def CpFence.cpReady (o : CpFence) : Bool := o.cpToken = o.bootToken && o.sqeOn
def CpFence.hwDone (o : CpFence) : Bool := o.hwinitToken = o.bootToken && o.sqeOn

def vaWide (o : CpFence) : Op Unit := do
  if o.wide then do
    let idr2 ← rd .idr2 0
    if idr2 >>> 8 &&& 0xf = 0 then raise .narrowBus
    else if o.cpReady || o.hwDone then do
      let tcr ← rd .cbTcr gpuStream.cb
      if tcr ≠ cbTcrWide then raise .notWide else pure ()
    else pure ()
  else pure ()

/-- Step C1 of `cmd_cp_fence`: the GPU's two streams go on CB0. -/
def cpFenceC1 (o : CpFence) (tables : PageTables) : Op Unit := do
  let globals ← smmuGlobals
  let current ← smmuReadCb gpuStream.cb
  onlyIf (cbDiff current (smmuCbExpected tables gpuStream.cb o.wide) ≠ []) do
    let _ ← smmuUnroute hw lpacStream
  match o.written with
  | none => raise .tablesNotReadBack
  | some changed => do
    let programmed ← smmuProgram hw tables gpuStream o.wide
    onlyIf (!programmed && changed) (smmuTlbi hw gpuStream.cb)
    let _ ← smmuRoute hw lpacStream
    ensureUsfcfg hw
    smmuVerify globals.2 [(gpuStream.sid, gpuStream.cb), (lpacStream.sid, gpuStream.cb),
      (gmuStream.sid, gmuStream.cb)]

/-- `cmd_cp_fence`; what follows C1 writes no register of the SMMU. -/
def cmdCpFence (o : CpFence) : Op Unit := do
  if !o.proven then raise .notProven
  else do
    vaWide o
    if !o.x290 then raise .notProven
    else if o.cpReady then pure ()
    else if o.sqeOn && o.sqeProbe ≠ 0 && o.sqeProbe = o.bootToken then raise .sqeProbe
    else if o.sqeOn && !o.hwDone then raise .sqeRunning
    else if o.hwDone then pure ()
    else
      match buildTables o.base .gpu o.probe with
      | .error why => raise (.refused why)
      | .ok tables => cpFenceC1 hw o tables

def disableIfOn (s : Stream) : Op Unit := do
  let smr ← rd .smr s.smr
  let sctlr ← rd .cbSctlr s.cb
  if smr &&& smrValid ≠ 0 ∨ sctlr &&& sctlrM ≠ 0 then smmuDisable hw s else pure ()

/-- `cmd_quiesce`, whose steps before Q3 write no register of the SMMU and may stop it. -/
def cmdQuiesce (proven : Bool) : Op Unit := do
  if !proven then raise .notProven
  else do
    let globals ← smmuGlobals
    let _ ← smmuUnroute hw lpacStream
    disableIfOn hw gpuStream
    disableIfOn hw gmuStream
    ensureUsfcfg hw
    let live ← sidsReachingMemory globals.2
      ([gpuStream.sid, lpacStream.sid, gmuStream.sid] ++ mustFaultSids)
    if live then raise .bypassing else pure ()

inductive Command
  | gmuSmmu (o : GmuSmmu)
  | gmuSmmuUndo (o : GmuSmmu)
  | cpFence (o : CpFence)
  | quiesce (proven : Bool)

def Command.run : Command → Op Unit
  | .gmuSmmu o => cmdGmuSmmu hw false o
  | .gmuSmmuUndo o => cmdGmuSmmu hw true o
  | .cpFence o => cmdCpFence hw o
  | .quiesce proven => cmdQuiesce hw proven

/-- A process: its command, how many register writes it makes at most, and what the volatile
registers read meanwhile. -/
structure Invocation where
  command : Command
  writes : ℕ
  status : List (Word × Bool)

def invoke (regs : Regs) (i : Invocation) : World :=
  (i.command.run hw
    { regs, writes := i.writes, status := i.status, moments := [], stopped := none }).2

/-- The registers at every moment of a session: at its start and after each write. -/
def moments : Regs → List Invocation → List Regs
  | regs, [] => [regs]
  | regs, i :: session =>
    regs :: (invoke hw regs i).moments ++ moments (invoke hw regs i).regs session

end

end Q1n1.Adreno
