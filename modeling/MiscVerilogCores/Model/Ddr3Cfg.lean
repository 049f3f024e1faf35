import MiscVerilogCores.Model.Ddr3Fsm

/-! # `ddr3_cfg.v`, and the controller around it

The start-up sequence of the memory, the refresh counter, and their connection with the
command scheduler in `axi_ddr3_lite.v`. Times are in nanoseconds; the simulator's shorter
start-up times are left out. -/

namespace MiscVerilogCores

/-! ## Settings -/

/-- The counter constants of `ddr3_cfg.v`, in clock cycles. -/
structure Ddr3Timing where
  counterInit : ℕ
  counterRefi : ℕ
  counterRstn : ℕ
  counterStrt : ℕ

namespace Ddr3Settings

/-- `$clog2`. -/
def clog2 (n : ℕ) : ℕ := if n ≤ 1 then 0 else Nat.log2 (n - 1) + 1

def tck (DDR_FREQ_MHZ : ℕ) : ℕ := 1000 / DDR_FREQ_MHZ

def ddrTrefi : ℕ := 7800

def ddrCzqinit : ℕ := 512

def ddrCmrd : ℕ := 4

def ddrCmod : ℕ := 12

/-- The constants for a clock frequency. -/
def timing (DDR_FREQ_MHZ : ℕ) : Ddr3Timing :=
  let tck := tck DDR_FREQ_MHZ
  let cyclesUnstable := (200000 + tck - 1) / tck
  let cyclesStartup := (500000 + tck - 1) / tck
  let cyclesModeSet := 4 * (ddrCmrd + ddrCmod) + 2
  let counterInit := cyclesUnstable + cyclesStartup + cyclesModeSet + ddrCzqinit + 2
  { counterInit := counterInit
    counterRefi := (ddrTrefi - 1) / tck
    counterRstn := counterInit - cyclesUnstable
    counterStrt := counterInit - cyclesUnstable - cyclesStartup }

/-- The width of the counter. -/
def counterBits (DDR_FREQ_MHZ : ℕ) : ℕ := clog2 (timing DDR_FREQ_MHZ).counterInit

def mr0 : BitVec 13 := 0b0001100100000#13

def mr1 : BitVec 13 := 0b0000000000001#13

def mr2 : BitVec 13 := 0b0000000001000#13

def mr3 : BitVec 13 := 0b0000000000000#13

end Ddr3Settings

/-! ## `ddr3_cfg` -/

namespace Ddr3Cfg

open Ddr3Settings

inductive Phase where
  | rstn | init | cke1 | mrs2 | mrs3 | mrs1 | mrs0 | zqcl | prea | refr | actv | read | done
deriving DecidableEq, Inhabited

structure State (COUNTER_BITS ROW : ℕ) where
  count : BitVec COUNTER_BITS
  refreshPending : BitVec 3
  refQ : Bool
  state : Phase
  reqQ : Bool
  runQ : Bool
  rstNq : Bool
  ckeQ : Bool
  csNq : Bool
  alnQ : Bool
  cmdQ : Ddr3Cmd
  baQ : BitVec 3
  adrQ : BitVec ROW
deriving Inhabited, DecidableEq

structure Inputs where
  reset : Bool
  dfiCalibI : Bool
  ctlRdyI : Bool

variable {COUNTER_BITS ROW : ℕ} (t : Ddr3Timing)

section Refresh

variable (s : State COUNTER_BITS ROW) (i : Inputs)

def cnext : BitVec COUNTER_BITS := s.count - 1

/-- A refresh interval ends in this cycle. -/
def expires : Bool := cnext s == 0

def countNext : BitVec COUNTER_BITS :=
  if i.reset then BitVec.ofNat _ t.counterInit
  else if !expires s then cnext s
  else BitVec.ofNat _ t.counterRefi

def refreshIssued : Bool := i.ctlRdyI && s.refQ

def refreshPendingNext : BitVec 3 :=
  if i.reset then 0
  else if s.runQ && expires s then
    if refreshIssued s i then s.refreshPending else s.refreshPending + 1
  else if s.runQ then
    if refreshIssued s i && s.refreshPending != 0 then s.refreshPending - 1
    else s.refreshPending
  else s.refreshPending

end Refresh

/-- `{ba_q, adr_q}` after an assignment of a value of 16 bits. -/
def setBus (s : State COUNTER_BITS ROW) (v : BitVec (3 + 13)) : State COUNTER_BITS ROW :=
  let bus : BitVec (3 + ROW) := v.setWidth (3 + ROW)
  { s with baQ := bus.extractLsb' ROW 3, adrQ := bus.setWidth ROW }

/-- Address bit 10 alone; the other bits of the bus are unknown in the source. -/
def busA10 : BitVec (3 + 13) := 1024

/-- A mode-register command goes on to the next register once it is accepted. -/
def modeNext (s : State COUNTER_BITS ROW) (i : Inputs) (stay go : Phase)
    (busStay busGo : BitVec (3 + 13)) : State COUNTER_BITS ROW :=
  let s' := { s with
    rstNq := true, ckeQ := true, csNq := false, reqQ := true, cmdQ := .mode, runQ := false }
  if i.ctlRdyI then setBus { s' with state := go } busGo
  else setBus { s' with state := stay } busStay

/-- The registers of the initialisation state machine, out of reset. Where the source sets
the bus to unknown bits it keeps its value. -/
def phaseNext (s : State COUNTER_BITS ROW) (i : Inputs) : State COUNTER_BITS ROW :=
  match s.state with
  | .rstn =>
      let go := decide (s.count.toNat < t.counterRstn)
      { s with
        state := if go then .init else .rstn
        rstNq := go
        ckeQ := false
        csNq := true
        reqQ := false
        cmdQ := .noop
        runQ := false }
  | .init =>
      let go := decide (s.count.toNat < t.counterStrt)
      { s with
        state := if go then .cke1 else .init
        rstNq := true
        ckeQ := go
        csNq := true
        reqQ := false
        cmdQ := .noop
        runQ := false }
  | .cke1 =>
      setBus
        { s with
          state := .mrs2, rstNq := true, ckeQ := true, csNq := false, reqQ := true, cmdQ := .mode,
          runQ := false }
        (2#3 ++ mr2)
  | .mrs2 => modeNext s i .mrs2 .mrs3 (2#3 ++ mr2) (3#3 ++ mr3)
  | .mrs3 => modeNext s i .mrs3 .mrs1 (3#3 ++ mr3) (1#3 ++ mr1)
  | .mrs1 => modeNext s i .mrs1 .mrs0 (1#3 ++ mr1) (0#3 ++ mr0)
  | .mrs0 =>
      let s' := { s with rstNq := true, ckeQ := true, csNq := false, reqQ := true, runQ := false }
      if i.ctlRdyI then setBus { s' with state := .zqcl, cmdQ := .zqcl } busA10
      else setBus { s' with state := .mrs0, cmdQ := .mode } (0#3 ++ mr0)
  | .zqcl =>
      setBus
        { s with
          state := if i.ctlRdyI then .prea else .zqcl
          cmdQ := if i.ctlRdyI then .prec else .zqcl
          rstNq := true
          ckeQ := true
          csNq := false
          reqQ := true
          runQ := false }
        busA10
  | .prea =>
      let s' := { s with rstNq := true, ckeQ := true, csNq := false, reqQ := true, runQ := false }
      if i.ctlRdyI then { s' with state := .refr, cmdQ := .refr }
      else setBus { s' with state := .prea, cmdQ := .prec } busA10
  | .refr =>
      let s' := { s with rstNq := true, ckeQ := true, csNq := false, reqQ := true, runQ := false }
      if i.ctlRdyI then
        setBus { s' with state := .actv, cmdQ := .actv, alnQ := true } 0
      else { s' with state := .refr, cmdQ := .refr }
  | .actv =>
      let s' := { s with rstNq := true, ckeQ := true, csNq := false, runQ := false }
      if i.ctlRdyI then { s' with state := .read, cmdQ := .read, adrQ := BitVec.ofNat ROW 1024 }
      else s'
  | .read =>
      let s' := { s with rstNq := true, ckeQ := true, csNq := false }
      if i.dfiCalibI && i.ctlRdyI then
        { s' with state := .done, reqQ := false, cmdQ := .noop, runQ := true, alnQ := false }
      else if i.ctlRdyI then
        setBus { s' with state := .actv, reqQ := true, cmdQ := .actv, runQ := false, alnQ := true } 0
      else s'
  | .done =>
      { s with
        rstNq := true, ckeQ := true, csNq := false, reqQ := false, cmdQ := .noop, runQ := true }

/-- One clock edge. -/
def step (s : State COUNTER_BITS ROW) (i : Inputs) : State COUNTER_BITS ROW :=
  let s' :=
    if i.reset then
      { s with
        state := .rstn, reqQ := false, runQ := false, rstNq := false, ckeQ := false, csNq := true,
        cmdQ := .noop, alnQ := false }
    else phaseNext t s i
  { s' with
    count := countNext t s i
    refreshPending := refreshPendingNext s i
    refQ := !i.reset && s.refreshPending != 0 }

end Ddr3Cfg

/-! ## The controller -/

namespace Ddr3Ctrl

/-- The scheduler and the configuration as `axi_ddr3_lite` connects them: the scheduler is
held in reset until the configuration has run. -/
structure State (COUNTER_BITS PSB COL : ℕ) where
  enQ : Bool
  fsm : Ddr3Fsm.State PSB COL
  cfg : Ddr3Cfg.State COUNTER_BITS (PSB + 1 + COL)
deriving Inhabited

structure Inputs (PSB COL : ℕ) where
  reset : Bool
  dfiCalibI : Bool
  ddlRdyI : Bool
  memWrreqI : Bool
  memWrlstI : Bool
  memWradrI : BitVec (PSB + 1 + COL + 3 + COL)
  memRdreqI : Bool
  memRdlstI : Bool
  memRdadrI : BitVec (PSB + 1 + COL + 3 + COL)

variable {COUNTER_BITS PSB COL : ℕ} (t : Ddr3Timing)

def fsmInputs (s : State COUNTER_BITS PSB COL) (i : Inputs PSB COL) : Ddr3Fsm.Inputs PSB COL where
  reset := !s.enQ
  memWrreqI := i.memWrreqI
  memWrlstI := i.memWrlstI
  memWradrI := i.memWradrI
  memRdreqI := i.memRdreqI
  memRdlstI := i.memRdlstI
  memRdadrI := i.memRdadrI
  cfgReqI := s.cfg.reqQ
  cfgCmdI := s.cfg.cmdQ
  cfgBaI := s.cfg.baQ
  cfgAdrI := s.cfg.adrQ
  ddlRdyI := i.ddlRdyI
  ddlRefI := s.cfg.refQ

/-- The scheduler passes the ready signal of the data layer on as `cfg_rdy_o`. -/
def cfgInputs (i : Inputs PSB COL) : Ddr3Cfg.Inputs where
  reset := i.reset
  dfiCalibI := i.dfiCalibI
  ctlRdyI := i.ddlRdyI

def step (s : State COUNTER_BITS PSB COL) (i : Inputs PSB COL) : State COUNTER_BITS PSB COL where
  enQ := !i.reset && s.cfg.runQ
  fsm := Ddr3Fsm.step s.fsm (fsmInputs s i)
  cfg := Ddr3Cfg.step t s.cfg (cfgInputs i)

/-- The state after a clock edge with `reset` asserted, whatever came before. -/
def afterReset (s : State COUNTER_BITS PSB COL) : State COUNTER_BITS PSB COL :=
  step t s
    { reset := true
      dfiCalibI := false
      ddlRdyI := false
      memWrreqI := false
      memWrlstI := false
      memWradrI := 0
      memRdreqI := false
      memRdlstI := false
      memRdadrI := 0 }

end Ddr3Ctrl

end MiscVerilogCores
