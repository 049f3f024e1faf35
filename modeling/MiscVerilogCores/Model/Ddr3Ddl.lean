import MiscVerilogCores.Model.Ddr3Cfg

/-! # `ddr3_ddl.v`

The data layer passes the commands of the scheduler on to the PHY and keeps them apart: it
takes a command when `ready` is up, and lowers `ready` until the delay of that command has
been shifted out. The write- and read-data strobes are left out. -/

namespace MiscVerilogCores

/-! ## Settings -/

namespace Ddr3Settings

def ddrTrfc : ℕ := 160

def ddrTxpr : ℕ := 170

def ddrTwr : ℕ := 15

def ddrTrp : ℕ := 15

def ddrTrcd : ℕ := 15

def ddrCl : ℕ := 6

def ddrCwl : ℕ := 6

def ddrCwtr : ℕ := 4

def ddrCccd : ℕ := 4

def ddrCrrd : ℕ := 4

section Cycles

variable (DDR_FREQ_MHZ : ℕ)

/-- A time in nanoseconds, in clock cycles. -/
def cyclesOf (ns : ℕ) : ℕ := (ns + tck DDR_FREQ_MHZ - 1) / tck DDR_FREQ_MHZ

def cyclesCkeToCmd : ℕ := cyclesOf DDR_FREQ_MHZ ddrTxpr

def cyclesMrdToCmd : ℕ := ddrCmrd + ddrCmod

def cyclesRefToAct : ℕ := cyclesOf DDR_FREQ_MHZ ddrTrfc

def cyclesPreToAct : ℕ := cyclesOf DDR_FREQ_MHZ ddrTrp

def cyclesActToRW : ℕ := cyclesOf DDR_FREQ_MHZ ddrTrcd

def cyclesRdToRd : ℕ := ddrCccd

def cyclesWrToWr : ℕ := ddrCccd

def cyclesRdToWr : ℕ := ddrCl + ddrCccd + 2 - ddrCwl

def cyclesWrToRd : ℕ := ddrCwl + 4 + ddrCwtr

def cyclesWrToPre : ℕ := ddrCwl + 4 + cyclesOf DDR_FREQ_MHZ ddrTwr

def cyclesWraToAct : ℕ := cyclesWrToPre DDR_FREQ_MHZ + cyclesOf DDR_FREQ_MHZ ddrTrp

def cyclesRdaToAct : ℕ := ddrCccd + cyclesOf DDR_FREQ_MHZ ddrTrp

end Cycles

end Ddr3Settings

namespace Ddr3Ddl

open Ddr3Settings

/-- The width `DELAY` of the delay register. -/
def delayBits (DDR_FREQ_MHZ : ℕ) : ℕ := cyclesCkeToCmd DDR_FREQ_MHZ + 1

/-- The width `CBITS` of the calibration counter. -/
def countBits : ℕ := clog2 ddrCzqinit

/-- `count` and `delay` are `none` where the source assigns unknown bits. -/
structure State (DDR_FREQ_MHZ : ℕ) where
  state : Ddr3Cmd
  ready : Bool
  busy : Bool
  count : Option (BitVec countBits)
  delay : Option (BitVec (delayBits DDR_FREQ_MHZ))
deriving Inhabited

structure Inputs (ROW : ℕ) where
  reset : Bool
  ddrCkeI : Bool
  ctlReqI : Bool
  ctlCmdI : Ddr3Cmd
  ctlAdrI : BitVec ROW

variable {ROW : ℕ} (DDR_FREQ_MHZ : ℕ)

/-! ## Delays of the transitions -/

/-- A delay register that reaches its lowest bit after `n` shifts. -/
def oneHot (n : ℕ) : BitVec (delayBits DDR_FREQ_MHZ) := BitVec.ofNat _ (1 <<< n)

def dinit : BitVec (delayBits DDR_FREQ_MHZ) := oneHot DDR_FREQ_MHZ (cyclesCkeToCmd DDR_FREQ_MHZ - 1)

def delayMrdToCmd := oneHot DDR_FREQ_MHZ (cyclesMrdToCmd - 1)

def delayPreToAct := oneHot DDR_FREQ_MHZ (cyclesPreToAct DDR_FREQ_MHZ - 1)

def delayRefToAct := oneHot DDR_FREQ_MHZ (cyclesRefToAct DDR_FREQ_MHZ - 2)

def delayActToActS : BitVec (delayBits DDR_FREQ_MHZ) := BitVec.ofNat _ (ddrCrrd - 1)

def delayActToRW := oneHot DDR_FREQ_MHZ (cyclesActToRW DDR_FREQ_MHZ - 2)

def delayRdToRd := oneHot DDR_FREQ_MHZ (cyclesRdToRd - 2)

def delayRdToWr := oneHot DDR_FREQ_MHZ (cyclesRdToWr - 2)

def delayWrToRd := oneHot DDR_FREQ_MHZ (cyclesWrToRd - 2)

def delayWrToWr := oneHot DDR_FREQ_MHZ (cyclesWrToWr - 2)

def delayRdaToAct := oneHot DDR_FREQ_MHZ (cyclesRdaToAct DDR_FREQ_MHZ - 1)

def delayWraToAct := oneHot DDR_FREQ_MHZ (cyclesWraToAct DDR_FREQ_MHZ + 1)

/-! ## A command is taken -/

/-- The delay that a command loads, for the state it is taken in. -/
def delayFor (state cmd : Ddr3Cmd) (precharge : Bool) : Option (BitVec (delayBits DDR_FREQ_MHZ)) :=
  let rd := if precharge then delayRdaToAct DDR_FREQ_MHZ else delayRdToRd DDR_FREQ_MHZ
  let wr := if precharge then delayWraToAct DDR_FREQ_MHZ else delayWrToWr DDR_FREQ_MHZ
  match state with
  | .noop =>
      match cmd with
      | .actv => some (delayActToRW _)
      | .prec => some (delayPreToAct _)
      | .refr => some (delayRefToAct _)
      | .mode => some (delayMrdToCmd _)
      | _ => some 0
  | .actv =>
      match cmd with
      | .read => some rd
      | .writ => some wr
      | .actv => some (delayActToActS _)
      | _ => none
  | .read =>
      match cmd with
      | .read => some rd
      | .writ => some (if precharge then delayWraToAct _ else delayRdToWr _)
      | .actv => some 2
      | _ => none
  | .writ =>
      match cmd with
      | .writ => some wr
      | .read => some (if precharge then delayRdaToAct _ else delayWrToRd _)
      | .actv => some 2
      | _ => none
  | .prec =>
      match cmd with
      | .actv => some (delayPreToAct _)
      | .refr => some (delayRefToAct _)
      | _ => none
  | .refr =>
      match cmd with
      | .actv => some (delayActToRW _)
      | .refr => some (delayRefToAct _)
      | _ => none
  | .mode =>
      match cmd with
      | .mode => some (delayMrdToCmd _)
      | .refr => some (delayRefToAct _)
      | .prec => some (delayPreToAct _)
      | .zqcl => some 0
      | _ => none
  | .zqcl =>
      match cmd with
      | .actv => some (delayActToRW _)
      | .refr => some (delayRefToAct _)
      | .prec => some (delayPreToAct _)
      | _ => none

/-- The state follows the command; an auto-precharge leads back to idle. -/
def stateFor (state cmd : Ddr3Cmd) (precharge : Bool) : Ddr3Cmd :=
  match state with
  | .actv | .read | .writ =>
      if precharge && (cmd == .read || cmd == .writ) then .noop else cmd
  | _ => cmd

/-- Calibration, which keeps the data layer busy, starts from idle or from a mode command. -/
def calibrates (state cmd : Ddr3Cmd) : Bool := (state == .noop || state == .mode) && cmd == .zqcl

def takeCommand (s : State DDR_FREQ_MHZ) (i : Inputs ROW) : State DDR_FREQ_MHZ where
  state := stateFor s.state i.ctlCmdI (i.ctlAdrI.getLsbD 10)
  ready := false
  busy := calibrates s.state i.ctlCmdI
  count := if calibrates s.state i.ctlCmdI then some (BitVec.ofNat _ ddrCzqinit) else none
  delay := delayFor DDR_FREQ_MHZ s.state i.ctlCmdI (i.ctlAdrI.getLsbD 10)

/-! ## One clock edge -/

/-- The delay, or the calibration count, runs down. A comparison with unknown bits fails, and
an unknown delay is taken not to end. -/
def wait (s : State DDR_FREQ_MHZ) : State DDR_FREQ_MHZ :=
  let cnext := s.count.map (· - 1)
  { state := s.state
    ready := if cnext = some 0 then true else s.delay.any (·.getLsbD 0)
    busy := if cnext = some 0 then false else s.busy
    delay := s.delay.map fun d : BitVec _ => d >>> 1
    count := if s.busy then cnext else s.count }

def step (s : State DDR_FREQ_MHZ) (i : Inputs ROW) : State DDR_FREQ_MHZ :=
  if i.reset || !i.ddrCkeI then
    { state := .noop, ready := false, busy := false, delay := some (dinit _), count := some 0 }
  else if s.busy || !s.ready then wait _ s
  else if i.ctlReqI then takeCommand _ s i
  else { state := .noop, ready := true, busy := false, delay := some 0, count := none }

/-! ## Synthesis

In hardware every bit of a register has a value, also where the source assigns unknown bits. -/

/-- The registers in hardware, with `cmd_q` of the version that is not `LOW_LATENCY`. -/
structure Registers where
  state : Ddr3Cmd
  ready : Bool
  busy : Bool
  count : BitVec countBits
  delay : BitVec (delayBits DDR_FREQ_MHZ)
  cmdQ : Ddr3Cmd
deriving Inhabited

/-- The values that synthesis has chosen for the unknown bits of an edge. -/
structure Choice where
  count : BitVec countBits
  delay : BitVec (delayBits DDR_FREQ_MHZ)

section Synthesis

variable {DDR_FREQ_MHZ}

def Registers.known (r : Registers DDR_FREQ_MHZ) : State DDR_FREQ_MHZ :=
  ⟨r.state, r.ready, r.busy, some r.count, some r.delay⟩

def nopW (r : Registers DDR_FREQ_MHZ) (i : Inputs ROW) : Bool := !i.ctlReqI || !r.ready

/-- `{dfi_ras_no, dfi_cas_no, dfi_we_no}`. -/
def dfiCmdO (LOW_LATENCY : Bool) (r : Registers DDR_FREQ_MHZ) (i : Inputs ROW) : Ddr3Cmd :=
  if LOW_LATENCY then (if nopW r i then .noop else i.ctlCmdI) else r.cmdQ

def Registers.step (r : Registers DDR_FREQ_MHZ) (i : Inputs ROW) (x : Choice DDR_FREQ_MHZ) :
    Registers DDR_FREQ_MHZ :=
  let s := Ddr3Ddl.step DDR_FREQ_MHZ r.known i
  { state := s.state
    ready := s.ready
    busy := s.busy
    count := s.count.getD x.count
    delay := s.delay.getD x.delay
    cmdQ := if nopW r i || !i.ddrCkeI then .noop else i.ctlCmdI }

end Synthesis

end Ddr3Ddl

/-! ## The scheduler on its data layer -/

namespace Ddr3Link

/-- The scheduler and the data layer, as `axi_ddr3_lite` connects them. -/
structure State (DDR_FREQ_MHZ PSB COL : ℕ) where
  fsm : Ddr3Fsm.State PSB COL
  ddl : Ddr3Ddl.State DDR_FREQ_MHZ

/-- What reaches the scheduler from the request ports and from `ddr3_cfg`, out of reset. -/
structure Inputs (PSB COL : ℕ) where
  memWrreqI : Bool
  memWrlstI : Bool
  memWradrI : BitVec (PSB + 1 + COL + 3 + COL)
  memRdreqI : Bool
  memRdlstI : Bool
  memRdadrI : BitVec (PSB + 1 + COL + 3 + COL)
  cfgReqI : Bool
  cfgCmdI : Ddr3Cmd
  cfgBaI : BitVec 3
  cfgAdrI : BitVec (PSB + 1 + COL)
  ddlRefI : Bool

variable {DDR_FREQ_MHZ PSB COL : ℕ}

section Wires

variable (s : State DDR_FREQ_MHZ PSB COL) (i : Inputs PSB COL)

def fsmInputs : Ddr3Fsm.Inputs PSB COL where
  reset := false
  memWrreqI := i.memWrreqI
  memWrlstI := i.memWrlstI
  memWradrI := i.memWradrI
  memRdreqI := i.memRdreqI
  memRdlstI := i.memRdlstI
  memRdadrI := i.memRdadrI
  cfgReqI := i.cfgReqI
  cfgCmdI := i.cfgCmdI
  cfgBaI := i.cfgBaI
  cfgAdrI := i.cfgAdrI
  ddlRdyI := s.ddl.ready
  ddlRefI := i.ddlRefI

def ddlInputs : Ddr3Ddl.Inputs (PSB + 1 + COL) where
  reset := false
  ddrCkeI := true
  ctlReqI := s.fsm.reqQ
  ctlCmdI := s.fsm.cmdQ
  ctlAdrI := s.fsm.adrQ

end Wires

def step (s : State DDR_FREQ_MHZ PSB COL) (i : Inputs PSB COL) : State DDR_FREQ_MHZ PSB COL where
  fsm := Ddr3Fsm.step s.fsm (fsmInputs s i)
  ddl := Ddr3Ddl.step DDR_FREQ_MHZ s.ddl (ddlInputs s)

end Ddr3Link

end MiscVerilogCores
