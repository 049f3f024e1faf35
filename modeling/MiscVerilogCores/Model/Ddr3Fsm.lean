import Mathlib.Data.Nat.Notation

/-! # `ddr3_fsm.v`

The command scheduler: activates a row, issues the column commands of a burst, and
lets the last of them precharge. The row has more bits than the column, the lowest
of the extra ones being the auto-precharge bit of a column command. -/

namespace MiscVerilogCores

/-- The command encodings of `ddr3_settings.vh`. -/
inductive Ddr3Cmd where
  | noop | zqcl | read | writ | actv | prec | refr | mode
deriving DecidableEq, Inhabited

namespace Ddr3Fsm

inductive Phase where
  | idle | read | writ | actv | refr
deriving DecidableEq, Inhabited

structure State (PSB COL : ℕ) where
  state : Phase
  adrQ : BitVec (PSB + 1 + COL)
  colQ : BitVec COL
  baQ : BitVec 3
  preQ : BitVec (PSB + 1)
  wrack : Bool
  rdack : Bool
  cmdQ : Ddr3Cmd
  reqQ : Bool
  wenQ : Bool
deriving Inhabited

structure Inputs (PSB COL : ℕ) where
  reset : Bool
  memWrreqI : Bool
  memWrlstI : Bool
  memWradrI : BitVec (PSB + 1 + COL + 3 + COL)
  memRdreqI : Bool
  memRdlstI : Bool
  memRdadrI : BitVec (PSB + 1 + COL + 3 + COL)
  cfgReqI : Bool
  cfgCmdI : Ddr3Cmd
  cfgBaI : BitVec 3
  cfgAdrI : BitVec (PSB + 1 + COL)
  ddlRdyI : Bool
  ddlRefI : Bool

variable {PSB COL : ℕ}

/-! ## The fields of a request address, `{row, bank, col}` -/

def rowOf (adr : BitVec (PSB + 1 + COL + 3 + COL)) : BitVec (PSB + 1 + COL) :=
  adr.extractLsb' (3 + COL) (PSB + 1 + COL)

def bankOf (adr : BitVec (PSB + 1 + COL + 3 + COL)) : BitVec 3 := adr.extractLsb' COL 3

def colOf (adr : BitVec (PSB + 1 + COL + 3 + COL)) : BitVec COL := adr.setWidth COL

/-- `mem_rdlst_i ? PUNIT : PZERO`, and likewise for writes. -/
def precharge (lst : Bool) : BitVec (PSB + 1) := if lst then 1 else 0

/-! ## Next state, for each state -/

section Logic

variable (s : State PSB COL) (i : Inputs PSB COL)

def idleNext : State PSB COL :=
  if i.ddlRefI then
    { s with
      state := .refr
      adrQ := precharge true ++ s.colQ
      preQ := precharge true
      wrack := false
      rdack := false
      cmdQ := .refr
      reqQ := true
      wenQ := false }
  else if i.memRdreqI then
    { state := .actv
      adrQ := rowOf i.memRdadrI
      baQ := bankOf i.memRdadrI
      colQ := colOf i.memRdadrI
      preQ := precharge i.memRdlstI
      wrack := false
      rdack := true
      cmdQ := .actv
      reqQ := true
      wenQ := false }
  else if i.memWrreqI then
    { state := .actv
      adrQ := rowOf i.memWradrI
      baQ := bankOf i.memWradrI
      colQ := colOf i.memWradrI
      preQ := precharge i.memWrlstI
      wrack := true
      rdack := false
      cmdQ := .actv
      reqQ := true
      wenQ := true }
  else { s with wrack := false, rdack := false, wenQ := false }

def actvNext : State PSB COL :=
  if i.ddlRdyI then
    { s with
      state := if s.wenQ then .writ else .read
      adrQ := s.preQ ++ s.colQ
      wrack := false
      rdack := false
      cmdQ := if s.wenQ then .writ else .read }
  else { s with wrack := false, rdack := false }

/-- A burst goes on with the next request, without another ACTIVATE. -/
def writNext : State PSB COL :=
  if i.ddlRdyI then
    if s.preQ == 0 && i.memWrreqI then
      { s with
        adrQ := precharge i.memWrlstI ++ colOf i.memWradrI
        colQ := colOf i.memWradrI
        preQ := precharge i.memWrlstI
        wrack := true
        rdack := false
        cmdQ := .writ }
    else
      { s with
        state := .idle
        adrQ := s.preQ ++ s.colQ
        wrack := false
        rdack := false
        cmdQ := .noop
        reqQ := false
        wenQ := false }
  else { s with wrack := false, rdack := false }

def readNext : State PSB COL :=
  if i.ddlRdyI then
    if s.preQ == 0 && i.memRdreqI then
      { s with
        adrQ := precharge i.memRdlstI ++ colOf i.memRdadrI
        colQ := colOf i.memRdadrI
        preQ := precharge i.memRdlstI
        wrack := false
        rdack := true
        cmdQ := .read }
    else
      { s with
        state := .idle
        adrQ := s.preQ ++ s.colQ
        wrack := false
        rdack := false
        cmdQ := .noop
        reqQ := false }
  else { s with wrack := false, rdack := false }

def refrNext : State PSB COL :=
  if !i.ddlRefI || i.ddlRdyI then
    { s with state := .idle, wrack := false, rdack := false, cmdQ := .noop, reqQ := false }
  else { s with wrack := false, rdack := false }

/-- In reset the configuration port drives the command registers. -/
def resetNext : State PSB COL where
  state := .idle
  adrQ := i.cfgAdrI
  colQ := i.cfgAdrI.setWidth COL
  baQ := i.cfgBaI
  preQ := i.cfgAdrI.extractLsb' COL (PSB + 1)
  wrack := false
  rdack := false
  cmdQ := i.cfgCmdI
  reqQ := i.cfgReqI
  wenQ := true

/-- One clock edge. -/
def step : State PSB COL :=
  if i.reset then resetNext i
  else
    match s.state with
    | .idle => idleNext s i
    | .actv => actvNext s i
    | .writ => writNext s i
    | .read => readNext s i
    | .refr => refrNext s i

end Logic

/-! ## The data-layer port -/

/-- The data layer accepts the presented command. -/
def accepts (s : State PSB COL) (i : Inputs PSB COL) : Bool := s.reqQ && i.ddlRdyI

/-- The auto-precharge bit of the presented address. -/
def autoPrecharge (s : State PSB COL) : Bool := s.adrQ.getLsbD COL

end Ddr3Fsm

end MiscVerilogCores
