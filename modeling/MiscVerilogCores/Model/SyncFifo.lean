import MiscVerilogCores.Library.RingMemory
import MiscVerilogCores.Model.Skid

/-! # `sync_fifo.v`

The memory array and its pointers, the optional SRAM output register, and the
skid loader behind it. `OUTREG` selects the output pipeline. -/

namespace MiscVerilogCores.SyncFifo

open RingMemory

structure State (WIDTH ABITS : ℕ) where
  sram : BitVec ABITS → BitVec WIDTH
  wready : Bool
  rvalid : Bool
  waddr : BitVec (ABITS + 1)
  raddr : BitVec (ABITS + 1)
  levelQ : BitVec ABITS
  xvalid : Bool
  xdata : BitVec WIDTH
  skid : SkidLoader.State WIDTH
deriving Inhabited

structure Inputs (WIDTH : ℕ) where
  reset : Bool
  validI : Bool
  dataI : BitVec WIDTH
  readyI : Bool

variable {WIDTH ABITS : ℕ} (OUTREG : ℕ)

/-- The parameters of `axis_skid_inst`. -/
def skidParams (WIDTH : ℕ) : SkidLoader.Params WIDTH where
  bypass := !decide (1 < OUTREG)
  loader := decide (2 < OUTREG)
  resetTdata := false
  resetValue := 0

section Wires

variable (s : State WIDTH ABITS) (i : Inputs WIDTH)

def readyO : Bool := s.wready

def sready : Bool := SkidLoader.sTready (skidParams OUTREG WIDTH) s.skid i.readyI

def tready : Bool := SkidLoader.tTready (skidParams OUTREG WIDTH) s.skid

/-- The incoming word may not bypass the SRAM. -/
def noregW : Bool :=
  decide (OUTREG < 2) || s.rvalid || (s.xvalid && !tready OUTREG s) || !sready OUTREG s i

def storeW : Bool :=
  if OUTREG = 0 then s.wready && i.validI
  else i.validI && s.wready && noregW OUTREG s i

def fetchW : Bool :=
  if OUTREG = 0 then s.rvalid && i.readyI
  else s.rvalid && (!s.xvalid || (s.xvalid && sready OUTREG s i))

def tvalidW : Bool := !s.rvalid && s.xvalid && i.validI && s.wready

def svalidW : Bool :=
  s.xvalid || (!s.xvalid && !s.rvalid && i.validI && decide (1 < OUTREG))

def sdataW : BitVec WIDTH :=
  if !s.xvalid && i.validI && sready OUTREG s i && decide (1 < OUTREG) then i.dataI else s.xdata

/-- The port connections of `axis_skid_inst`. -/
def skidInputs : SkidLoader.Inputs WIDTH where
  reset := i.reset
  sTvalid := svalidW OUTREG s i
  sTlast := false
  sTdata := sdataW OUTREG s i
  tTvalid := tvalidW s i
  tTlast := false
  tTdata := i.dataI
  mTready := i.readyI

def validO : Bool :=
  if OUTREG = 0 then s.rvalid
  else SkidLoader.mTvalid (skidParams OUTREG WIDTH) s.skid (skidInputs OUTREG s i)

def dataO : BitVec WIDTH :=
  if OUTREG = 0 then s.sram (slot s.raddr)
  else SkidLoader.mTdata (skidParams OUTREG WIDTH) s.skid (skidInputs OUTREG s i)

def waddrNext : BitVec (ABITS + 1) := s.waddr + 1

def raddrNext : BitVec (ABITS + 1) := s.raddr + 1

def matchW : Bool := slot s.waddr == slot s.raddr

def wrfullNext : Bool :=
  slot (waddrNext s) == slot s.raddr && storeW OUTREG s i && !fetchW OUTREG s i

def wrfullCurr : Bool :=
  matchW s && s.waddr.msb != s.raddr.msb && fetchW OUTREG s i == storeW OUTREG s i

def remptyNext : Bool :=
  slot (raddrNext s) == slot s.waddr && fetchW OUTREG s i && !storeW OUTREG s i

def remptyCurr : Bool :=
  matchW s && s.waddr.msb == s.raddr.msb && fetchW OUTREG s i == storeW OUTREG s i

def wfullW : Bool := wrfullCurr OUTREG s i || wrfullNext OUTREG s i

def emptyW : Bool := remptyCurr OUTREG s i || remptyNext OUTREG s i

def incrW : Bool := i.validI && s.wready

def decrW : Bool := validO OUTREG s i && i.readyI

/-- `level_q + incr_w - decr_w`, of which the register keeps the low bits. -/
def lnextW : BitVec (ABITS + 1) :=
  s.levelQ.setWidth (ABITS + 1) + (BitVec.ofBool (incrW s i)).setWidth (ABITS + 1)
    - (BitVec.ofBool (decrW OUTREG s i)).setWidth (ABITS + 1)

end Wires

/-- One clock edge. -/
def step (s : State WIDTH ABITS) (i : Inputs WIDTH) : State WIDTH ABITS where
  sram :=
    if !i.reset && storeW OUTREG s i then Function.update s.sram (slot s.waddr) i.dataI else s.sram
  wready := !i.reset && !wfullW OUTREG s i
  rvalid := !i.reset && !emptyW OUTREG s i
  waddr := if i.reset then 0 else if storeW OUTREG s i then waddrNext s else s.waddr
  raddr := if i.reset then 0 else if fetchW OUTREG s i then raddrNext s else s.raddr
  levelQ := if i.reset then 0 else (lnextW OUTREG s i).setWidth ABITS
  xvalid :=
    if i.reset then false
    else if fetchW OUTREG s i then true
    else if s.xvalid && sready OUTREG s i then false
    else s.xvalid
  xdata := if !i.reset && fetchW OUTREG s i then s.sram (slot s.raddr) else s.xdata
  skid := SkidLoader.step (skidParams OUTREG WIDTH) s.skid (skidInputs OUTREG s i)

/-! ## What passes through the ports -/

/-- The word accepted at the input port in a cycle. -/
def accepted (s : State WIDTH ABITS) (i : Inputs WIDTH) : List (BitVec WIDTH) :=
  if i.validI && readyO s then [i.dataI] else []

/-- The word delivered at the output port in a cycle. -/
def delivered (s : State WIDTH ABITS) (i : Inputs WIDTH) : List (BitVec WIDTH) :=
  if validO OUTREG s i && i.readyI then [dataO OUTREG s i] else []

/-- The state after a clock edge with `reset` asserted, whatever came before. -/
def afterReset (s : State WIDTH ABITS) : State WIDTH ABITS :=
  step OUTREG s { reset := true, validI := false, dataI := 0, readyI := false }

end MiscVerilogCores.SyncFifo
