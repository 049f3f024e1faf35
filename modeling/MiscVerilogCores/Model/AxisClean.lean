import MiscVerilogCores.Model.SyncFifo

/-! # `axis_clean.v`

Takes the empty beats out of a stream. A kept word is held back until the next one is offered or the
frame has ended, so that `tlast` goes with the last kept word. -/

namespace MiscVerilogCores.AxisClean

/-- `ABITS`, the address bits of a FIFO of `DEPTH` words. -/
def abits (DEPTH : ℕ) : ℕ := if DEPTH ≤ 1 then 0 else Nat.log2 (DEPTH - 1) + 1

/-- `REGS`. -/
def regs (DEPTH : ℕ) : ℕ := if DEPTH > 32 then 3 else 0

structure State (WIDTH DEPTH : ℕ) where
  xvalid : Bool
  xlast : Bool
  xdata : BitVec WIDTH
  fifo : SyncFifo.State (1 + WIDTH) (abits DEPTH)
deriving Inhabited

structure Inputs (WIDTH : ℕ) where
  reset : Bool
  sTvalid : Bool
  sTlast : Bool
  sTkeep : Bool
  sTdata : BitVec WIDTH
  mTready : Bool
deriving Inhabited

variable {WIDTH DEPTH : ℕ}

section Wires

variable (s : State WIDTH DEPTH) (i : Inputs WIDTH)

def readyW : Bool := SyncFifo.readyO s.fifo

def sTready : Bool := readyW s

def validW : Bool := s.xvalid && ((i.sTvalid && i.sTkeep) || s.xlast)

def storeW : Bool := !s.xvalid || (validW s i && readyW s)

/-- The port connections of `U_AXIS_FIFO`. -/
def fifoInputs : SyncFifo.Inputs (1 + WIDTH) where
  reset := i.reset
  validI := validW s i
  dataI := BitVec.ofBool s.xlast ++ s.xdata
  readyI := i.mTready

def mTvalid : Bool := SyncFifo.validO (regs DEPTH) s.fifo (fifoInputs s i)

def mTlast : Bool := (SyncFifo.dataO (regs DEPTH) s.fifo (fifoInputs s i)).msb

def mTdata : BitVec WIDTH := (SyncFifo.dataO (regs DEPTH) s.fifo (fifoInputs s i)).setWidth WIDTH

end Wires

/-- One clock edge. `xdata`, which a reset leaves unknown, is not looked at before it is loaded. -/
def step (s : State WIDTH DEPTH) (i : Inputs WIDTH) : State WIDTH DEPTH where
  xvalid :=
    if i.reset then false
    else if i.sTvalid && i.sTkeep && storeW s i then true
    else if !i.sTvalid && storeW s i then false
    else s.xvalid
  xlast :=
    if i.reset then false
    else if i.sTvalid && i.sTkeep && storeW s i then i.sTlast
    else if !i.sTvalid && storeW s i then false
    else if i.sTvalid && !i.sTkeep && i.sTlast && s.xvalid && !s.xlast then true
    else s.xlast
  xdata := if i.sTvalid && i.sTkeep && storeW s i then i.sTdata else s.xdata
  fifo := SyncFifo.step (regs DEPTH) s.fifo (fifoInputs s i)

/-! ## What passes through the ports -/

structure Beat (WIDTH : ℕ) where
  tlast : Bool
  tkeep : Bool
  tdata : BitVec WIDTH
deriving DecidableEq

/-- The beat accepted at the input port in a cycle. -/
def accepted (s : State WIDTH DEPTH) (i : Inputs WIDTH) : List (Beat WIDTH) :=
  if i.sTvalid && sTready s then [⟨i.sTlast, i.sTkeep, i.sTdata⟩] else []

/-- The word delivered at the output port in a cycle, with its `tlast`. -/
def delivered (s : State WIDTH DEPTH) (i : Inputs WIDTH) : List (Bool × BitVec WIDTH) :=
  if mTvalid s i && i.mTready then [(mTlast s i, mTdata s i)] else []

/-- The state after a clock edge with `reset` asserted, whatever came before. -/
def afterReset (s : State WIDTH DEPTH) (i : Inputs WIDTH) : State WIDTH DEPTH :=
  step s { i with reset := true }

end MiscVerilogCores.AxisClean
