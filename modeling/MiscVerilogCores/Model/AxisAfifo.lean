import MiscVerilogCores.Library.GrayCode
import MiscVerilogCores.Library.RingMemory

/-! # `axis_afifo.v`

An asynchronous FIFO, over `afifo_gray.v`: each clock domain keeps a pointer in binary and as a
Gray code, and samples the Gray code of the other. -/

namespace MiscVerilogCores

open RingMemory GrayCode

/-! ## `afifo_gray` -/

namespace AfifoGray

structure State (WIDTH ABITS : ℕ) where
  wfullQ : Bool
  remptyQ : Bool
  wpBin : BitVec (ABITS + 1)
  wpGray : BitVec (ABITS + 1)
  rpBin : BitVec (ABITS + 1)
  rpGray : BitVec (ABITS + 1)
  wpS : BitVec (ABITS + 1)
  rpS : BitVec (ABITS + 1)
  rdRst : Bool
  wrRst : Bool
  rdRstR : Bool
  wrRstR : Bool
  sram : BitVec ABITS → BitVec WIDTH

/-- What happens at a moment: which of the clocks have an edge, and, where both have, whether the
flops that sample a pointer of the other domain see its new value or its old one. -/
structure Edge where
  wrClk : Bool
  rdClk : Bool
  wrSeesNew : Bool
  rdSeesNew : Bool

structure Inputs (WIDTH : ℕ) where
  resetNi : Bool
  wrEnI : Bool
  wrDataI : BitVec WIDTH
  rdEnI : Bool

variable {WIDTH ABITS : ℕ}

/-- The initial values of the registers, with any values in the memory block. -/
def initial (sram : BitVec ABITS → BitVec WIDTH) : State WIDTH ABITS where
  wfullQ := false
  remptyQ := true
  wpBin := 0
  wpGray := 0
  rpBin := 0
  rpGray := 0
  wpS := 0
  rpS := 0
  rdRst := true
  wrRst := true
  rdRstR := true
  wrRstR := true
  sram := sram

section Wires

variable (s : State WIDTH ABITS) (i : Inputs WIDTH)

def wfullO : Bool := s.wfullQ

def remptyO : Bool := s.remptyQ

def rdDataO : BitVec WIDTH := s.sram (slot s.rpBin)

def wpBinNext : BitVec (ABITS + 1) := s.wpBin + 1

def wpGrayNext : BitVec (ABITS + 1) := wpBinNext s ^^^ (wpBinNext s >>> 1)

def rpBinNext : BitVec (ABITS + 1) := s.rpBin + 1

def rpGrayNext : BitVec (ABITS + 1) := rpBinNext s ^^^ (rpBinNext s >>> 1)

/-- `rp_bin_x`, a wire that feeds back into its own assignment. -/
def rpBinX : BitVec (ABITS + 1) := ungray s.rpS

def fullCurr : Bool := slot s.wpBin == slot (rpBinX s) && s.wpBin.msb != (rpBinX s).msb

def fullNext : Bool :=
  i.wrEnI && slot (wpBinNext s) == slot (rpBinX s) && (wpBinNext s).msb != (rpBinX s).msb

/-- `{wp_bin, wp_gray}` after an edge of the write clock. -/
def wpNext : BitVec (ABITS + 1) × BitVec (ABITS + 1) :=
  if s.wrRst then (0, 0)
  else if i.wrEnI then (wpBinNext s, wpGrayNext s)
  else (s.wpBin, s.wpGray)

/-- `{rp_bin, rp_gray}` after an edge of the read clock. -/
def rpNext : BitVec (ABITS + 1) × BitVec (ABITS + 1) :=
  if s.rdRst then (0, 0)
  else if i.rdEnI then (rpBinNext s, rpGrayNext s)
  else (s.rpBin, s.rpGray)

end Wires

/-- One moment. The resets are set without a clock edge. -/
def step (s : State WIDTH ABITS) (e : Edge) (i : Inputs WIDTH) : State WIDTH ABITS where
  rdRstR := if !i.resetNi then true else if e.rdClk then false else s.rdRstR
  rdRst := if !i.resetNi then true else if e.rdClk && !s.rdRstR then false else s.rdRst
  wrRstR := if !i.resetNi then true else if e.wrClk then false else s.wrRstR
  wrRst := if !i.resetNi then true else if e.wrClk && !s.wrRstR then false else s.wrRst
  sram :=
    if e.wrClk && i.wrEnI && !s.wrRst then Function.update s.sram (slot s.wpBin) i.wrDataI
    else s.sram
  wpBin := if e.wrClk then (wpNext s i).1 else s.wpBin
  wpGray := if e.wrClk then (wpNext s i).2 else s.wpGray
  rpBin := if e.rdClk then (rpNext s i).1 else s.rpBin
  rpGray := if e.rdClk then (rpNext s i).2 else s.rpGray
  wpS :=
    if e.rdClk then (if e.wrClk && e.rdSeesNew then (wpNext s i).2 else s.wpGray) else s.wpS
  rpS :=
    if e.wrClk then (if e.rdClk && e.wrSeesNew then (rpNext s i).2 else s.rpGray) else s.rpS
  remptyQ :=
    if e.rdClk then !i.resetNi || s.wpS == s.rpGray || (i.rdEnI && s.wpS == rpGrayNext s)
    else s.remptyQ
  wfullQ := if e.wrClk then i.resetNi && (fullCurr s || fullNext s i) else s.wfullQ

end AfifoGray

/-! ## `axis_afifo` -/

namespace AxisAfifo

open AfifoGray (State Edge)

/-- With `TLAST` at its default, `tlast` is stored in front of the data. -/
structure Inputs (WIDTH : ℕ) where
  aresetn : Bool
  sTvalid : Bool
  sTlast : Bool
  sTdata : BitVec WIDTH
  mTready : Bool

variable {WIDTH ABITS : ℕ}

section Wires

variable (s : State (WIDTH + 1) ABITS) (i : Inputs WIDTH)

def sTready : Bool := !AfifoGray.wfullO s

def mTvalid : Bool := !AfifoGray.remptyO s

def storeW : Bool := i.sTvalid && !AfifoGray.wfullO s

def wdataW : BitVec (WIDTH + 1) := BitVec.cons i.sTlast i.sTdata

def fetchW : Bool := i.mTready && !AfifoGray.remptyO s

/-- `{m_tlast, m_tdata}`. -/
def rdataW : BitVec (WIDTH + 1) := AfifoGray.rdDataO s

/-- The port connections of `AFIFO0`. -/
def fifoInputs : AfifoGray.Inputs (WIDTH + 1) where
  resetNi := i.aresetn
  wrEnI := storeW s i
  wrDataI := wdataW i
  rdEnI := fetchW s i

end Wires

def step (s : State (WIDTH + 1) ABITS) (e : Edge × Inputs WIDTH) : State (WIDTH + 1) ABITS :=
  AfifoGray.step s e.1 (fifoInputs s e.2)

/-- Both synchronisers have released their resets. -/
def Released (s : State (WIDTH + 1) ABITS) : Prop := s.rdRst = false ∧ s.wrRst = false

/-- The word that passes through the `s_` port. -/
def accepted (s : State (WIDTH + 1) ABITS) (e : Edge × Inputs WIDTH) : List (BitVec (WIDTH + 1)) :=
  if e.1.wrClk && e.2.sTvalid && sTready s then [wdataW e.2] else []

/-- The word that passes through the `m_` port. -/
def delivered (s : State (WIDTH + 1) ABITS) (e : Edge × Inputs WIDTH) :
    List (BitVec (WIDTH + 1)) :=
  if e.1.rdClk && mTvalid s && e.2.mTready then [rdataW s] else []

/-- The memory block is written. -/
def Writes (s : State (WIDTH + 1) ABITS) (e : Edge × Inputs WIDTH) : Prop :=
  e.1.wrClk = true ∧ (fifoInputs s e.2).wrEnI = true ∧ s.wrRst = false

end AxisAfifo

end MiscVerilogCores
