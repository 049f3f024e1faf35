import MiscVerilogCores.Model.PacketFifo

/-! # `ep_bulk_out.v`

A bulk OUT end-point: a packet FIFO that is written while the end-point is selected, and whose
packets are saved once they have been acknowledged. -/

namespace MiscVerilogCores.BulkOut

structure Params where
  maxPacketLength : ℕ
  dropOnOverflow : Bool
  enabled : Bool

/-- `state`, without the `ST_` of the source. -/
inductive Fsm where
  | halt | idle | recv | save | full
deriving DecidableEq, Inhabited

structure State (ABITS : ℕ) where
  state : Fsm
  parQ : Bool
  rstQ : Bool
  rdyQ : Bool
  fullQ : Bool
  fifo : PacketFifo.State 8 ABITS
deriving Inhabited

/-- `undef` is the value that a register takes where the source assigns `'bx`. -/
structure Inputs where
  reset : Bool
  setConfI : Bool
  clrConfI : Bool
  selectedI : Bool
  rxErrorI : Bool
  ackSentI : Bool
  sTvalid : Bool
  sTkeep : Bool
  sTlast : Bool
  sTdata : BitVec 8
  mTready : Bool
  undef : Bool

/-- The parameters of `U_FIFO1`. -/
def fifoParams (p : Params) : PacketFifo.Params where
  storeLasts := true
  saveOnLast := false
  lastOnSave := true
  nextOnLast := true
  useLength := false
  maxLength := p.maxPacketLength
  outreg := 2

variable {ABITS : ℕ}

section Wires

variable (p : Params) (s : State ABITS) (i : Inputs)

def epReadyO : Bool := s.rdyQ

def stalledO : Bool := s.state == .halt

def parityO : Bool := s.parQ

def treadyW : Bool := PacketFifo.sTready s.fifo

def sTready : Bool := treadyW s && s.state == .recv

/-- `space_w`, which goes negative when another packet might not fit. -/
def spaceW : BitVec (ABITS + 1) :=
  BitVec.ofNat _ (2 ^ ABITS) - s.fifo.levelQ.setWidth _ - BitVec.ofNat _ p.maxPacketLength - 1

/-- The port connections of `U_FIFO1`. -/
def fifoInputs : PacketFifo.Inputs 8 where
  reset := s.rstQ
  dropI := i.rxErrorI
  saveI := i.ackSentI
  redoI := false
  nextI := false
  sTvalid := s.state == .recv && i.sTvalid
  sTkeep := i.sTkeep
  sTlast := i.sTlast
  sTdata := i.sTdata
  mTready := i.mTready

def mTvalid : Bool := PacketFifo.mTvalid (fifoParams p) s.fifo

def mTlast : Bool := PacketFifo.mTlast (fifoParams p) s.fifo

def mTdata : BitVec 8 := PacketFifo.mTdata (fifoParams p) s.fifo

def stateNext : Fsm :=
  if i.reset || i.clrConfI || !p.enabled then .halt
  else match s.state with
    | .halt => if i.setConfI then .idle else .halt
    | .idle => if i.selectedI then .recv else .idle
    | .recv =>
        if !i.selectedI || i.rxErrorI then .halt
        else if i.sTvalid && sTready s && i.sTlast then .save
        else .recv
    | .save =>
        if i.ackSentI || i.rxErrorI then (if s.fullQ then .full else .idle) else .save
    | .full =>
        if !s.fullQ then .idle else if !p.dropOnOverflow && i.selectedI then .halt else .full

def rdyNext : Bool :=
  match s.state with
  | .idle => true
  | .halt | .full => false
  | _ => s.rdyQ

end Wires

/-- One clock edge. -/
def step (p : Params) (s : State ABITS) (i : Inputs) : State ABITS where
  state := stateNext p s i
  parQ :=
    if i.reset || i.setConfI then false
    else if s.state == .save && i.ackSentI then !s.parQ
    else s.parQ
  rstQ := i.reset || i.setConfI
  rdyQ := !(i.reset || i.setConfI) && rdyNext s
  fullQ := if i.reset || i.setConfI then i.undef else (spaceW p s).msb
  fifo := PacketFifo.step (fifoParams p) s.fifo (fifoInputs s i)

end MiscVerilogCores.BulkOut
