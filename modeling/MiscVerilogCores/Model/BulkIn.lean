import MiscVerilogCores.Model.PacketFifo
import Mathlib.Data.Nat.Log

/-! # `ep_bulk_in.v`

A bulk IN end-point: a receiver that cuts a byte stream into packets, a packet FIFO, and
a transmitter that sends a packet when polled and sends it again when it timed out. -/

namespace MiscVerilogCores.BulkIn

structure Params where
  maxPacketLength : ℕ
  enabled : Bool

/-- The width of the byte counters. -/
def Params.cbits (p : Params) : ℕ := Nat.clog 2 p.maxPacketLength

/-- The receive states, `RX_HALT` to `RX_FULL`. -/
inductive Recv where
  | halt | recv | full
deriving DecidableEq, Inhabited

/-- The transmit states, `TX_IDLE` to `TX_REDO`. -/
inductive Send where
  | idle | send | wait | none | redo
deriving DecidableEq, Inhabited

structure State (ABITS : ℕ) (p : Params) where
  recv : Recv
  send : Send
  rstQ : Bool
  parQ : Bool
  setQ : Bool
  zdpQ : Bool
  rdyQ : Bool
  rcount : BitVec p.cbits
  scount : BitVec p.cbits
  fifo : PacketFifo.State 8 ABITS
deriving Inhabited

structure Inputs where
  reset : Bool
  setConfI : Bool
  clrConfI : Bool
  selectedI : Bool
  ackRecvI : Bool
  timedoutI : Bool
  sTvalid : Bool
  sTlast : Bool
  sTdata : BitVec 8
  mTready : Bool

/-- The parameters of `U_FIFO1`. -/
def fifoParams (p : Params) : PacketFifo.Params where
  storeLasts := true
  saveOnLast := true
  lastOnSave := true
  nextOnLast := false
  useLength := true
  maxLength := p.maxPacketLength
  outreg := 2

variable {ABITS : ℕ} {p : Params}

section Wires

variable (s : State ABITS p) (i : Inputs)

def treadyW : Bool := PacketFifo.sTready s.fifo

def tvalidR : Bool := PacketFifo.mTvalid (fifoParams p) s.fifo

def tlastR : Bool := PacketFifo.mTlast (fifoParams p) s.fifo

def epReadyO : Bool := s.rdyQ

def stalledO : Bool := !s.setQ

def parityO : Bool := s.parQ

def sTready : Bool := treadyW s && s.setQ && s.recv == .recv

def mTvalid : Bool := (s.send == .send && tvalidR s) || s.send == .none

def treadyR : Bool := s.send == .send && i.mTready

def mTlast : Bool := (s.send == .send && tlastR s) || s.send == .none

def mTkeep : Bool := s.send == .send

def mTdata : BitVec 8 := PacketFifo.mTdata (fifoParams p) s.fifo

/-- `rcount == CMAX`. -/
def rcountMax : Bool := s.rcount == BitVec.allOnes p.cbits

/-- `scount == CMAX`. -/
def scountMax : Bool := s.scount == BitVec.allOnes p.cbits

def saveW : Bool := i.sTvalid && treadyW s && (i.sTlast || rcountMax s)

def redoW : Bool := s.send == .wait && i.selectedI && i.timedoutI

def nextW : Bool := s.send == .wait && i.selectedI && i.ackRecvI

/-- The port connections of `U_FIFO1`. -/
def fifoInputs : PacketFifo.Inputs 8 where
  reset := s.rstQ
  dropI := false
  saveI := saveW s i
  redoI := redoW s i
  nextI := nextW s i
  sTvalid := i.sTvalid
  sTkeep := i.sTvalid
  sTlast := i.sTlast
  sTdata := i.sTdata
  mTready := treadyR s i

/-- The next receive state. -/
def rnxt : Recv :=
  if i.clrConfI then .halt
  else if i.setConfI then .recv
  else match s.recv with
    | .halt => .halt
    | .recv => if saveW s i && decide (p.maxPacketLength ≤ s.fifo.levelQ.toNat) then .full else .recv
    | .full => if decide (s.fifo.levelQ.toNat < p.maxPacketLength) then .recv else .full

/-- The next transmit state. -/
def snxt : Send :=
  if !s.setQ || !p.enabled then .idle
  else match s.send with
    | .idle => if i.selectedI then (if tvalidR s then .send else .none) else .idle
    | .send => if tvalidR s && i.mTready && tlastR s then .wait else .send
    | .wait =>
        if i.selectedI && i.ackRecvI then (if s.zdpQ then .none else .idle)
        else if i.selectedI && i.timedoutI then .redo
        else .wait
    | .none => if mTvalid s && i.mTready && mTlast s then .wait else .none
    | .redo => if i.selectedI then .send else .redo

end Wires

/-- One clock edge. -/
def step (s : State ABITS p) (i : Inputs) : State ABITS p where
  recv := rnxt s i
  send := snxt s i
  rstQ := i.reset || i.setConfI || i.clrConfI
  parQ := if i.setConfI then false else if nextW s i then !s.parQ else s.parQ
  setQ := if i.reset || i.clrConfI then false else if i.setConfI then true else s.setQ
  zdpQ :=
    if !s.setQ || (s.send == .wait && (i.ackRecvI || i.timedoutI)) then false
    else if scountMax s && tvalidR s && treadyR s i && tlastR s then true
    else s.zdpQ
  rdyQ := s.setQ && (tvalidR s || s.send == .none || s.zdpQ)
  rcount :=
    if i.setConfI || !p.enabled then 0
    else if i.sTvalid && treadyW s then (if i.sTlast then 0 else s.rcount + 1)
    else s.rcount
  scount :=
    if i.setConfI || !p.enabled then 0
    else if mTvalid s && i.mTready then (if mTlast s then 0 else s.scount + 1)
    else s.scount
  fifo := PacketFifo.step (fifoParams p) s.fifo (fifoInputs s i)

end MiscVerilogCores.BulkIn
