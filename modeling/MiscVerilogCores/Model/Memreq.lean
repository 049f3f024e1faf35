import Mathlib.Data.Nat.Notation

/-! # `memreq.v`

The parser of memory requests, in the domain of `bus_clock`: a header of six bytes, and for a STORE
the data behind it. The command goes to a FIFO that the memory domain reads, the data to the write
adapter. What these and the response multiplexer do is seen at their ports. -/

namespace MiscVerilogCores.Memreq

/-- `mop_q`, without the `OP_` of the source. -/
inductive Mop where
  | idle | size | adr0 | adr1 | adr2 | idad | busy
deriving DecidableEq, Inhabited

/-- `state`, without the `ST_` of the source. -/
inductive Fsm where
  | idle | wadr | wdat | resp | radr | rdat | send | done
deriving DecidableEq, Inhabited

structure State where
  newQ : Bool
  cycQ : Bool
  endQ : Bool
  stbQ : Bool
  wenQ : Bool
  mopQ : Mop
  cmdQ : BitVec 8
  lenQ : BitVec 8
  cntQ : BitVec 10
  adrQ : BitVec 28
  tidQ : BitVec 4
  state : Fsm
deriving Inhabited

/-- `cready_w` and `sready_w` are those of the command FIFO and of the write adapter, `rvalid_w` that
of the write responses, and `mux_q` and `sel_q` are set by the response multiplexer. -/
structure Inputs where
  busReset : Bool
  sTvalid : Bool
  sTkeep : Bool
  sTlast : Bool
  sTdata : BitVec 8
  sreadyW : Bool
  creadyW : Bool
  rvalidW : Bool
  bTvalid : Bool
  bTready : Bool
  bTlast : Bool
  mTvalid : Bool
  mTready : Bool
  mTlast : Bool
  muxQ : Bool
  selQ : Bool

/-- `cdata_w`, with `cmd_q[7]` as `read`. -/
structure Command where
  read : Bool
  tid : BitVec 4
  len : BitVec 8
  adr : BitVec 28
deriving DecidableEq

section Wires

variable (s : State) (i : Inputs)

def sTready : Bool := i.sreadyW && i.creadyW && s.cycQ

def tkeepW : Bool := s.wenQ

def tlastW : Bool := i.sTlast || s.endQ

def svalidW : Bool := i.sTvalid && tkeepW s

def decW : BitVec 11 := s.cntQ.setWidth 11 - 1

def incW : BitVec 9 := s.lenQ.setWidth 9 + 1

def cmdEndW : Bool := s.mopQ == .idad

def cvalidW : Bool := s.stbQ

def cdataW : Command := ⟨s.cmdQ.msb, s.tidQ, s.lenQ, s.adrQ⟩

/-- The next state of the FSM for memory requests. -/
def stateNext : Fsm :=
  if i.busReset then .idle
  else match s.state with
    | .idle =>
        if i.sTvalid && sTready s i && i.sTkeep then (if i.sTdata.msb then .radr else .wadr)
        else .idle
    | .wadr => if cmdEndW s then .wdat else .wadr
    | .wdat => if i.sTvalid && sTready s i && (i.sTlast || s.endQ) then .resp else .wdat
    | .resp => if i.rvalidW then .done else .resp
    | .radr => if cmdEndW s then .rdat else .radr
    | .rdat => if i.bTvalid && i.bTready && i.bTlast then .send else .rdat
    | .send => if i.mTvalid && i.mTready && i.mTlast then .idle else .send
    | .done => if i.muxQ || i.selQ then .done else .idle

/-- The registers of the header, when a byte is taken. -/
def parse : State :=
  match s.mopQ with
  | .idle => { s with cmdQ := i.sTdata, mopQ := .size }
  | .size => { s with lenQ := i.sTdata, mopQ := .adr0 }
  | .adr0 => { s with adrQ := s.adrQ.extractLsb' 8 20 ++ i.sTdata, mopQ := .adr1 }
  | .adr1 =>
      { s with adrQ := s.adrQ.extractLsb' 16 12 ++ (i.sTdata ++ s.adrQ.setWidth 8), mopQ := .adr2 }
  | .adr2 =>
      { s with adrQ := s.adrQ.extractLsb' 24 4 ++ (i.sTdata ++ s.adrQ.setWidth 16), mopQ := .idad }
  | .idad =>
      { s with
        tidQ := i.sTdata.extractLsb' 4 4, adrQ := i.sTdata.setWidth 4 ++ s.adrQ.setWidth 24,
        cntQ := (incW s).setWidth 8 ++ 0#2, mopQ := .busy }
  | .busy => { s with cntQ := (decW s).setWidth 10 }

/-- The registers of the header after an edge. `bus_reset` leaves `len_q`, `adr_q` and `tid_q`
unknown; here they keep their values. -/
def header : State :=
  if i.busReset then { s with mopQ := .idle, cntQ := 0 }
  else if !s.cycQ then { s with cmdQ := i.sTdata, mopQ := .idle }
  else if i.sTvalid && sTready s i then parse s i
  else s

/-- A request begins. -/
def begins : Bool := !s.cycQ && s.state == .idle && i.sTvalid && i.sTkeep

end Wires

/-- One clock edge of `bus_clock`. -/
def step (s : State) (i : Inputs) : State :=
  { header s i with
    newQ := !i.busReset && begins s i
    cycQ :=
      if i.busReset then false
      else if begins s i then true
      else s.cycQ && !(i.sTvalid && sTready s i &&
        (tlastW s i || (s.mopQ == .idad && s.cmdQ.msb)))
    endQ :=
      if i.busReset || begins s i then false
      else (i.sTvalid && sTready s i && decW s == 1) ||
        ((!i.sTvalid || !sTready s i) && decW s == 0)
    stbQ :=
      if i.busReset || (s.stbQ && i.creadyW) then false
      else if s.mopQ == .idad then true
      else s.stbQ
    wenQ :=
      if i.busReset then false
      else if s.cmdQ.msb == false && s.mopQ == .idad && s.state != .idle then true
      else if i.sTvalid && sTready s i && tlastW s i then false
      else s.wenQ
    state := stateNext s i }

/-! ## What passes through the ports -/

/-- The byte that is taken at an edge. -/
def taken (s : State) (i : Inputs) : List (BitVec 8) :=
  if i.sTvalid && sTready s i then [i.sTdata] else []

/-- The command that the FIFO takes at an edge. -/
def pushed (s : State) (i : Inputs) : List Command :=
  if cvalidW s && i.creadyW then [cdataW s] else []

/-- The byte that the write adapter takes at an edge, with its `tlast`. -/
def written (s : State) (i : Inputs) : List (Bool × BitVec 8) :=
  if svalidW s i && i.sreadyW then [(tlastW s i, i.sTdata)] else []

end MiscVerilogCores.Memreq
