import MiscVerilogCores.Model.UsbDefs

/-! # `protocol.v`

The transaction layer of the USB protocol: selects the end-points, checks the sequence bits,
answers with handshakes, and times out. -/

namespace MiscVerilogCores.Protocol

open Usb

/-- The parameters of a bulk end-point. -/
structure BulkEp where
  number : BitVec 4
  useIn : Bool
  useOut : Bool

structure Params where
  ep1 : BulkEp
  ep2 : BulkEp
  ep3 : BulkEp
  ep4 : BulkEp
  maxTaTimer : BitVec 7
  maxEpTimer : BitVec 5

/-- `EP1_EN` to `EP4_EN`. -/
def BulkEp.en (e : BulkEp) : Bool := e.number != 0 && (e.useIn || e.useOut)

/-- `state`, without the `ST_` of the source. -/
inductive Fsm where
  | idle | recv | resp | drop | send | wait
deriving DecidableEq, Inhabited

/-- The registers of a bulk end-point. -/
structure EpState where
  en : Bool
  selQ : Bool
  ackQ : Bool
deriving Inhabited

structure State where
  ep1 : EpState
  ep2 : EpState
  ep3 : EpState
  ep4 : EpState
  ep0SelQ : Bool
  epxErrQ : Bool
  crcErrQ : Bool
  crcAckQ : Bool
  pingQ : Bool
  nyetQ : Bool
  parQ : Bool
  seqQ : Bool
  endQ : Bool
  tagQ : Bool
  epgQ : Bool
  outRdyQ : Bool
  pidQ : BitVec 4
  state : Fsm
  timeoutQ : Bool
  muxQ : Bool
  selQ : BitVec 3
  taRunQ : Bool
  taErrQ : Bool
  taCount : BitVec 7
  epRunQ : Bool
  epErrQ : Bool
  epCount : BitVec 5
deriving Inhabited

/-- What a bulk end-point reports. -/
structure EpInputs where
  rxRdy : Bool
  txRdy : Bool
  parity : Bool
  halted : Bool

/-- `undef` is the value that a register takes where the source assigns `'bx`. -/
structure Inputs where
  reset : Bool
  rxEvent : BitVec 2
  setConfI : Bool
  clrConfI : Bool
  usbAddr : BitVec 7
  decActv : Bool
  crcError : Bool
  hskRecv : Bool
  usbRecv : Bool
  usbPid : BitVec 4
  eopRecv : Bool
  tokRecv : Bool
  tokAddr : BitVec 7
  tokEndp : BitVec 4
  hskSent : Bool
  usbBusy : Bool
  usbSent : Bool
  ep0Select : Bool
  ep0Parity : Bool
  ep1 : EpInputs
  ep2 : EpInputs
  ep3 : EpInputs
  ep4 : EpInputs
  undef : BitVec 4

/-- The parameters of a bulk end-point, by its place. -/
def Params.bulk (p : Params) : Fin 4 → BulkEp
  | 0 => p.ep1
  | 1 => p.ep2
  | 2 => p.ep3
  | 3 => p.ep4

/-- The registers of a bulk end-point, by its place. -/
def State.bulk (s : State) : Fin 4 → EpState
  | 0 => s.ep1
  | 1 => s.ep2
  | 2 => s.ep3
  | 3 => s.ep4

/-- The places have numerals. -/
instance neZero_places : @NeZero ℕ Zero.ofOfNat0 4 := ⟨by decide⟩

/-! ## Wires -/

section Wires

variable (p : Params) (s : State) (i : Inputs)

def hskSendO : Bool := s.state == .resp

/-- A token for this device. -/
def tokenW : Bool := i.tokRecv && i.tokAddr == i.usbAddr

/-- `ep1_out_sel_w` to `ep4_out_sel_w`. -/
def outSelOf (e : BulkEp) (q : EpState) : Bool := q.en && e.useOut && i.tokEndp == e.number

/-- `ep2_in_sel_w` to `ep4_in_sel_w`. -/
def inSelOf (e : BulkEp) (q : EpState) : Bool := q.en && e.useIn && i.tokEndp == e.number

/-- `ep1_in_sel_w`, which does not ask whether the end-point is enabled. -/
def ep1InSelW : Bool := p.ep1.number != 0 && p.ep1.useIn && i.tokEndp == p.ep1.number

/-- `ep1_out_rdy_w`: only the first end-point is asked whether it is halted. -/
def ep1OutRdyW : Bool := outSelOf i p.ep1 s.ep1 && !i.ep1.halted && i.ep1.rxRdy

def ep1InRdyW : Bool := ep1InSelW p i && !i.ep1.halted && i.ep1.txRdy

def outSelW : Bool :=
  i.tokEndp == 0 || outSelOf i p.ep1 s.ep1 || outSelOf i p.ep2 s.ep2 || outSelOf i p.ep3 s.ep3 ||
    outSelOf i p.ep4 s.ep4

def outRdyW : Bool :=
  ep1OutRdyW p s i || (outSelOf i p.ep2 s.ep2 && i.ep2.rxRdy) ||
    (outSelOf i p.ep3 s.ep3 && i.ep3.rxRdy) || (outSelOf i p.ep4 s.ep4 && i.ep4.rxRdy)

def inSelW : Bool :=
  ep1InSelW p i || inSelOf i p.ep2 s.ep2 || inSelOf i p.ep3 s.ep3 || inSelOf i p.ep4 s.ep4

def inRdyW : Bool :=
  ep1InRdyW p i || (inSelOf i p.ep2 s.ep2 && i.ep2.txRdy) ||
    (inSelOf i p.ep3 s.ep3 && i.ep3.txRdy) || (inSelOf i p.ep4 s.ep4 && i.ep4.txRdy)

/-- `ep1_par_w` to `ep4_par_w`. -/
def parOf (e : BulkEp) (q : EpState) (j : EpInputs) : Bool :=
  outSelOf i e q && j.parity == i.usbPid.msb

def parW : Bool :=
  (i.ep0Select && i.ep0Parity == i.usbPid.msb) || parOf i p.ep1 s.ep1 i.ep1 ||
    parOf i p.ep2 s.ep2 i.ep2 || parOf i p.ep3 s.ep3 i.ep3 || parOf i p.ep4 s.ep4 i.ep4

end Wires

/-! ## End-point control -/

section Endpoints

variable (p : Params) (s : State) (i : Inputs)

/-- `ep1_en` to `ep4_en`. -/
def enNext (e : BulkEp) (q : EpState) : Bool :=
  if i.reset || i.clrConfI then false else if i.setConfI then e.en else q.en

/-- Which of the select registers a token sets: the first that the `case` statement names. -/
def tokenSel : Option (Fin 5) :=
  if i.tokEndp = 0 then some 0
  else if i.tokEndp = p.ep1.number then some 1
  else if i.tokEndp = p.ep2.number then some 2
  else if i.tokEndp = p.ep3.number then some 3
  else if i.tokEndp = p.ep4.number then some 4
  else none

/-- `ep0_sel_q` to `ep4_sel_q`. -/
def selNext (n : Fin 5) (en sel : Bool) : Bool :=
  if s.endQ then false
  else if tokenW i then decide (tokenSel p i = some n) && en
  else sel

/-- `ep1_ack_q` to `ep4_ack_q`. -/
def ackNext (e : BulkEp) (q : EpState) : Bool :=
  !s.endQ && (q.selQ && ((e.useOut && i.hskSent) || (e.useIn && i.hskRecv)))

def epNext (n : Fin 5) (e : BulkEp) (q : EpState) : EpState where
  en := enNext i e q
  selQ := selNext p s i n q.en q.selQ
  ackQ := ackNext s i e q

/-- `{ping_q, nyet_q}`. -/
def pingNext : Bool × Bool :=
  if i.setConfI then (false, false)
  else match s.state with
    | .idle =>
        if tokenW i then
          if i.usbPid == usbpidPing && s.outRdyQ then (true, false)
          else if i.usbPid != usbpidOut then (false, false)
          else (s.pingQ, s.nyetQ)
        else (s.pingQ, s.nyetQ)
    | .resp => if s.nyetQ && i.hskSent then (false, false) else (s.pingQ, s.nyetQ)
    | .recv => (s.pingQ, !s.outRdyQ)
    | _ => (false, false)

end Endpoints

/-! ## The state machine -/

/-- What the state machine sets: `state`, `pid_q`, `tag_q` and `epg_q`. -/
structure Move where
  state : Fsm
  pidQ : BitVec 4
  tagQ : Bool
  epgQ : Bool

section Fsm

variable (p : Params) (s : State) (i : Inputs)

/-- A token, in `ST_IDLE`. -/
def dispatch : Move :=
  if i.usbPid = usbpidSetup then
    if i.tokEndp = 0 then ⟨.recv, i.undef, false, true⟩
    else ⟨.wait, i.undef, true, false⟩
  else if i.usbPid = usbpidOut then
    if i.ep0Select || s.outRdyQ then ⟨.recv, i.undef, false, true⟩
    else if outSelW p s i then ⟨.drop, i.undef, false, false⟩
    else ⟨.wait, i.undef, true, false⟩
  else if i.usbPid = usbpidIn then
    if i.ep0Select || inRdyW p s i then ⟨.send, usbpidNak, false, true⟩
    else if inSelW p s i then ⟨.resp, usbpidNak, false, true⟩
    else ⟨.wait, usbpidNak, true, false⟩
  else if i.usbPid = usbpidPing then
    ⟨.resp, if i.ep0Select || s.outRdyQ then usbpidAck else usbpidNak, false, true⟩
  else ⟨.idle, i.undef, i.undef.getLsbD 0, i.undef.getLsbD 1⟩

def moveNext : Move :=
  match s.state with
  | .idle => if tokenW i then dispatch p s i else ⟨.idle, s.pidQ, s.tagQ, s.epgQ⟩
  | .recv =>
      let pid := if s.pingQ && !s.outRdyQ then usbpidNyet else usbpidAck
      if i.usbRecv then ⟨if s.parQ then .resp else .idle, pid, false, s.parQ⟩
      else if s.timeoutQ || i.crcError then ⟨.idle, pid, false, false⟩
      else ⟨.recv, pid, false, s.epgQ⟩
  | .send =>
      let pid := if s.seqQ then usbpidData1 else usbpidData0
      if i.usbSent then ⟨.wait, pid, true, false⟩
      else if s.timeoutQ then ⟨.idle, pid, false, false⟩
      else ⟨.send, pid, s.tagQ, false⟩
  | .resp => ⟨if i.hskSent || s.timeoutQ then .idle else .resp, s.pidQ, false, false⟩
  | .wait => ⟨if i.hskRecv || s.timeoutQ then .idle else .wait, i.undef, false, false⟩
  | .drop =>
      ⟨if i.eopRecv then .resp else if s.timeoutQ then .idle else .drop, usbpidNak, false, false⟩

end Fsm

/-! ## Timers -/

/-- A timer: whether it runs, whether it has elapsed, and its count. -/
structure Timer (w : ℕ) where
  run : Bool
  err : Bool
  count : BitVec w

section Timers

variable (p : Params) (s : State) (i : Inputs)

/-- The bus turn-around timer. -/
def taNext : Timer 7 :=
  if s.tagQ then ⟨true, false, p.maxTaTimer⟩
  else if s.taRunQ && (s.taCount == 0 || i.hskRecv) then ⟨false, !i.hskRecv, p.maxTaTimer⟩
  else if s.taRunQ then ⟨true, s.taErrQ, s.taCount - 1⟩
  else ⟨false, false, p.maxTaTimer⟩

/-- The transmission or the reception that the end-point timer waits for has begun. -/
def epAnswered : Bool :=
  ((s.state == .send || s.state == .resp) && i.usbBusy) || (s.state == .recv && i.rxEvent == 0b01)

/-- The end-point response timer. -/
def epTimerNext : Timer 5 :=
  if s.epgQ then ⟨true, false, p.maxEpTimer⟩
  else if s.epRunQ then
    if epAnswered s i then ⟨false, false, s.epCount⟩
    else if s.epCount = 0 then ⟨false, true, s.epCount⟩
    else ⟨true, s.epErrQ, s.epCount - 1⟩
  else ⟨false, false, p.maxEpTimer⟩

end Timers

/-- `sel_q`, by the end-point of the token. -/
def muxSel (p : Params) (i : Inputs) : BitVec 3 :=
  match tokenSel p i with
  | some n => BitVec.ofNat 3 n
  | none => 7

/-- One clock edge. -/
def step (p : Params) (s : State) (i : Inputs) : State where
  ep1 := epNext p s i 1 p.ep1 s.ep1
  ep2 := epNext p s i 2 p.ep2 s.ep2
  ep3 := epNext p s i 3 p.ep3 s.ep3
  ep4 := epNext p s i 4 p.ep4 s.ep4
  ep0SelQ := selNext p s i 0 true s.ep0SelQ
  epxErrQ := !s.endQ && (s.crcErrQ || s.timeoutQ)
  crcErrQ := !i.reset && i.crcError && !s.crcAckQ
  crcAckQ := !i.reset && i.crcError
  pingQ := (pingNext s i).1
  nyetQ := (pingNext s i).2
  parQ := if i.decActv then parW p s i else s.parQ
  seqQ :=
    if !i.usbBusy then
      (s.ep0SelQ && i.ep0Parity) || (s.ep1.selQ && i.ep1.parity) || (s.ep2.selQ && i.ep2.parity) ||
        (s.ep3.selQ && i.ep3.parity) || (s.ep4.selQ && i.ep4.parity)
    else s.seqQ
  endQ := i.reset || i.clrConfI || i.hskRecv || i.hskSent || s.timeoutQ || s.crcErrQ
  tagQ := !i.reset && (moveNext p s i).tagQ
  epgQ := !i.reset && (moveNext p s i).epgQ
  outRdyQ := outRdyW p s i
  pidQ := if i.reset then i.undef else (moveNext p s i).pidQ
  state := if i.reset then .idle else (moveNext p s i).state
  timeoutQ := !i.reset && (s.taErrQ || s.epErrQ)
  muxQ := !i.reset && (s.state == .send || s.state == .wait)
  selQ := if i.reset then 0 else muxSel p i
  taRunQ := (taNext p s i).run
  taErrQ := (taNext p s i).err
  taCount := (taNext p s i).count
  epRunQ := (epTimerNext p s i).run
  epErrQ := (epTimerNext p s i).err
  epCount := (epTimerNext p s i).count

end MiscVerilogCores.Protocol
