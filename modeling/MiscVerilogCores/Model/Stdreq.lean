import MiscVerilogCores.Model.UsbDefs

/-! # `stdreq.v`

Handles USB control requests: frames the control transfers of end-point 0, and parses the
parameters of a request from the bytes of its DATA0 packet, as they arrive. -/

namespace MiscVerilogCores.Stdreq

open Usb

/-- `state`, without the `ST_` of the source. -/
inductive Fsm where
  | idle | setup | data | status
deriving DecidableEq, Inhabited

/-- The registers of the parser. -/
structure Parser where
  xcptr : BitVec 3
  rtype : BitVec 8
  rargs : BitVec 8
  vallo : BitVec 8
  valhi : BitVec 8
  idxlo : BitVec 8
  idxhi : BitVec 8
  lenlo : BitVec 8
  lenhi : BitVec 8
  reqStart : Bool
  reqCycle : Bool
deriving Inhabited, DecidableEq

structure State where
  state : Fsm
  cycQ : Bool
  endQ : Bool
  parQ : Bool
  reqQ : Bool
  selQ : Bool
  zdpQ : Bool
  parser : Parser
deriving Inhabited

structure Inputs where
  reset : Bool
  usbAddr : BitVec 7
  tokRecv : Bool
  tokAddr : BitVec 7
  tokEndp : BitVec 4
  hskRecv : Bool
  hskSent : Bool
  timeout : Bool
  sTvalid : Bool
  sTkeep : Bool
  sTuser : BitVec 4
  sTdata : BitVec 8

/-! ## Parser for control transfer parameters -/

namespace Parser

/-- A byte of the stream is stored where `xcptr` points. -/
def take (q : Parser) (b : BitVec 8) : Parser where
  rtype := if q.xcptr = 0 then b else q.rtype
  rargs := if q.xcptr = 1 then b else q.rargs
  vallo := if q.xcptr = 2 then b else q.vallo
  valhi := if q.xcptr = 3 then b else q.valhi
  idxlo := if q.xcptr = 4 then b else q.idxlo
  idxhi := if q.xcptr = 5 then b else q.idxhi
  lenlo := if q.xcptr = 6 then b else q.lenlo
  lenhi := if q.xcptr = 7 then b else q.lenhi
  reqStart := if q.xcptr = 7 && !q.reqCycle then true else q.reqStart
  reqCycle := if q.xcptr = 7 && !q.reqCycle then true else q.reqCycle
  xcptr := if q.xcptr = 7 then q.xcptr else q.xcptr + 1

/-- The parser is held clear while there is no control transfer. -/
def clear (q : Parser) : Parser :=
  { q with xcptr := 0, lenlo := 0, lenhi := 0, reqStart := false, reqCycle := false }

/-- No byte. -/
def rest (q : Parser) (reqDone : Bool) : Parser :=
  { q with reqStart := false, reqCycle := if reqDone then false else q.reqCycle }

/-- `req_value_o`. -/
def value (q : Parser) : BitVec 16 := q.valhi ++ q.vallo

/-- `req_index_o`. -/
def index (q : Parser) : BitVec 16 := q.idxhi ++ q.idxlo

/-- `req_length_o`. -/
def length (q : Parser) : BitVec 16 := q.lenhi ++ q.lenlo

end Parser

/-! ## Wires -/

section Wires

variable (ep0Only : Bool) (s : State) (i : Inputs)

def selW : Bool :=
  s.state == .idle && i.tokRecv && i.tokAddr == i.usbAddr && i.sTuser == usbpidSetup &&
    (!ep0Only || i.tokEndp == 0)

def reqW : Bool := s.state == .setup && i.sTuser == usbpidData0

def endW : Bool := s.state == .status && (i.hskSent || i.hskRecv || i.timeout)

/-- A byte of the request is taken. -/
def takes : Bool := s.reqQ && i.sTvalid && i.sTkeep

def dataAckW : Bool :=
  (s.parser.rtype.msb && i.hskRecv) || (!s.parser.rtype.msb && i.hskSent)

/-- `req_lenhi_q == 0 && req_lenlo_q == 0`. -/
def noLength : Bool := s.parser.lenhi == 0 && s.parser.lenlo == 0

/-- `snext`. -/
def snext : Fsm :=
  if !s.cycQ then .idle
  else match s.state with
    | .idle => if s.selQ then .setup else .idle
    | .setup => if i.hskSent then (if noLength s then .status else .data) else .setup
    | .data => if dataAckW s i then .status else if i.timeout then .idle else .data
    | .status => if s.endQ then .idle else .status

/-- `zdp_c`. -/
def zdpC : Bool :=
  match s.state with
  | .idle => false
  | .setup => i.hskSent && noLength s
  | .data => dataAckW s i && i.hskSent
  | .status => false

def parNext : Bool :=
  match s.state with
  | .idle => false
  | .setup => i.hskSent || s.parQ
  | .data => if i.hskSent || i.hskRecv then !s.parQ else s.parQ
  | .status => true

/-- The parser, which `reset` does not touch. -/
def parserNext : Parser :=
  if !s.cycQ then s.parser.clear
  else if takes s i then s.parser.take i.sTdata
  else s.parser.rest (endW s i)

end Wires

/-- One clock edge. -/
def step (ep0Only : Bool) (s : State) (i : Inputs) : State where
  state := if i.reset then .idle else snext s i
  selQ := !i.reset && selW ep0Only s i
  reqQ := !i.reset && reqW s i
  endQ := !i.reset && endW s i
  cycQ := !i.reset && (selW ep0Only s i || (!endW s i && s.cycQ))
  parQ := !i.reset && parNext s i
  zdpQ := !i.reset && zdpC s i
  parser := parserNext s i

end MiscVerilogCores.Stdreq
