import MiscVerilogCores.Model.UsbDefs

/-! # `ulpi_decoder.v`

Decodes USB packets from the ULPI input signals. -/

namespace MiscVerilogCores.UlpiDecoder

open Usb

structure State where
  dirQ : Bool
  cycQ : Bool
  tokQ : Bool
  hskQ : Bool
  decActvQ : Bool
  tuser : BitVec 4
  eopQ : Bool
  rcvQ : Bool
  tokRecvQ : Bool
  tokPingQ : Bool
  hskRecvQ : Bool
  usbRecvQ : Bool
  sofRecvQ : Bool
  sofQ : Bool
  lowQ : Bool
  endpQ : BitVec 4
  addrQ : BitVec 7
  crc16Q : BitVec 16
  crcErrorFlag : Bool
  crcValidFlag : Bool
  cntQ : BitVec 11
  stbQ : Bool
  datQ : BitVec 8
  vldQ : Bool
  outQ : BitVec 8
  tvalid : Bool
  tlast : Bool
  tkeep : Bool
  tdata : BitVec 8
deriving Inhabited

/-- `undef` is the value that a register takes where the source assigns `'bx`. -/
structure Inputs where
  reset : Bool
  lineState : BitVec 2
  ulpiDir : Bool
  ulpiNxt : Bool
  ulpiData : BitVec 8
  undef : BitVec 8
deriving Inhabited, DecidableEq

/-! ## Packet IDs -/

def pidSpecial : BitVec 2 := 0b00
def pidToken : BitVec 2 := 0b01
def pidHandshake : BitVec 2 := 0b10
def pidData : BitVec 2 := 0b11
def tokSof : BitVec 2 := 0b01
def spcPing : BitVec 2 := 0b01
def rxActive : BitVec 2 := 0b01

/-- `{SPC_PING, PID_SPECIAL}`. -/
def pingPid : BitVec 4 := spcPing ++ pidSpecial

/-- The PID that a byte carries. -/
def pidOf (b : BitVec 8) : BitVec 4 := b.setWidth 4

/-- The nibbles of a PID byte are complements. -/
def isPid (b : BitVec 8) : Bool := pidOf b == ~~~ b.extractLsb' 4 4

/-- `rx_pid_w[1:0]`. -/
def pidClass (pid : BitVec 4) : BitVec 2 := pid.setWidth 2

/-- `rx_pid_w[3:2]`. -/
def pidKind (pid : BitVec 4) : BitVec 2 := pid.extractLsb' 2 2

/-- `istoken_w`. -/
def isToken (pid : BitVec 4) : Bool := pidClass pid == pidToken || pid == pingPid

def isHandshake (pid : BitVec 4) : Bool := pidClass pid == pidHandshake

/-! ## Wires -/

section Wires

variable (s : State) (i : Inputs)

def rxEndW : Bool :=
  !i.ulpiDir || (i.ulpiDir && !i.ulpiNxt && i.ulpiData.extractLsb' 4 2 != rxActive)

def rxPidW : BitVec 4 := pidOf i.ulpiData

def pidVldW : Bool := i.ulpiDir && i.ulpiNxt && s.dirQ && isPid i.ulpiData

def istokenW : Bool := isToken (rxPidW i)

def eopW : Bool :=
  (s.cycQ || (s.dirQ && i.ulpiDir)) && !i.ulpiNxt &&
    (i.ulpiData.extractLsb' 4 2 != rxActive || i.ulpiData.extractLsb' 2 2 == 0)

/-- `{dat_q[2:0], out_q}`. -/
def tokenW : BitVec 11 := (s.datQ.setWidth 3 : BitVec 3) ++ s.outQ

/-- `rx_crc5_w == dat_q[7:3]`. -/
def crc5Ok : Bool := crc5 (tokenW s) == s.datQ.extractLsb' 3 5

def crc16W : BitVec 16 := crc16 i.ulpiData s.crc16Q

def crc16Ok : Bool := s.crc16Q == 0x800d

/-- A token or SOF packet ends with the right check bits. -/
def tokenEnds : Bool := s.cycQ && rxEndW i && crc5Ok s

/-- A byte of a token is taken. -/
def tokenByte : Bool := s.tokQ && i.ulpiNxt

end Wires

/-! ## Registers -/

section Registers

variable (s : State) (i : Inputs)

/-- `{endp_q, addr_q}`, of which a token fills the low byte first. -/
def tokenField : BitVec 4 × BitVec 7 :=
  if !s.tokQ && pidVldW s i && istokenW i then (s.endpQ, s.addrQ)
  else if tokenByte s i then
    if s.lowQ && !s.sofQ then
      (s.endpQ.extractLsb' 1 3 ++ BitVec.ofBool i.ulpiData.msb, i.ulpiData.setWidth 7)
    else if !s.sofQ then
      ((i.ulpiData.setWidth 3 : BitVec 3) ++ s.endpQ.extractLsb' 0 1, s.addrQ)
    else (s.endpQ, s.addrQ)
  else (s.endpQ, s.addrQ)

def lowNext : Bool :=
  if i.reset then true
  else if !s.tokQ && pidVldW s i && istokenW i then true
  else if tokenByte s i then !s.lowQ
  else s.lowQ

def sofNext : Bool :=
  if i.reset then false
  else if !s.tokQ && pidVldW s i && pidKind (rxPidW i) == tokSof then true
  else if rxEndW i then false
  else s.sofQ

/-- `{eop_q, rcv_q}`. -/
def eopNext : Bool × Bool :=
  if i.reset then (false, false)
  else if s.rcvQ && (i.lineState == 0 || eopW s i) then (true, false)
  else if s.cycQ && !s.hskQ && !s.tokQ then (false, true)
  else (false, s.rcvQ)

/-- `{crc_error_flag, crc_valid_flag}`. -/
def flagsNext : Bool × Bool :=
  if i.reset then (false, false)
  else if rxEndW i && s.cycQ then
    if !s.hskQ && !s.tokQ then (!crc16Ok s, crc16Ok s)
    else if s.sofQ then (!crc5Ok s, crc5Ok s)
    else if s.tokQ then (!crc5Ok s, crc5Ok s)
    else (s.crcErrorFlag, s.crcValidFlag)
  else (s.crcErrorFlag, false)

/-- The frame number of a start-of-frame packet. -/
def cntNext : BitVec 11 :=
  if !i.reset && rxEndW i && s.cycQ && !(!s.hskQ && !s.tokQ) && s.sofQ then tokenW s else s.cntQ

def stbNext : Bool :=
  if i.reset then false
  else if s.dirQ && i.ulpiDir && i.ulpiNxt then s.cycQ
  else s.stbQ && s.cycQ && !rxEndW i

def datNext : BitVec 8 :=
  if i.reset then i.undef
  else if s.dirQ && i.ulpiDir && i.ulpiNxt then i.ulpiData
  else s.datQ

/-- The output stage hands on a byte once two more are behind it. -/
def emits : Bool := i.ulpiNxt && s.stbQ && s.vldQ

end Registers

/-- One clock edge. -/
def step (s : State) (i : Inputs) : State where
  dirQ := i.ulpiDir
  cycQ := if i.reset || rxEndW i then false else if pidVldW s i then true else s.cycQ
  tokQ :=
    if i.reset || rxEndW i then false
    else if pidVldW s i && !s.cycQ then istokenW i
    else s.tokQ
  hskQ :=
    if i.reset || rxEndW i then false
    else if pidVldW s i && !s.cycQ then isHandshake (rxPidW i)
    else s.hskQ
  decActvQ := !s.cycQ && pidVldW s i
  tuser := if i.reset then 0b1010 else if !s.cycQ && pidVldW s i then rxPidW i else s.tuser
  eopQ := (eopNext s i).1
  rcvQ := (eopNext s i).2
  tokRecvQ := tokenEnds s i && s.tokQ && !s.sofQ
  tokPingQ := tokenEnds s i && s.tuser == pingPid
  sofRecvQ := tokenEnds s i && s.sofQ
  hskRecvQ := s.hskQ && rxEndW i
  usbRecvQ := s.cycQ && !s.tokQ && rxEndW i && crc16Ok s
  sofQ := sofNext s i
  lowQ := lowNext s i
  endpQ := if i.reset then 0 else (tokenField s i).1
  addrQ := if i.reset then 0 else (tokenField s i).2
  crc16Q := if !s.cycQ then 0xffff else if i.ulpiNxt then crc16W s i else s.crc16Q
  crcErrorFlag := (flagsNext s i).1
  crcValidFlag := (flagsNext s i).2
  cntQ := cntNext s i
  stbQ := stbNext s i
  datQ := datNext s i
  vldQ := if i.reset || rxEndW i then false else if i.ulpiNxt then s.stbQ else s.vldQ
  outQ := if i.reset || rxEndW i then i.undef else if i.ulpiNxt then s.datQ else s.outQ
  tvalid := !i.reset && s.cycQ
  tlast := !i.reset && s.cycQ && rxEndW i
  tkeep := !i.reset && emits s i
  tdata := if !i.reset && emits s i then s.outQ else i.undef

/-- The state after a clock edge with `reset` asserted, whatever came before. -/
def afterReset (s : State) (i : Inputs) : State :=
  step s { i with reset := true }

end MiscVerilogCores.UlpiDecoder
