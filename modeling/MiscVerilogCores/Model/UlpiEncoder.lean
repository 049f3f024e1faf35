import MiscVerilogCores.Model.Skid
import MiscVerilogCores.Model.UsbDefs

/-! # `ulpi_encoder.v`

Assembles USB packets in the format required by the ULPI PHY. -/

namespace MiscVerilogCores.UlpiEncoder

open Usb

/-- `xsend`, without the `TX_` of the source. -/
inductive Xsend where
  | idle | xpid | data | crc0 | crc1 | last | done | init | regw | stop
deriving DecidableEq, Inhabited

structure State where
  xsend : Xsend
  xsendQ : Xsend
  dirQ : Bool
  stpQ : Bool
  phyDoneQ : Bool
  hskDoneQ : Bool
  usbDoneQ : Bool
  crc16Q : BitVec 16
  endQ : Bool
  skid : SkidLoader.State 8
deriving Inhabited

structure Inputs where
  reset : Bool
  highSpeed : Bool
  lineState : BitVec 2
  phyWrite : Bool
  phyNopid : Bool
  phyStop : Bool
  phyAddr : BitVec 8
  phyData : BitVec 8
  hskSend : Bool
  sTvalid : Bool
  sTkeep : Bool
  sTlast : Bool
  sTuser : BitVec 4
  sTdata : BitVec 8
  ulpiDir : Bool
  ulpiNxt : Bool
deriving Inhabited

/-! ## Datapath -/

/-- `usb_pid_w`: the transmit command. -/
def usbPidW (pid : BitVec 4) : BitVec 8 := 0x40 ||| pid.setWidth 8

/-- `crc16_nw`. -/
def crc16Nw (crc : BitVec 16) : BitVec 16 := ~~~crc.reverse

def crcLow (crc : BitVec 16) : BitVec 8 := (crc16Nw crc).setWidth 8

def crcHigh (crc : BitVec 16) : BitVec 8 := (crc16Nw crc).extractLsb' 8 8

/-- `U_SKID3`. -/
def skidParams : SkidLoader.Params 8 where
  bypass := false
  loader := true
  resetTdata := true
  resetValue := 0

/-- What the combinational process sets. -/
structure Mux where
  svalid : Bool
  sready : Bool
  slast : Bool
  sdata : BitVec 8
  tvalid : Bool
  tlast : Bool
  tdata : BitVec 8

def Mux.none : Mux := ⟨false, false, false, 0, false, false, 0⟩

section Wires

variable (s : State) (i : Inputs)

/-- `sready_w`, `tready_w`, `mvalid_w` and `mlast_w` are registers of the skid buffer, and so is
`mdata_w`. -/
def sreadyW : Bool := SkidLoader.sTready skidParams s.skid i.ulpiNxt

def treadyW : Bool := SkidLoader.tTready skidParams s.skid

def mvalidW : Bool := s.skid.mvalid

def ulpiStp : Bool := s.skid.mlast

/-- What the encoder drives while `ulpi_dir` is low. -/
def ulpiData : BitVec 8 := s.skid.mdata

def muxIdle : Mux :=
  if i.sTvalid && sreadyW s i && i.sTkeep then
    ⟨true, true, false, usbPidW i.sTuser, true, false, i.sTdata⟩
  else Mux.none

def muxXpid : Mux where
  svalid := i.hskSend || !mvalidW s || (i.ulpiNxt && i.sTvalid && i.sTkeep)
  sready := sreadyW s i && (!mvalidW s || i.ulpiNxt)
  slast := false
  sdata := if mvalidW s && i.ulpiNxt then i.sTdata else usbPidW i.sTuser
  tvalid := i.hskSend
  tlast := i.hskSend
  tdata := 0

def muxData : Mux :=
  { Mux.none with
    svalid := sreadyW s i
    sready := sreadyW s i
    sdata := if i.sTvalid && i.sTkeep then i.sTdata else crcLow s.crc16Q }

def muxInit : Mux where
  svalid := i.phyWrite || i.phyNopid || i.phyStop
  sready := false
  slast := i.phyStop
  sdata := if i.phyWrite then i.phyAddr else if i.phyNopid then 0x40 else 0
  tvalid := i.phyWrite || i.phyNopid
  tlast := false
  tdata := if i.phyWrite then i.phyData else 0

/-- The data-out multiplexer. -/
def mux : Mux :=
  if i.ulpiDir || s.dirQ then Mux.none
  else match s.xsend with
    | .idle => muxIdle s i
    | .xpid => muxXpid s i
    | .data => muxData s i
    | .crc0 =>
      { Mux.none with svalid := true, sready := i.sTvalid && !i.sTkeep, sdata := crcLow s.crc16Q }
    | .crc1 =>
      { Mux.none with svalid := true, sready := i.sTvalid && !i.sTkeep, sdata := crcHigh s.crc16Q }
    | .last => { Mux.none with svalid := true, sready := i.sTvalid && !i.sTkeep, slast := true }
    | .init => muxInit i
    | .stop => { Mux.none with svalid := true, slast := true }
    | .regw | .done => Mux.none

def sTready : Bool := (mux s i).sready

def encodeIdle : Bool := s.xsend = .idle

def usbBusy : Bool := s.xsend ≠ .idle

def phyBusy : Bool := s.xsend ≠ .idle && s.xsend ≠ .done

def skidInputs : SkidLoader.Inputs 8 where
  reset := i.reset || ulpiStp s
  sTvalid := (mux s i).svalid
  sTlast := (mux s i).slast
  sTdata := (mux s i).sdata
  tTvalid := (mux s i).tvalid
  tTlast := (mux s i).tlast
  tTdata := (mux s i).tdata
  mTready := i.ulpiNxt

end Wires

/-! ## Registers -/

section Registers

variable (s : State) (i : Inputs)

/-- `xsend` after the edge, while the encoder drives the bus. -/
def xsendCase : Xsend :=
  match s.xsend with
  | .idle =>
    if !sreadyW s i then .idle
    else if !i.highSpeed then
      if (i.phyWrite && treadyW s) || i.phyNopid then .init
      else if i.phyStop then .stop
      else .idle
    else if i.hskSend || i.sTvalid then .xpid
    else .idle
  | .xpid =>
    if mvalidW s && i.hskSend then .stop
    else if s.endQ then .crc0
    else if mvalidW s then .data
    else .xpid
  | .data =>
    if i.sTvalid && !i.sTkeep && sreadyW s i then .crc1
    else if i.sTlast && (sreadyW s i || (!sreadyW s i && (mux s i).tvalid && treadyW s)) then .crc0
    else .data
  | .crc0 => if (mux s i).svalid && sreadyW s i then .crc1 else .crc0
  | .crc1 => if (mux s i).svalid && sreadyW s i then .last else .crc1
  | .last => if (mux s i).slast && sreadyW s i then .done else .last
  | .done => if (!ulpiStp s && s.stpQ) || i.lineState == 0 then .idle else .done
  | .init =>
    if i.phyWrite && mvalidW s then .regw
    else if i.phyNopid && mvalidW s then .idle
    else .init
  | .regw => if i.ulpiNxt then .stop else .regw
  | .stop => if i.phyStop then .stop else .done

def xsendNext : Xsend :=
  if i.reset then .idle
  else if s.dirQ || i.ulpiDir then
    if s.xsend = .done ∧ i.lineState = 0 then .idle else s.xsend
  else xsendCase s i

/-- A beat of the packet is taken. -/
def takes : Bool := i.sTvalid && sTready s i

def crc16Next : BitVec 16 :=
  if i.reset ∨ s.xsend = .done then 0xffff
  else if takes s i && i.sTkeep then crc16 i.sTdata s.crc16Q
  else s.crc16Q

def endNext : Bool :=
  if i.reset then false
  else if takes s i && (!i.sTkeep || i.sTlast) then true
  else if s.xsend = .done then false
  else s.endQ

end Registers

/-- One clock edge. -/
def step (s : State) (i : Inputs) : State where
  xsend := xsendNext s i
  xsendQ := s.xsend
  dirQ := i.ulpiDir
  stpQ := ulpiStp s
  phyDoneQ :=
    (s.xsend = .init && i.phyNopid && !s.phyDoneQ) || (s.xsend = .stop && !s.phyDoneQ && !i.phyStop)
  hskDoneQ := s.xsend = .stop && i.hskSend
  usbDoneQ := s.xsend = .done && ulpiStp s && !i.hskSend
  crc16Q := crc16Next s i
  endQ := endNext s i
  skid := SkidLoader.step skidParams s.skid (skidInputs s i)

end MiscVerilogCores.UlpiEncoder
