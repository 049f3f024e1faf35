import MiscVerilogCores.Model.Skid
import Mathlib.Data.Nat.Log

/-! # `ctl_pipe0.v`

The configuration pipe of a USB device: decodes the standard requests, holds the address and
the configuration, and sends the descriptors. -/

namespace MiscVerilogCores.CtlPipe0

/-- The descriptors and strings, byte by byte in the order in which they are sent. -/
structure Params where
  manufacturer : List (BitVec 8)
  product : List (BitVec 8)
  serial : List (BitVec 8)
  deviceDesc : List (BitVec 8)
  configDesc : List (BitVec 8)

/-! ## Descriptor ROM -/

/-- `desc_manufacturer`, `desc_product` and `desc_serial`. -/
def descString (str : List (BitVec 8)) : List (BitVec 8) :=
  [BitVec.ofNat 8 (2 + 2 * str.length), 0x03] ++ str.flatMap fun c => [c, 0x00]

def strDesc : List (BitVec 8) := [0x04, 0x03, 0x09, 0x04]

section Rom

variable (p : Params)

/-- `DESC_HAS_STRINGS`. -/
def hasStrings : Bool :=
  !p.manufacturer.isEmpty || !p.product.isEmpty || !p.serial.isEmpty

/-- `USB_DESC`. -/
def usbDesc : List (BitVec 8) :=
  p.deviceDesc ++ p.configDesc ++
    (if hasStrings p then
      strDesc ++ descString p.manufacturer ++ descString p.product ++ descString p.serial
    else []) ++
    [0x01, 0x00, 0x00, 0x00, 0x00, 0x00]

/-- `ABITS`. -/
def abits : ℕ := Nat.clog 2 (usbDesc p).length

def descConfigStart : ℕ := p.deviceDesc.length

def descStart0 : ℕ := p.deviceDesc.length + p.configDesc.length

def descStart1 : ℕ := descStart0 p + strDesc.length

def descStart2 : ℕ := descStart1 p + (2 + 2 * p.manufacturer.length)

def descStart3 : ℕ := descStart2 p + (2 + 2 * p.product.length)

def descStatusStart : ℕ := descStart3 p + (2 + 2 * p.serial.length)

/-- `DESC_END0` to `DESC_END8`. -/
def descEnds : List ℕ :=
  [p.deviceDesc.length - 1, descStart0 p - 1, descStart1 p - 1, descStart2 p - 1, descStart3 p - 1,
    descStatusStart p - 1, descStatusStart p + 1, descStatusStart p + 3, descStatusStart p + 5]

def descTlast (addr : ℕ) : Bool := decide (addr ∈ descEnds p)

end Rom

/-! ## Registers -/

/-- The requests that are decoded. -/
structure Decoded where
  setAddr : Bool
  setConf : Bool
  setFace : Bool
deriving DecidableEq, Inhabited

structure State (p : Params) where
  count : BitVec 7
  stdReq : Bool
  startQ : Bool
  setQs : Decoded
  errQ : Bool
  memAddr : BitVec (abits p)
  getDescQ : Bool
  ctlDoneQ : Bool
  adrQ : BitVec 7
  enmQ : Bool
  cfgQ : BitVec 8
  setQ : Bool
  skid : AxisSkid.State 9
deriving Inhabited

/-- `undef` is what the ROM holds behind the descriptors. -/
structure Inputs where
  reset : Bool
  selectI : Bool
  statusI : Bool
  startI : Bool
  reqEndpt : BitVec 4
  reqType : BitVec 8
  reqArgs : BitVec 8
  reqValue : BitVec 16
  reqLength : BitVec 16
  mTready : Bool
  undef : BitVec 8

variable {p : Params}

section Wires

variable (s : State p) (i : Inputs)

def eventO : Bool := s.ctlDoneQ

def errorO : Bool := s.errQ

/-- `usb_conf_o`. -/
def usbConfO : BitVec 3 := s.cfgQ.setWidth 3

def treadyW : Bool := AxisSkid.sTready false s.skid i.mTready

def cnext : BitVec 7 := s.count - 1

def tvalidW : Bool := i.statusI || (s.getDescQ && !s.count.msb)

def tkeepW : Bool := !i.statusI

def tlastW : Bool := i.statusI || descTlast p s.memAddr.toNat || (cnext s).msb

def tdataW : BitVec 8 := (usbDesc p).getD s.memAddr.toNat i.undef

/-- The port connections of `U_SKID1`. -/
def skidInputs : AxisSkid.Inputs 9 where
  reset := i.reset
  sTvalid := tvalidW s i
  sTlast := tlastW s i
  sTdata := BitVec.ofBool (tkeepW i) ++ tdataW s i
  mTready := i.mTready

def mTvalidO : Bool := AxisSkid.mTvalid false s.skid (tvalidW s i)

def mTlastO : Bool := AxisSkid.mTlast false s.skid (tlastW s i)

/-- `m_tkeep_o` and `m_tdata_o`. -/
def mTdataO : BitVec 9 :=
  AxisSkid.mTdata false s.skid (BitVec.ofBool (tkeepW i) ++ tdataW s i)

/-- `maxlen_w[6:0]`, with `MAX_CONFIG_LENGTH` at its default: the other widths rely on it. -/
def maxlenW : BitVec 7 := BitVec.ofNat 7 (min i.reqLength.toNat 64) - 1

/-- What `mem_addr` is set to when a request starts. -/
def startAddr : ℕ :=
  if i.reqValue.extractLsb' 8 2 = 2 then descConfigStart p
  else if i.reqValue.extractLsb' 8 2 = 3 && hasStrings p then
    if i.reqValue.extractLsb' 0 2 = 0 then descStart0 p
    else if i.reqValue.extractLsb' 0 2 = 1 then descStart1 p
    else if i.reqValue.extractLsb' 0 2 = 2 then descStart2 p
    else descStart3 p
  else if i.reqArgs = 0 then
    if i.reqType.extractLsb' 0 2 = 0 then descStatusStart p
    else if i.reqType.extractLsb' 0 2 = 1 then descStatusStart p + 2
    else if i.reqType.extractLsb' 0 2 = 2 then descStatusStart p + 4
    else 0
  else 0

/-- The request that is decoded in this cycle. -/
def decode : Decoded :=
  if i.selectI && i.startI && s.stdReq then
    ⟨i.reqArgs == 0x05, i.reqArgs == 0x09, i.reqArgs == 0x0b⟩
  else ⟨false, false, false⟩

/-- `set_addr_q || set_conf_q || set_face_q`. -/
def Decoded.any (d : Decoded) : Bool := d.setAddr || d.setConf || d.setFace

def errNext : Bool :=
  if i.selectI && s.startQ && s.stdReq then !s.getDescQ && !s.setQs.any
  else i.selectI && s.errQ

def memAddrNext : BitVec (abits p) :=
  if i.selectI && i.startI then BitVec.ofNat _ (startAddr (p := p) i)
  else if treadyW s i && s.getDescQ then s.memAddr + 1
  else s.memAddr

def getDescNext : Bool :=
  if s.getDescQ && treadyW s i then !tlastW s i
  else if i.startI && i.selectI && i.reqEndpt == 0 then i.reqArgs == 0x06 || i.reqArgs == 0
  else s.getDescQ

def ctlDoneNext : Bool :=
  if i.selectI && s.setQs.any then true
  else i.selectI && i.statusI && s.ctlDoneQ

end Wires

/-- One clock edge. -/
def step (s : State p) (i : Inputs) : State p where
  count :=
    if !i.selectI then maxlenW i
    else if tvalidW s i && treadyW s i then cnext s
    else s.count
  stdReq := i.reqType.extractLsb' 0 7 == 0 && i.reqEndpt == 0
  startQ := i.startI
  setQs := decode s i
  errQ := errNext s i
  memAddr := memAddrNext s i
  getDescQ := !i.reset && getDescNext s i
  ctlDoneQ := !i.reset && ctlDoneNext s i
  adrQ :=
    if i.reset then 0 else if s.setQs.setAddr then i.reqValue.setWidth 7 else s.adrQ
  enmQ := !i.reset && (s.setQs.setAddr || s.enmQ)
  cfgQ :=
    if i.reset then 0
    else if s.setQs.setConf then (i.reqValue.setWidth 3 : BitVec 3).setWidth 8
    else s.cfgQ
  setQ := !i.reset && (s.setQs.setConf || s.setQ)
  skid := AxisSkid.step s.skid (skidInputs s i)

end MiscVerilogCores.CtlPipe0
