import MiscVerilogCores.Model.BulkIn
import MiscVerilogCores.Model.BulkOut
import MiscVerilogCores.Model.CtlPipe0
import MiscVerilogCores.Model.Protocol
import MiscVerilogCores.Model.Stdreq
import MiscVerilogCores.Model.UlpiDecoder

/-! # `usb_ulpi_top.v`

The packet decoder, the transaction layer, the control pipe and the bulk end-points, as they are
wired up. The line-state logic, the packet encoder and the multiplexer in front of it are outside:
their outputs are inputs here. -/

namespace MiscVerilogCores.UsbUlpiTop

structure Params where
  useEp1Out : Bool
  useEp2In : Bool
  useEp3In : Bool
  useEp4Out : Bool
  endpoint1 : BitVec 4
  endpoint2 : BitVec 4
  endpoint3 : BitVec 4
  endpoint4 : BitVec 4
  maxPacketLength : ℕ
  maxTaTimer : BitVec 7
  maxEpTimer : BitVec 5
  ctl : CtlPipe0.Params

section Instances

variable (p : Params)

/-- The parameters of `U_PROTO1`. -/
def protocolParams : Protocol.Params where
  ep1 := ⟨p.endpoint1, false, p.useEp1Out⟩
  ep2 := ⟨p.endpoint2, p.useEp2In, false⟩
  ep3 := ⟨p.endpoint3, p.useEp3In, false⟩
  ep4 := ⟨p.endpoint4, false, p.useEp4Out⟩
  maxTaTimer := p.maxTaTimer
  maxEpTimer := p.maxEpTimer

/-- The parameters of `U_OUT_EP1` and `U_OUT_EP4`. -/
def outParams (enabled : Bool) : BulkOut.Params where
  maxPacketLength := p.maxPacketLength
  dropOnOverflow := false
  enabled := enabled

/-- The parameters of `U_IN_EP2` and `U_IN_EP3`. -/
def inParams (enabled : Bool) : BulkIn.Params where
  maxPacketLength := p.maxPacketLength
  enabled := enabled

end Instances

structure State (ABITS : ℕ) (p : Params) where
  dec : UlpiDecoder.State
  proto : Protocol.State
  stdreq : Stdreq.State
  ctl : CtlPipe0.State p.ctl
  usbAddrQ : BitVec 7
  ep1 : BulkOut.State ABITS
  ep2 : BulkIn.State ABITS (inParams p p.useEp2In)
  ep3 : BulkIn.State ABITS (inParams p p.useEp3In)
  ep4 : BulkOut.State ABITS
deriving Inhabited

/-- An application that writes to a bulk IN end-point, and the multiplexer that reads from it. -/
structure InPort where
  tvalid : Bool
  tlast : Bool
  tdata : BitVec 8
  tready : Bool
deriving Inhabited

structure Inputs where
  reset : Bool
  dec : UlpiDecoder.Inputs
  rxEvent : BitVec 2
  hskSent : Bool
  usbBusy : Bool
  usbSent : Bool
  ctlTready : Bool
  ep1Tready : Bool
  ep2 : InPort
  ep3 : InPort
  ep4Tready : Bool
  undef : BitVec 8
deriving Inhabited

variable {ABITS : ℕ} {p : Params}

section Wires

variable (s : State ABITS p) (i : Inputs)

/-- The port connections of `U_DEC1`, whose reset is the one of the core. -/
def decInputs : UlpiDecoder.Inputs := { i.dec with reset := i.reset }

/-- A bulk OUT end-point, as `protocol` sees it. -/
def outReports (e : BulkOut.State ABITS) : Protocol.EpInputs where
  rxRdy := BulkOut.epReadyO e
  txRdy := false
  parity := BulkOut.parityO e
  halted := BulkOut.stalledO e

/-- A bulk IN end-point, as `protocol` sees it. -/
def inReports {q : BulkIn.Params} (e : BulkIn.State ABITS q) : Protocol.EpInputs where
  rxRdy := false
  txRdy := BulkIn.epReadyO e
  parity := BulkIn.parityO e
  halted := BulkIn.stalledO e

/-- The port connections of `U_PROTO1`. -/
def protocolInputs : Protocol.Inputs where
  reset := i.reset
  rxEvent := i.rxEvent
  setConfI := CtlPipe0.eventO s.ctl
  clrConfI := CtlPipe0.errorO s.ctl
  usbAddr := s.usbAddrQ
  decActv := s.dec.decActvQ
  crcError := s.dec.crcErrorFlag
  hskRecv := s.dec.hskRecvQ
  usbRecv := s.dec.usbRecvQ
  usbPid := s.dec.tuser
  eopRecv := s.dec.eopQ
  tokRecv := s.dec.tokRecvQ
  tokAddr := s.dec.addrQ
  tokEndp := s.dec.endpQ
  hskSent := i.hskSent
  usbBusy := i.usbBusy
  usbSent := i.usbSent
  ep0Select := s.stdreq.cycQ
  ep0Parity := s.stdreq.parQ
  ep1 := outReports s.ep1
  ep2 := inReports s.ep2
  ep3 := inReports s.ep3
  ep4 := outReports s.ep4
  undef := i.undef.setWidth 4

/-- The port connections of `U_STDREQ1`. -/
def stdreqInputs : Stdreq.Inputs where
  reset := i.reset
  usbAddr := s.usbAddrQ
  tokRecv := s.dec.tokRecvQ
  tokAddr := s.dec.addrQ
  tokEndp := s.dec.endpQ
  hskRecv := s.dec.hskRecvQ
  hskSent := i.hskSent
  timeout := s.proto.timeoutQ
  sTvalid := s.dec.tvalid
  sTkeep := s.dec.tkeep
  sTuser := s.dec.tuser
  sTdata := s.dec.tdata

/-- The port connections of `U_CTL1`. -/
def ctlInputs : CtlPipe0.Inputs where
  reset := i.reset
  selectI := s.stdreq.parser.reqCycle
  statusI := s.stdreq.zdpQ
  startI := s.stdreq.parser.reqStart
  reqEndpt := 0
  reqType := s.stdreq.parser.rtype
  reqArgs := s.stdreq.parser.rargs
  reqValue := s.stdreq.parser.value
  reqLength := s.stdreq.parser.length
  mTready := i.ctlTready
  undef := i.undef

/-- The port connections of a bulk OUT end-point. -/
def outInputs (q : Protocol.EpState) (tready : Bool) : BulkOut.Inputs where
  reset := i.reset
  setConfI := CtlPipe0.eventO s.ctl
  clrConfI := CtlPipe0.errorO s.ctl
  selectedI := q.selQ
  rxErrorI := s.proto.epxErrQ
  ackSentI := q.ackQ
  sTvalid := s.dec.tvalid
  sTkeep := s.dec.tkeep
  sTlast := s.dec.tlast
  sTdata := s.dec.tdata
  mTready := tready
  undef := i.undef.getLsbD 0

/-- The port connections of a bulk IN end-point. -/
def inInputs (q : Protocol.EpState) (port : InPort) : BulkIn.Inputs where
  reset := i.reset
  setConfI := CtlPipe0.eventO s.ctl
  clrConfI := CtlPipe0.errorO s.ctl
  selectedI := q.selQ
  ackRecvI := q.ackQ
  timedoutI := s.proto.epxErrQ
  sTvalid := port.tvalid
  sTlast := port.tlast
  sTdata := port.tdata
  mTready := port.tready

end Wires

/-- One clock edge. -/
def step (s : State ABITS p) (i : Inputs) : State ABITS p where
  dec := UlpiDecoder.step s.dec (decInputs i)
  proto := Protocol.step (protocolParams p) s.proto (protocolInputs s i)
  stdreq := Stdreq.step true s.stdreq (stdreqInputs s i)
  ctl := CtlPipe0.step s.ctl (ctlInputs s i)
  usbAddrQ := if i.reset then 0 else if s.stdreq.endQ then s.ctl.adrQ else s.usbAddrQ
  ep1 := BulkOut.step (outParams p p.useEp1Out) s.ep1 (outInputs s i s.proto.ep1 i.ep1Tready)
  ep2 := BulkIn.step s.ep2 (inInputs s i s.proto.ep2 i.ep2)
  ep3 := BulkIn.step s.ep3 (inInputs s i s.proto.ep3 i.ep3)
  ep4 := BulkOut.step (outParams p p.useEp4Out) s.ep4 (outInputs s i s.proto.ep4 i.ep4Tready)

/-- The state after a clock edge with `reset` asserted, whatever came before. -/
def afterReset (s : State ABITS p) (i : Inputs) : State ABITS p :=
  step s { i with reset := true }

end MiscVerilogCores.UsbUlpiTop
