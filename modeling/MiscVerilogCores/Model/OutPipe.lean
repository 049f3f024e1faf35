import MiscVerilogCores.Model.UsbUlpiTop

/-! # `U_PROTO1` and a bulk OUT end-point

The transaction layer and one of the end-points that it selects, as `usb_ulpi_top.v` wires them up,
with the signals of the other modules as inputs. -/

namespace MiscVerilogCores.OutPipe

structure State (ABITS : ℕ) where
  proto : Protocol.State
  ep : BulkOut.State ABITS
deriving Inhabited

/-- The ports of `U_PROTO1` (what the end-point reports is put in its place), the stream of the
decoder, and the reader behind the end-point. -/
structure Inputs where
  proto : Protocol.Inputs
  sTvalid : Bool
  sTkeep : Bool
  sTlast : Bool
  sTdata : BitVec 8
  mTready : Bool
  undef : Bool

/-- The transaction layer, the end-point, and the place of the end-point. -/
structure Params where
  proto : Protocol.Params
  ep : BulkOut.Params
  place : Fin 4

/-- The end-point at a place reports this. -/
def report (i : Protocol.Inputs) (r : Protocol.EpInputs) (n : Fin 4) : Protocol.Inputs :=
  { i with
    ep1 := if n = 0 then r else i.ep1
    ep2 := if n = 1 then r else i.ep2
    ep3 := if n = 2 then r else i.ep3
    ep4 := if n = 3 then r else i.ep4 }

variable {ABITS : ℕ}

section Wires

variable (p : Params) (s : State ABITS) (i : Inputs)

/-- The port connections of `U_PROTO1`. -/
def protocolInputs : Protocol.Inputs := report i.proto (UsbUlpiTop.outReports s.ep) p.place

/-- The port connections of the end-point. -/
def outInputs : BulkOut.Inputs where
  reset := i.proto.reset
  setConfI := i.proto.setConfI
  clrConfI := i.proto.clrConfI
  selectedI := (s.proto.bulk p.place).selQ
  rxErrorI := s.proto.epxErrQ
  ackSentI := (s.proto.bulk p.place).ackQ
  sTvalid := i.sTvalid
  sTkeep := i.sTkeep
  sTlast := i.sTlast
  sTdata := i.sTdata
  mTready := i.mTready
  undef := i.undef

end Wires

/-- One clock edge. -/
def step (p : Params) (s : State ABITS) (i : Inputs) : State ABITS where
  proto := Protocol.step p.proto s.proto (protocolInputs p s i)
  ep := BulkOut.step p.ep s.ep (outInputs p s i)

/-- The word that is delivered in a cycle: `tlast`, and the data. -/
def delivered (p : Params) (s : State ABITS) (i : Inputs) : List (Bool × BitVec 8) :=
  PacketFifo.delivered (BulkOut.fifoParams p.ep) s.ep.fifo (BulkOut.fifoInputs s.ep (outInputs p s i))

/-! ## As parts of the core -/

section Core

variable {q : UsbUlpiTop.Params}

/-- `U_OUT_EP1` and `U_OUT_EP4`. -/
def coreParams1 (q : UsbUlpiTop.Params) : Params :=
  ⟨UsbUlpiTop.protocolParams q, UsbUlpiTop.outParams q q.useEp1Out, 0⟩

def coreParams4 (q : UsbUlpiTop.Params) : Params :=
  ⟨UsbUlpiTop.protocolParams q, UsbUlpiTop.outParams q q.useEp4Out, 3⟩

def ofCore1 (s : UsbUlpiTop.State ABITS q) : State ABITS := ⟨s.proto, s.ep1⟩

def ofCore4 (s : UsbUlpiTop.State ABITS q) : State ABITS := ⟨s.proto, s.ep4⟩

def coreInputs (s : UsbUlpiTop.State ABITS q) (i : UsbUlpiTop.Inputs) (tready : Bool) : Inputs :=
  ⟨UsbUlpiTop.protocolInputs s i, s.dec.tvalid, s.dec.tkeep, s.dec.tlast, s.dec.tdata, tready,
    i.undef.getLsbD 0⟩

theorem ofCore1_step (s : UsbUlpiTop.State ABITS q) (i : UsbUlpiTop.Inputs) :
    ofCore1 (UsbUlpiTop.step s i) = step (coreParams1 q) (ofCore1 s) (coreInputs s i i.ep1Tready) :=
  rfl

theorem ofCore4_step (s : UsbUlpiTop.State ABITS q) (i : UsbUlpiTop.Inputs) :
    ofCore4 (UsbUlpiTop.step s i) = step (coreParams4 q) (ofCore4 s) (coreInputs s i i.ep4Tready) :=
  rfl

end Core

end MiscVerilogCores.OutPipe
