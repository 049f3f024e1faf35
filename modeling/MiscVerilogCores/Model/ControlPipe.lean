import MiscVerilogCores.Model.UsbUlpiTop

/-! # `U_STDREQ1` and `U_CTL1`

The two modules of `usb_ulpi_top.v` that serve end-point 0, as they are wired up, with the signals
of the other modules as inputs. -/

namespace MiscVerilogCores.ControlPipe

structure State (p : CtlPipe0.Params) where
  std : Stdreq.State
  ctl : CtlPipe0.State p
deriving Inhabited

/-- The ports of `U_STDREQ1`, the ready signal of the encoder, and what the ROM holds behind the
descriptors. -/
structure Inputs where
  std : Stdreq.Inputs
  mTready : Bool
  undef : BitVec 8

variable {p : CtlPipe0.Params}

/-- The port connections of `U_CTL1`. -/
def ctlInputs (s : State p) (i : Inputs) : CtlPipe0.Inputs where
  reset := i.std.reset
  selectI := s.std.parser.reqCycle
  statusI := s.std.zdpQ
  startI := s.std.parser.reqStart
  reqEndpt := 0
  reqType := s.std.parser.rtype
  reqArgs := s.std.parser.rargs
  reqValue := s.std.parser.value
  reqLength := s.std.parser.length
  mTready := i.mTready
  undef := i.undef

/-- One clock edge. -/
def step (s : State p) (i : Inputs) : State p where
  std := Stdreq.step true s.std i.std
  ctl := CtlPipe0.step s.ctl (ctlInputs s i)

/-- A word of the `m_` port: `tlast`, and `tkeep` in front of the data. -/
abbrev Word := Bool × BitVec 9

/-- The word that is taken from the `m_` port in a cycle. -/
def sent (s : State p) (i : Inputs) : List Word :=
  if CtlPipe0.mTvalidO s.ctl (ctlInputs s i) && i.mTready then
    [(CtlPipe0.mTlastO s.ctl (ctlInputs s i), CtlPipe0.mTdataO s.ctl (ctlInputs s i))]
  else []

/-! ## As parts of the core -/

section Core

variable {ABITS : ℕ} {q : UsbUlpiTop.Params}

def ofCore (s : UsbUlpiTop.State ABITS q) : State q.ctl := ⟨s.stdreq, s.ctl⟩

def coreInputs (s : UsbUlpiTop.State ABITS q) (i : UsbUlpiTop.Inputs) : Inputs :=
  ⟨UsbUlpiTop.stdreqInputs s i, i.ctlTready, i.undef⟩

theorem ofCore_step (s : UsbUlpiTop.State ABITS q) (i : UsbUlpiTop.Inputs) :
    ofCore (UsbUlpiTop.step s i) = step (ofCore s) (coreInputs s i) := rfl

end Core

end MiscVerilogCores.ControlPipe
