import MiscVerilogCores.Model.AxisAdapter
import MiscVerilogCores.Model.AxisFifo
import MiscVerilogCores.Model.AxisLogger
import MiscVerilogCores.Model.HexDump
import MiscVerilogCores.Model.Uart

/-! # The telemetry of `usb_ulpi_core.v`

The samples of `axis_logger` go through its FIFO and are taken apart into bytes; with `USE_UART`,
`hex_dump` writes the bytes as text into a FIFO of its own, which a UART empties. What the rest of the core
shows of itself to the logger is input here. -/

namespace MiscVerilogCores.UsbUlpiCore

open AxisAdapter

/-- The parameters of `U_FIFO4` and `U_FIFO0` but for the size. -/
def fifoParams (addrWidth : ℕ) (keepEnable : Bool) : AxisFifo.Params 1 where
  addrWidth := addrWidth
  ramPipeline := 1
  keepEnable := keepEnable
  lastEnable := true
  userEnable := false
  frameFifo := false
  userBadFrameValue := 0
  userBadFrameMask := 0
  dropOversizeFrame := false
  dropBadFrame := false
  dropWhenFull := false
  markWhenFull := false
  frame_last := fun _ => rfl
  oversize_frame := fun h => absurd h Bool.false_ne_true
  bad_oversize := fun h => absurd h Bool.false_ne_true
  full_oversize := fun h => absurd h Bool.false_ne_true
  mask_pos := fun h => h.elim (absurd · Bool.false_ne_true) (absurd · Bool.false_ne_true)
  mark_frame := fun h => absurd h Bool.false_ne_true
  mark_last := fun h => absurd h Bool.false_ne_true

/-- `U_FIFO4`: its `DEPTH` of 512 counts bytes, so that there are 128 words of four. -/
abbrev logFifo : AxisFifo.Params 1 := fifoParams 7 true

/-- `U_FIFO0`: 2048 characters. -/
abbrev textFifo : AxisFifo.Params 1 := fifoParams 11 false

/-- What the FIFOs store besides the data: there is no `tid`, no `tdest` and no `tuser`. -/
abbrev Side := Unit × BitVec 1

/-- The parts of `U_LOG1` and of `U_HEXDUMP1`, `U_UART1`, and two registers. -/
structure State where
  framer : AxisLogger.State 20 12 3
  logFifo : AxisFifo.State logFifo 32 4 Unit
  adapter : Downsize.State 4 8 1 Side
  hexDump : HexDump.State
  textFifo : AxisFifo.State textFifo 8 1 Unit
  uart : Uart.State 8
  tstart : Bool
  sendQ : Bool
deriving Inhabited

/-- The wires of `g_debug`: the endpoints, the packet and the state of the protocol, an event of the
receiver, and what is logged beside them. -/
structure Signals where
  ep3W : BitVec 4
  ep2W : BitVec 4
  ep1W : BitVec 4
  pidW : BitVec 4
  reW : Bool
  stW : BitVec 3
  crcErrorO : Bool
  sofW : BitVec 11

section Signals

variable (g : Signals)

def Signals.sigW : BitVec 20 := g.ep3W ++ g.ep2W ++ g.ep1W ++ g.pidW ++ BitVec.ofBool g.reW ++ g.stW

def Signals.ignW : BitVec 12 := BitVec.ofBool g.crcErrorO ++ g.sofW

/-- A sample of the signals. -/
def Signals.sample : BitVec 32 := g.ignW ++ g.sigW

end Signals

/-- `sigW` and `ignW` are what is logged. -/
structure Inputs where
  usbRst : Bool
  configured : Bool
  sigW : BitVec 20
  ignW : BitVec 12
  sendNi : Bool
  uartRxI : Bool

/-- `UART_PRESCALE`. -/
def uartPrescale : BitVec 16 := 33

section Ports

variable (s : State) (i : Inputs)

def framerPort : AxisLogger.Inputs 20 12 where
  reset := i.usbRst
  enableI := i.configured
  changeI := i.sigW
  ignoreI := i.ignW
  cTready := AxisFifo.sAxisTready s.logFifo

def logFifoPort : AxisFifo.Inputs 32 4 1 Unit where
  rst := i.usbRst
  sAxis :=
    { tdata := AxisLogger.cTdata s.framer
      tkeep := if AxisLogger.cTvalid s.framer then BitVec.allOnes 4 else 0
      tlast := AxisLogger.cTlast s.framer
      user := ((), 0) }
  sAxisTvalid := AxisLogger.cTvalid s.framer
  mAxisTready := Downsize.sAxisTready s.adapter

def adapterPort : Downsize.Inputs 4 8 1 Side where
  rst := i.usbRst
  sAxis := AxisFifo.mAxis s.logFifo
  sAxisTvalid := AxisFifo.mAxisTvalid s.logFifo
  mAxisTready := HexDump.sTready s.hexDump

def hexDumpPort : HexDump.Inputs where
  reset := i.usbRst
  startDumpI := s.tstart
  sTvalid := s.adapter.mAxisTvalid
  sTlast := s.adapter.mAxis.tlast
  sTkeep := true
  sTdata := s.adapter.mAxis.tdata
  fready := AxisFifo.sAxisTready s.textFifo
  levelTop := s.textFifo.depth.getLsbD 10
  offers := AxisFifo.mAxisTvalid s.textFifo
  mTready := s.uart.tx.sAxisTready

def textFifoPort : AxisFifo.Inputs 8 1 1 Unit where
  rst := i.usbRst
  sAxis :=
    { tdata := HexDump.fdata s.hexDump
      tkeep := 1
      tlast := HexDump.flast s.hexDump
      user := ((), 0) }
  sAxisTvalid := s.hexDump.fvalid
  mAxisTready := s.uart.tx.sAxisTready

/-- A character is offered only while the transmitter is not busy. -/
def uartPort : Uart.Inputs 8 where
  rst := i.usbRst
  sAxisTdata := (AxisFifo.mAxis s.textFifo).tdata
  sAxisTvalid := AxisFifo.mAxisTvalid s.textFifo && !s.uart.tx.busy
  mAxisTready := true
  rxd := i.uartRxI
  prescale := uartPrescale

/-- A dump is asked for by the button, or by the letter `a`. -/
def tstartNext : Bool :=
  !HexDump.isDumpingO s.hexDump &&
    (s.sendQ || s.uart.rx.mAxisTvalid && s.uart.rx.mAxisTdata == HexDump.ascii 'a')

def sendNext : Bool := !i.sendNi && !HexDump.isDumpingO s.hexDump && !s.uart.tx.busy

end Ports

def step (s : State) (i : Inputs) : State where
  framer := AxisLogger.step s.framer (framerPort s i)
  logFifo := AxisFifo.step s.logFifo (logFifoPort s i)
  adapter := Downsize.step s.adapter (adapterPort s i)
  hexDump := HexDump.step false s.hexDump (hexDumpPort s i)
  textFifo := AxisFifo.step s.textFifo (textFifoPort s i)
  uart := Uart.step s.uart (uartPort s i)
  tstart := tstartNext s
  sendQ := sendNext s i

/-- `uart_tx_o`. -/
def uartTxO (s : State) : Bool := s.uart.tx.txd

end MiscVerilogCores.UsbUlpiCore
