import MiscVerilogCores.Model.VpiBulkIn

/-! # The VPI model of the host: `usbhost.c`, `stdreq.c` and `ulpisim.c`

The host steps through a transaction packet by packet; the simulator steps the host once per clock
edge, and puts what it returns onto the bus of `ulpi_shell.v`. A step that does not pass an `assert`,
or that reads past the end of an array, returns nothing. The steps of a transaction start from a copy
of the bus; while `rst_n` is low the source clears `dir` and `nxt` in it before. -/

namespace MiscVerilogCores.VpiUsb

/-! ## `ulpi.h` and `ulpi.c` -/

def ulpitxACK : BitVec 8 := usbpidACK ||| 0x40

/-- Its `out` is a copy of the bus. -/
def ackRecvStep (xfer : HostXfer) (bus : UlpiBus) : Outcome :=
  if xfer.type ≠ .upACK then .ok (-1, xfer, bus)
  else
    match xfer.stage with
    | .noXfer =>
        if ulpiBusIsIdle bus then .ok (0, xfer, bus)
        else if bus.data.a = ulpitxACK then do
          let xfer ← transferAck { xfer with stage := .hskPID }
          return (0, xfer, { bus with nxt := .sig1 })
        else .ok (-1, xfer, bus)
    | .hskPID =>
        if bus.dir = .sig0 ∧ bus.data.b = 0x00 then
          .ok (0, if bus.stp = .sig1 then { xfer with stage := .hskStop } else xfer,
            { bus with nxt := .sig0 })
        else .error .assertion
    | .hskStop =>
        if bus.dir = .sig0 ∧ bus.nxt = .sig0 ∧ bus.stp = .sig0 then
          -- The source assigns `XferIdle`, which is the value of `NoXfer`.
          .ok (1, { xfer with stage := .noXfer }, bus)
        else .error .assertion
    | _ => .ok (-1, xfer, bus)

/-! ## `usbhost.h` -/

inductive HostOp where
  | error | reset | suspend | resume | idle | sof | setup | bulkOUT | bulkIN
deriving DecidableEq, Inhabited

structure UsbHost where
  cycle : BitVec 64
  op : HostOp
  step : BitVec 32
  prev : UlpiBus
  xfer : HostXfer
  sof : BitVec 16
  addr : BitVec 8
  len : BitVec 16
deriving Inhabited

/-- `RESET_TICKS` and `SOF_N_TICKS`, which depend on how the model is compiled. -/
structure Timers where
  resetTicks : BitVec 32
  sofNTicks : BitVec 64

/-- The two bytes of a token. -/
def HostXfer.setTok (xfer : HostXfer) (dat : BitVec 16) : HostXfer :=
  let tok := UsbCrc.crc5Calc dat
  { xfer with tok1 := tok.setWidth 8, tok2 := (tok >>> 8).setWidth 8 }

/-! ## `usbhost.c` -/

abbrev HostOutcome : Type := Option (ℤ × UsbHost × UlpiBus)

/-- What a step leaves in `host->xfer`. -/
def UsbHost.after (host : UsbHost) (outcome : Option (ℤ × HostXfer × UlpiBus)) : HostOutcome := do
  let (result, xfer, out) ← outcome
  return (result, { host with xfer := xfer }, out)

def bulkOutStep (cycle : BitVec 64) (wait : Bool) (xfer : HostXfer) (bus : UlpiBus) :
    Option (ℤ × HostXfer × UlpiBus) :=
  match xfer.type with
  | .out => do
      let (result, xfer, out) ← (tokenSendStep xfer bus).toOption
      if result < 0 then return (result, xfer, out)
      if result > 0 then
        let type : XferType := if (← xfer.seq.toOption) = .sig0 then .dnDATA0 else .dnDATA1
        return (0, { xfer with type := type, stage := .noXfer }, out)
      return (0, xfer, out)
  | .dnDATA0 | .dnDATA1 => do
      let (result, next, out) ← bulkOutData wait xfer.toTransfer bus
      let xfer := { xfer with toTransfer := next }
      if result < 0 then return (result, xfer, out)
      if result > 0 then
        return (0, setTimer cycle { xfer with type := .upACK, stage := .noXfer }, out)
      return (0, xfer, out)
  | .upACK =>
      if timedOut cycle xfer then some (1, { xfer with type := .xferIdle, stage := .noXfer }, bus)
      else do
        let (result, xfer, out) ← (ackRecvStep xfer bus).toOption
        if result > 0 then
          return (result, { xfer with type := .xferIdle, stage := .noXfer }, out)
        return (result, xfer, out)
  | _ => some (-1, xfer, bus)

def usbhReset (host : UsbHost) : UsbHost :=
  { host with op := .reset, step := 0, addr := 0, xfer := default }

/-! ## `stdreq.h` and `stdreq.c` -/

structure UsbStdreq where
  bmRequestType : BitVec 8
  bRequest : BitVec 8
  wValue : BitVec 16
  wIndex : BitVec 16
  wLength : BitVec 16
  /-- A pointer. -/
  data : BitVec 64

def stdreqGetStatus : BitVec 8 := 0
def stdreqSetAddress : BitVec 8 := 5
def stdreqGetDescriptor : BitVec 8 := 6
def stdreqSetConfiguration : BitVec 8 := 9

def descDevice : BitVec 16 := 1
def descConfiguration : BitVec 16 := 2

def maxConfigSize : BitVec 16 := 64

/-- A word in memory, the low byte first. -/
def memoryBytes {w : ℕ} (word : BitVec w) : List (BitVec 8) :=
  (List.range (w / 8)).map fun k => word.extractLsb' (8 * k) 8

/-- The request in memory. -/
def UsbStdreq.memory (req : UsbStdreq) : List (BitVec 8) :=
  [req.bmRequestType, req.bRequest] ++ memoryBytes req.wValue ++ memoryBytes req.wIndex ++
    memoryBytes req.wLength ++ memoryBytes req.data

def stdreqStart (host : UsbHost) (req : UsbStdreq) : UsbHost :=
  let crc := UsbCrc.crc16Calc (req.memory.take 8)
  let xfer := host.xfer.setTok (host.addr.setWidth 16 &&& 0x7F)
  { host with
    xfer := { xfer with
      endpoint := 0
      epSeq := fun ep => if ep = 0 then .sig0 else xfer.epSeq ep
      type := .setup
      stage := .noXfer
      txLen := 8
      txPtr := 0
      crc1 := crc.setWidth 8
      crc2 := (crc >>> 8).setWidth 8
      tx := Vector.ofFn fun k => req.memory[k]?.getD xfer.tx[k]
      rxLen := host.len.toNat
      rxPtr := 0 }
    op := .setup
    step := 0 }

/-- The request is started if the host has nothing to do. -/
def request (host : UsbHost) (req : UsbStdreq) : Option UsbHost :=
  if host.op ≠ .idle then none else some (stdreqStart host req)

namespace Stdreq

/-- `desc` is where the descriptor is to be put. -/
def getDescriptor (host : UsbHost) (num : BitVec 16) (desc : BitVec 64) : Option UsbHost :=
  request host ⟨0x80, stdreqGetDescriptor, num, 0, maxConfigSize, desc⟩

def getStatus (host : UsbHost) : Option UsbHost :=
  request host ⟨0x80, stdreqGetStatus, 0, 0, 2, 0⟩

def getDescDevice (host : UsbHost) : Option UsbHost :=
  request host ⟨0x80, stdreqGetDescriptor, descDevice <<< 8, 0, maxConfigSize, 0⟩

def getDescConfig (host : UsbHost) (len : BitVec 16) : Option UsbHost :=
  let len := if len > maxConfigSize ∨ len = 0 then maxConfigSize else len
  request host ⟨0x80, stdreqGetDescriptor, descConfiguration <<< 8, 0, len, 0⟩

def setAddress (host : UsbHost) (addr : BitVec 8) : Option UsbHost :=
  request host ⟨0x00, stdreqSetAddress, addr.setWidth 16, 0, 0, 0⟩

def setConfig (host : UsbHost) (conf : BitVec 8) : Option UsbHost :=
  request host ⟨0x00, stdreqSetConfiguration, conf.setWidth 16, 0, 0, 0⟩

end Stdreq

/-- `datax_send_step`, of the transfer of the host. -/
def hostSendStep (xfer : HostXfer) (bus : UlpiBus) : Option (ℤ × HostXfer × UlpiBus) := do
  let (result, next, out) ← dataxSendStep xfer.toTransfer bus
  return (result, { xfer with toTransfer := next }, out)

/-- The packet of a step of the request. Where the transfer is not of its type yet, it starts. -/
def stdreqPacket (host : UsbHost) (bus : UlpiBus) : Option (ℤ × HostXfer × UlpiBus) :=
  let xfer := host.xfer
  let starts (type : XferType) : HostXfer :=
    if xfer.type ≠ type then { xfer with type := type, stage := .noXfer } else xfer
  match host.step.toNat with
  | 0 => if xfer.type ≠ .setup then some (-1, xfer, bus) else (tokenSendStep xfer bus).toOption
  | 1 =>
      if xfer.type ≠ .dnDATA0 ∧ xfer.txLen < 8 then none else hostSendStep (starts .dnDATA0) bus
  | 2 => (ackRecvStep (starts .upACK) bus).toOption
  | 3 => (tokenSendStep (starts .in) bus).toOption
  | 4 =>
      let next :=
        if xfer.type ≠ .upDATA1 then { starts .upDATA1 with rxLen := maxPacketSize, rxPtr := 0 }
        else xfer
      (dataxRecvStep next bus).toOption
  | 5 => (ackSendStep (starts .dnACK) bus).toOption
  | 6 => (tokenSendStep (starts .out) bus).toOption
  | 7 =>
      let next := if xfer.type ≠ .dnDATA1 then { starts .dnDATA1 with txLen := 0 } else xfer
      hostSendStep next bus
  | 8 => (ackRecvStep (starts .upACK) bus).toOption
  | _ => some (-1, xfer, bus)

def stdreqStep (host : UsbHost) (bus : UlpiBus) : HostOutcome := do
  let (result, host, out) ← host.after (stdreqPacket host bus)
  if result > 1 then
    return (0, { host with step := host.step + 1, xfer := { host.xfer with type := .xferIdle } }, out)
  return (result, host, out)

/-! ## `tc_bulkout.c` -/

/-- A bulk OUT transaction is set up, of bytes that the source draws at random. -/
def bulkOutXfer (host : UsbHost) (ep : BitVec 8) (data : List (BitVec 8)) : UsbHost :=
  let crc := UsbCrc.crc16Calc data
  let tok := (host.addr.setWidth 16 &&& (0x7F : BitVec 16)) ||| ((ep &&& 0x0F).setWidth 16 <<< 7)
  let xfer := host.xfer.setTok tok
  { host with
    op := .bulkOUT
    xfer := { xfer with
      type := .out
      stage := .noXfer
      endpoint := ep
      txLen := data.length
      txPtr := 0
      tx := Vector.ofFn fun k => data[k]?.getD xfer.tx[k]
      crc1 := crc.setWidth 8
      crc2 := (crc >>> 8).setWidth 8 } }

/-! ## `usbh_step` -/

/-- A start of frame is sent instead of idling. -/
def startFrame (host : UsbHost) : UsbHost :=
  { host with
    sof := host.sof + 1
    op := .sof
    step := 0
    xfer := { host.xfer.setTok (host.sof >>> 3) with type := .sof } }

/-- What `usbh_step` does before the switch; the output is a copy of the bus. -/
def usbhBegin (t : Timers) (host : UsbHost) (bus : UlpiBus) : UsbHost × UlpiBus :=
  let next := { host with cycle := host.cycle + 1 }
  if bus.rstN = .sig0 then
    (if host.prev.rstN ≠ .sig0 then usbhReset next else next, { bus with dir := .sig0, nxt := .sig0 })
  else if host.cycle % t.sofNTicks = 0 ∧ host.op = .idle then (startFrame next, bus)
  else (next, bus)

/-- `host->prev` is set behind the switch, if the latter does not return. -/
def UsbHost.watch (host : UsbHost) (bus : UlpiBus) : UsbHost := { host with prev := bus }

/-- `wait` is whether the random number asks for a wait state. -/
def usbhStep (t : Timers) (wait : Bool) (host : UsbHost) (bus : UlpiBus) : HostOutcome :=
  let (host, out) := usbhBegin t host bus
  match host.op with
  | .error => some (-1, { host with step := host.step + 1 }.watch bus, out)
  | .reset =>
      let step := host.step + 1
      let next := if step ≥ 2 ∧ step ≥ t.resetTicks then { host with op := .idle, step := 0 }
        else { host with step := step }
      some (0, next.watch bus, out)
  | .suspend | .resume | .idle => some (0, { host with step := host.step + 1 }.watch bus, out)
  | .sof => do
      let (result, next, out) ← host.after (tokenSendStep host.xfer bus).toOption
      return (result, (if result = 1 then { next with op := .idle } else next).watch bus, out)
  | .setup => stdreqStep host bus
  | .bulkOUT => host.after (bulkOutStep host.cycle wait host.xfer bus)
  | .bulkIN => host.after (bulkInStep host.cycle wait host.xfer bus).toOption

/-! ## `ulpisim.c` and `ulpi_shell.v` -/

/-- `ut_step_t`, after power-on and start-up. -/
inductive UtOp where
  | idle | test | done
deriving DecidableEq, Inhabited

/-- `test_step`: a test-case sets up the next packet of the host, or ends. -/
abbrev TestStep (τ : Type) : Type := τ → UsbHost → ℤ × τ × UsbHost

/-- `ut_state_t`, with the state of the test-cases. -/
structure UtState (τ : Type) where
  op : UtOp
  host : UsbHost
  tests : τ
  bus : UlpiBus

/-- What the link drives. -/
structure Lines where
  rstN : Bit
  stp : Bit
  data : Byte

/-- What comes into the simulator: whether the random number of the cycle asks for a wait state, and
what the link drives at the next clock edge. -/
structure UtInputs where
  wait : Bool
  lines : Lines

section Simulator

variable {τ : Type} (test : TestStep τ) (t : Timers)

/-- A step that the simulator takes for a failure returns nothing. -/
def utStep (wait : Bool) (s : UtState τ) : Option (UtState τ × UlpiBus) :=
  let stepped (next : ℤ → UtOp) : Option (UtState τ × UlpiBus) := do
    let (result, host, out) ← usbhStep t wait s.host s.bus
    if result < 0 then none else return ({ s with op := next result, host := host }, out)
  match s.op with
  | .idle =>
      if ¬ulpiBusIsIdle s.bus then stepped fun _ => .idle
      else
        let (result, tests, host) := test s.tests { s.host with cycle := s.host.cycle + 1 }
        let op : UtOp := if result > 1 then .done else if result > 0 then .idle else .test
        if result < 0 then none else some ({ s with op := op, host := host, tests := tests }, s.bus)
  | .test => stepped fun result => if result > 0 then .idle else .test
  | .done => some (s, s.bus)

/-- The bus at the next clock edge: `dir` says who drives `data`. -/
def shellBus (out : UlpiBus) (lines : Lines) : UlpiBus :=
  { out with
    rstN := lines.rstN
    stp := lines.stp
    data := if out.dir = .sig1 then out.data else lines.data }

/-- From one clock edge to the next. -/
def utEdge (i : UtInputs) (s : UtState τ) : Option (UtState τ) := do
  let (s, out) ← utStep test t i.wait s
  return { s with bus := shellBus out i.lines }

end Simulator

end MiscVerilogCores.VpiUsb
