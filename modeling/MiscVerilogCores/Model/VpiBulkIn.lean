import MiscVerilogCores.Model.UsbCrc
import MiscVerilogCores.Model.VpiUsb

/-! # Bulk IN transactions in the VPI model of the host: `ulpi.c` and `usbhost.c`

The host model sends an IN token, receives a DATAx packet and answers with an ACK. A step takes the
bus and returns it. A step that does not pass an `assert`, or that reads or writes past the end of an
array, has no result. -/

namespace MiscVerilogCores.VpiUsb

/-- What ends a step without a result. -/
inductive Fault where
  | assertion
  | epSeq
  /-- A read of `rx`, at the first index that is outside. -/
  | load (index : ℕ)
  /-- A write to `rx`. -/
  | store (index : ℕ)
deriving DecidableEq

/-- The fields of `transfer_t` that the sender of a DATAx packet does not use. -/
structure HostXfer extends Transfer where
  cycle : BitVec 32
  tok1 : BitVec 8
  tok2 : BitVec 8
deriving Inhabited

abbrev Outcome : Type := Except Fault (ℤ × HostXfer × UlpiBus)

/-! ## `ulpi.h` -/

def usbpidOUT : BitVec 8 := 0b0001
def usbpidIN : BitVec 8 := 0b1001
def usbpidSOF : BitVec 8 := 0b0101
def usbpidSETUP : BitVec 8 := 0b1101
def usbpidACK : BitVec 8 := 0b0010
def usbpidNAK : BitVec 8 := 0b1010
def usbpidSTALL : BitVec 8 := 0b1110
def usbpidNYET : BitVec 8 := 0b0110
def usbpidPING : BitVec 8 := 0b0100

def ulpitxDATA0 : BitVec 8 := usbpidDATA0 ||| 0x40
def ulpitxDATA1 : BitVec 8 := usbpidDATA1 ||| 0x40

def ulpiBusIsIdle (bus : UlpiBus) : Bool :=
  bus.rstN == .sig1 && bus.data.a == 0x00 && bus.data.b == 0x00 && bus.dir == .sig0 &&
    bus.nxt == .sig0 && bus.stp == .sig0

/-! ## Arrays of the transfer -/

namespace HostXfer

variable (xfer : HostXfer)

/-- `rx[index]`. -/
def load (index : ℕ) : Except Fault (BitVec 8) :=
  if h : index < maxPacketSize then .ok xfer.rx[index] else .error (.load index)

/-- The first bytes of `rx`. -/
def received (len : ℕ) : Except Fault (List (BitVec 8)) :=
  if len ≤ maxPacketSize then .ok (xfer.rx.toList.take len) else .error (.load maxPacketSize)

/-- `rx[rx_ptr++] = byte`. -/
def store (byte : BitVec 8) : Except Fault HostXfer :=
  if h : xfer.rxPtr < maxPacketSize then
    .ok { xfer with rx := xfer.rx.set xfer.rxPtr byte, rxPtr := xfer.rxPtr + 1 }
  else .error (.store xfer.rxPtr)

/-- `ep_seq[endpoint]`. -/
def seq : Except Fault Bit :=
  if xfer.endpoint.toNat < 16 then .ok (xfer.epSeq (xfer.endpoint.setWidth 4))
  else .error .epSeq

end HostXfer

/-! ## `ulpi.c` -/

def transferAck (xfer : HostXfer) : Except Fault HostXfer := do
  let seq ← xfer.seq
  let next : Bit := if seq = .sig0 then .sig1 else .sig0
  return { xfer with epSeq := fun ep => if ep = xfer.endpoint.setWidth 4 then next else xfer.epSeq ep }

/-- Whether the two bytes behind the payload are its check sum. -/
def checkRxCrc16 (xfer : HostXfer) : Except Fault (Bool × HostXfer) := do
  if xfer.rxLen > 0 then
    let len := xfer.rxLen.toNat
    let crc := UsbCrc.crc16Calc (← xfer.received len)
    let cod := UsbCrc.crc16Calc (← xfer.received xfer.rxPtr)
    let xfer := { xfer with crc1 := crc.setWidth 8, crc2 := (crc >>> 8).setWidth 8 }
    let lo ← xfer.load len
    if xfer.crc1 ≠ lo then return (false, xfer)
    let hi ← xfer.load (len + 1)
    return (xfer.crc2 == hi && cod == 0x4FFE, xfer)
  else return (xfer.rx[0] == 0x00 && xfer.rx[1] == 0x00, xfer)

/-- `drive_eop` fails in its assertions only. -/
def hostDriveEop (xfer : HostXfer) (bus out : UlpiBus) : Outcome :=
  match driveEop xfer.toTransfer bus out with
  | some (result, next, out) => .ok (result, { xfer with toTransfer := next }, out)
  | none => .error .assertion

def transferTypeToPid (xfer : HostXfer) : BitVec 8 :=
  let encoded (pid : BitVec 8) : BitVec 8 :=
    if xfer.type.ctorIdx < XferType.upACK.ctorIdx then pid ||| ((pid <<< 4) ^^^ 0xF0)
    else pid ||| 0x10
  match xfer.type with
  | .setup => encoded usbpidSETUP
  | .out => encoded usbpidOUT
  | .in => encoded usbpidIN
  | .sof => encoded usbpidSOF
  | .ping => encoded usbpidPING
  | .dnACK | .upACK => encoded usbpidACK
  | .upNAK => encoded usbpidNAK
  | .upNYET => encoded usbpidNYET
  | .upSTALL => encoded usbpidSTALL
  | .dnDATA0 | .upDATA0 => encoded usbpidDATA0
  | .dnDATA1 | .upDATA1 => encoded usbpidDATA1
  | _ => 255

def tokenSendStep (xfer : HostXfer) (bus : UlpiBus) : Outcome :=
  if xfer.stage ≠ .noXfer ∧ xfer.stage.ctorIdx < XferStage.lineIdle.ctorIdx ∧ bus.dir ≠ .sig1 then
    .ok (-1, xfer, bus)
  else
    match xfer.type with
    | .setup | .out | .in | .sof =>
        match xfer.stage with
        | .noXfer =>
            .ok (0, { xfer with stage := .assertDir },
              { bus with dir := .sig1, nxt := .sig1, data := ⟨0x00, 0xFF⟩ })
        | .assertDir =>
            .ok (0, { xfer with stage := .initRXCMD },
              { bus with nxt := .sig0, data := ⟨0x5D, 0x00⟩ })
        | .initRXCMD =>
            .ok (0, { xfer with stage := .tokenPID },
              { bus with
                dir := .sig1, nxt := .sig1, data := { bus.data with a := transferTypeToPid xfer } })
        | .tokenPID =>
            .ok (0, { xfer with stage := .token1 },
              { bus with nxt := .sig1, data := ⟨xfer.tok1, 0x00⟩ })
        | .token1 =>
            if bus.dir = .sig1 ∧ bus.nxt = .sig1 ∧ bus.data.b = 0x00 then
              .ok (0, { xfer with stage := .token2 },
                { bus with data := { bus.data with a := xfer.tok2 } })
            else .error .assertion
        | _ => hostDriveEop xfer bus bus
    | _ => .ok (-1, xfer, bus)

/-- The stage DATAxBody, in `datax_recv_step` and again in `bulk_in_step`. -/
def dataxBodyStep (xfer : HostXfer) (bus : UlpiBus) : Outcome :=
  if bus.stp = .sig1 then do
    let (accepted, xfer) ←
      checkRxCrc16 { xfer with stage := .dataxStop, rxLen := xfer.rxPtr - 2 }
    return (if accepted then 0 else -1, xfer,
      { bus with dir := .sig1, nxt := .sig0, data := ⟨0x00, 0xFF⟩ })
  else if bus.nxt = .sig1 then do
    let xfer ← xfer.store bus.data.a
    return (0, xfer, bus)
  else .ok (0, xfer, { bus with nxt := .sig1 })

def dataxRecvStep (xfer : HostXfer) (bus : UlpiBus) : Outcome :=
  match xfer.type with
  | .upDATA0 | .upDATA1 =>
      match xfer.stage with
      | .noXfer =>
          if bus.data.a ≠ 0x00 then
            .ok (0, { xfer with stage := .dataxPID }, { bus with dir := .sig0, nxt := .sig1 })
          else .ok (0, xfer, { bus with dir := .sig0 })
      | .dataxPID =>
          if bus.dir = .sig0 ∧ bus.nxt = .sig1 ∧ bus.data.b = 0x00 then
            let result : ℤ :=
              if bus.data.a ≠ ulpitxDATA0 ∧ bus.data.a ≠ ulpitxDATA1 then -2
              else if ¬checkSeq xfer.toTransfer (bus.data.a &&& 0x0F) then -3
              else 0
            .ok (result, { xfer with stage := .dataxBody, rxPtr := 0 }, { bus with nxt := .sig0 })
          else .error .assertion
      | .dataxBody => if bus.dir = .sig0 then dataxBodyStep xfer bus else .error .assertion
      | _ => hostDriveEop xfer bus bus
  | _ => .ok (-1, xfer, bus)

def ackSendStep (xfer : HostXfer) (bus : UlpiBus) : Outcome :=
  if xfer.type ≠ .dnACK then .ok (-1, xfer, bus)
  else
    match xfer.stage with
    | .noXfer =>
        if ulpiBusIsIdle bus then
          .ok (0, { xfer with stage := .assertDir },
            { bus with dir := .sig1, nxt := .sig1, data := ⟨0x00, 0xFF⟩ })
        else .ok (-1, xfer, bus)
    | .assertDir =>
        if bus.dir = .sig1 ∧ bus.nxt = .sig1 ∧ bus.stp = .sig0 then
          .ok (0, { xfer with stage := .initRXCMD }, { bus with nxt := .sig0, data := ⟨0x5D, 0x00⟩ })
        else .error .assertion
    | .initRXCMD =>
        if bus.dir = .sig1 ∧ bus.nxt = .sig0 ∧ bus.stp = .sig0 ∧ bus.data.b = 0x00 then
          .ok (0, { xfer with stage := .hskPID },
            { bus with nxt := .sig1, data := { bus.data with a := transferTypeToPid xfer } })
        else .error .assertion
    | _ => hostDriveEop xfer bus bus

/-! ## `usbhost.c` -/

def turnaroundTimer : BitVec 64 := 40

/-- `host->cycle >= xfer->cycle`. -/
def timedOut (cycle : BitVec 64) (xfer : HostXfer) : Bool :=
  xfer.cycle.setWidth 64 ≤ cycle

/-- The time-out is started. -/
def setTimer (cycle : BitVec 64) (xfer : HostXfer) : HostXfer :=
  { xfer with cycle := (cycle + turnaroundTimer).setWidth 32 }

/-- What `bulk_in_step` does after `datax_recv_step`. With `wait`, the random number asks for a wait
state. -/
def bulkInData (cycle : BitVec 64) (wait : Bool) :
    ℤ × HostXfer × UlpiBus → ℤ × HostXfer × UlpiBus
  | (result, xfer, out) =>
      if xfer.rxPtr = 0 ∧ timedOut cycle xfer then (0, { xfer with type := .timeOut }, out)
      else if result < -2 then (0, setTimer cycle { xfer with type := .timeOut }, out)
      else if result < 0 then (result, xfer, out)
      else if result > 0 then (0, { xfer with type := .dnACK, stage := .noXfer }, out)
      else if xfer.rxPtr > 0 ∧ out.nxt = .sig1 ∧ wait then (0, xfer, { out with nxt := .sig0 })
      else (0, xfer, out)

def bulkInStep (cycle : BitVec 64) (wait : Bool) (xfer : HostXfer) (bus : UlpiBus) : Outcome :=
  match xfer.type with
  | .in => do
      let (result, xfer, out) ← tokenSendStep xfer bus
      if result < 0 then return (result, xfer, out)
      if result > 0 then
        let type : XferType := if (← xfer.seq) = .sig0 then .upDATA0 else .upDATA1
        return (0, setTimer cycle { xfer with type := type, stage := .noXfer }, out)
      return (0, xfer, out)
  | .upDATA0 | .upDATA1 => bulkInData cycle wait <$> dataxRecvStep xfer bus
  | .dnACK => do
      let (result, xfer, out) ← ackSendStep xfer bus
      if result > 0 then
        let xfer ← transferAck xfer
        return (result, { xfer with type := .xferIdle, stage := .noXfer }, out)
      return (result, xfer, out)
  | .timeOut =>
      if timedOut cycle xfer then .ok (1, { xfer with type := .xferIdle, stage := .noXfer }, bus)
      else if xfer.stage = .dataxBody then
        if bus.dir = .sig0 ∧ bus.data.b = 0x00 then dataxBodyStep xfer bus else .error .assertion
      else do
        let (result, xfer, out) ← hostDriveEop xfer bus bus
        if result < 0 then return (-1, xfer, out)
        return (0, { xfer with type := .timeOut }, out)
  | .xferIdle => .ok (1, xfer, bus)
  | _ => .ok (-1, xfer, bus)

end MiscVerilogCores.VpiUsb
