import Mathlib.Data.Int.Notation
import Mathlib.Data.Nat.Notation

/-! # DATAx packets in the VPI models: `ulpi.c`, `usbhost.c` and `usbfunc.c`

The host model sends a packet over the ULPI bus, one byte a cycle, and the model of the USB function
receives it. A step takes the bus and returns it; the host puts its wait states in between. A step
that fails returns a negative number, and one that does not pass an `assert`, or writes past the end
of a buffer, returns nothing. The host model is compiled without `__fast_eop`. -/

namespace MiscVerilogCores.VpiUsb

def maxPacketSize : ℕ := 512

/-- `bit_t`, a scalar of VPI. -/
inductive Bit where
  | sig0 | sig1 | sigZ | sigX
deriving DecidableEq, Inhabited

/-- `byte_t`, in the encoding of VPI vectors. -/
structure Byte where
  a : BitVec 8
  b : BitVec 8
deriving DecidableEq, Inhabited

structure UlpiBus where
  clock : Bit
  rstN : Bit
  dir : Bit
  stp : Bit
  nxt : Bit
  data : Byte
deriving DecidableEq, Inhabited

/-- `xfer_type_t`. -/
inductive XferType where
  | xferIdle | nopid | regWrite | regRead | setup | out | in | sof | ping | dnDATA0 | dnDATA1 | dnACK
  | upACK | upNYET | upNAK | upSTALL | upDATA0 | upDATA1 | timeOut
deriving DecidableEq, Inhabited

/-- `xfer_stage_t`, in the order of its values. -/
inductive XferStage where
  | noXfer | assertDir | initRXCMD | tokenPID | token1 | token2 | hskPID | hskStop | dataxPID
  | dataxBody | dataxCRC1 | dataxCRC2 | dataxStop | ulpiTurn | endRXCMD | eop | regW | regR | regD
  | lineIdle
deriving DecidableEq, Inhabited

structure Transfer where
  endpoint : BitVec 8
  type : XferType
  stage : XferStage
  epSeq : BitVec 4 → Bit
  tx : Vector (BitVec 8) maxPacketSize
  txLen : ℕ
  txPtr : ℕ
  rx : Vector (BitVec 8) maxPacketSize
  rxLen : ℤ
  rxPtr : ℕ
  crc1 : BitVec 8
  crc2 : BitVec 8
deriving Inhabited

/-- The function that receives, with the step of its transaction. -/
structure UsbFunc where
  step : BitVec 32
  xfer : Transfer
  turnaround : BitVec 16
deriving Inhabited

/-! ## `ulpi.h` -/

def rxEventMask : BitVec 8 := 0x30

def rxActiveBits : BitVec 8 := 0x10

def usbpidDATA0 : BitVec 8 := 0b0011

def usbpidDATA1 : BitVec 8 := 0b1011

def checkPid (bus : UlpiBus) : Bool :=
  bus.data.b == 0x00 && (bus.data.a >>> 4) ^^^ 0x0f == bus.data.a &&& 0x0f

def checkSeq (xfer : Transfer) (pid : BitVec 8) : Bool :=
  (pid == usbpidDATA0 && xfer.epSeq (xfer.endpoint.setWidth 4) == .sig0) ||
    (pid == usbpidDATA1 && xfer.epSeq (xfer.endpoint.setWidth 4) == .sig1)

/-! ## The sender: `ulpi.c` -/

def zdpCrc16Byte1 : BitVec 8 := 0x00

/-- The end of a packet: two RX CMDs, and the bus is given back. -/
def driveEop (xfer : Transfer) (bus out : UlpiBus) : Option (ℤ × Transfer × UlpiBus) :=
  match xfer.stage with
  | .noXfer => some (1, xfer, out)
  | .token2 | .dataxCRC2 | .hskPID =>
      if bus.dir = .sig1 ∧ bus.nxt = .sig1 ∧ bus.data.b = 0x00 then
        some (0, { xfer with stage := .endRXCMD },
          { out with nxt := .sig0, data := { out.data with a := 0x4C } })
      else none
  | .dataxStop =>
      if bus.nxt = .sig0 then
        some (0, { xfer with stage := .endRXCMD }, { out with data := ⟨0x4C, 0x00⟩ })
      else none
  | .endRXCMD =>
      if out.dir = .sig1 ∧ out.nxt = .sig0 ∧ out.data.b = 0x00 then
        some (0, { xfer with stage := .eop }, { out with data := { out.data with a := 0x4D } })
      else none
  | .eop =>
      if out.dir = .sig1 ∧ out.nxt = .sig0 ∧ out.data.b = 0x00 then
        some (0, { xfer with stage := .lineIdle }, { out with dir := .sig0, data := ⟨0x00, 0xFF⟩ })
      else none
  | .lineIdle =>
      if bus.dir = .sig0 ∧ bus.nxt = .sig0 ∧ bus.data.a = 0x00 then
        some (1, { xfer with type := .xferIdle, stage := .noXfer }, out)
      else none
  | _ => some (-1, xfer, out)

/-- The next byte of the payload goes onto the bus. -/
def sendByte (xfer : Transfer) (out : UlpiBus) : Option (ℤ × Transfer × UlpiBus) :=
  if h : xfer.txPtr < maxPacketSize then
    some (0, { xfer with stage := .dataxBody, txPtr := xfer.txPtr + 1 },
      { out with nxt := .sig1, data := ⟨xfer.tx[xfer.txPtr], 0x00⟩ })
  else none

def dataxSendStep (xfer : Transfer) (bus : UlpiBus) : Option (ℤ × Transfer × UlpiBus) :=
  let pid : BitVec 8 := if xfer.type = .dnDATA0 then 0xC3 else 0x4B
  if checkSeq xfer (pid &&& 0x0f) then
    match xfer.type with
    | .dnDATA0 | .dnDATA1 =>
        match xfer.stage with
        | .noXfer =>
            if bus.data.a ≠ 0x00 ∨ bus.stp ≠ .sig0 then some (-1, xfer, bus)
            else
              some (0, { xfer with stage := .assertDir },
                { bus with dir := .sig1, nxt := .sig1, data := ⟨0x00, 0xff⟩ })
        | .assertDir =>
            some (0, { xfer with stage := .initRXCMD },
              { bus with nxt := .sig0, data := ⟨0x5D, 0x00⟩ })
        | .initRXCMD =>
            some (0, { xfer with stage := .dataxPID }, { bus with nxt := .sig1, data := ⟨pid, 0x00⟩ })
        | .dataxPID =>
            if xfer.txLen > 0 then sendByte xfer bus
            else
              some (0, { xfer with stage := .dataxCRC1 },
                { bus with nxt := .sig1, data := ⟨zdpCrc16Byte1, 0x00⟩ })
        | .dataxBody =>
            if xfer.txPtr < xfer.txLen then sendByte xfer bus
            else
              some (0, { xfer with stage := .dataxCRC1 },
                { bus with nxt := .sig1, data := ⟨xfer.crc1, 0x00⟩ })
        | .dataxCRC1 =>
            some (0, { xfer with stage := .dataxCRC2 },
              { bus with nxt := .sig1, data := ⟨xfer.crc2, 0x00⟩ })
        | _ => driveEop xfer bus bus
    | _ => some (-1, xfer, bus)
  else some (-1, xfer, bus)

/-! ## The host: `usbhost.c` -/

/-- The branch of `bulk_out_step` for DATA0 and DATA1, up to the end of the packet. With `wait`, the
random number asks for a wait state. -/
def bulkOutData (wait : Bool) (xfer : Transfer) (bus : UlpiBus) :
    Option (ℤ × Transfer × UlpiBus) :=
  if xfer.txPtr < xfer.txLen ∧ bus.nxt = .sig1 ∧ wait = true then
    some (0, xfer, { bus with nxt := .sig0, data := { bus.data with a := 0x5D } })
  else dataxSendStep xfer bus

/-! ## The receiver: `usbfunc.c` -/

def fnDataxRecvStep (func : UsbFunc) (bus : UlpiBus) : Option (ℤ × UsbFunc × UlpiBus) :=
  let failed := some (-1, func, bus)
  let goto (stage : XferStage) : Option (ℤ × UsbFunc × UlpiBus) :=
    some (0, { func with xfer := { func.xfer with stage := stage } }, bus)
  if bus.dir ≠ .sig1 ∧ func.xfer.stage.ctorIdx < XferStage.endRXCMD.ctorIdx then failed
  else
    match func.xfer.stage with
    | .noXfer =>
        if bus.dir ≠ .sig1 then some (0, { func with turnaround := func.turnaround + 1 }, bus)
        else if bus.dir = .sig1 ∧ bus.nxt = .sig1 then goto .assertDir
        else failed
    | .assertDir =>
        if bus.nxt = .sig0 ∧ bus.data.a &&& rxEventMask = rxActiveBits then goto .initRXCMD
        else failed
    | .initRXCMD =>
        if bus.nxt = .sig1 ∧ checkPid bus ∧ checkSeq func.xfer (bus.data.a &&& 0x0F) then
          some (0, { func with
            xfer := { func.xfer with stage := .dataxPID, rxPtr := 0, rxLen := 0 } }, bus)
        else failed
    | .dataxPID | .dataxBody =>
        if bus.nxt = .sig1 then
          if h : func.xfer.rxPtr < maxPacketSize then
            some (0, { func with
              xfer := { func.xfer with
                rx := func.xfer.rx.set func.xfer.rxPtr bus.data.a
                rxPtr := func.xfer.rxPtr + 1 } }, bus)
          else none
        else if bus.nxt = .sig0 then
          -- `!=` binds more tightly than `&`, so that the comparison is done first.
          if bus.data.a &&& (if rxEventMask ≠ rxActiveBits then 1 else 0) ≠ 0 then
            some (0, { func with
              step := func.step + 1
              xfer := { func.xfer with stage := .endRXCMD, rxLen := func.xfer.rxPtr - 2 } }, bus)
          else some (0, func, bus)
        else failed
    | .endRXCMD | .eop =>
        some (0, { func with xfer := { func.xfer with type := .upACK } }, bus)
    | _ => failed

/-! ## Both models on one bus -/

structure Link where
  xfer : Transfer
  bus : UlpiBus
  func : UsbFunc

/-- A cycle of the bus: the host drives it, and the function sees it. -/
def linkStep (wait : Bool) (l : Link) : Option (ℤ × Link) := do
  let (sent, xfer, bus) ← bulkOutData wait l.xfer l.bus
  if sent < 0 then return (sent, { l with xfer := xfer, bus := bus })
  let (received, func, bus) ← fnDataxRecvStep l.func bus
  return (if received < 0 then received else sent, ⟨xfer, bus, func⟩)

/-- Cycles until the sender reports completion or one of the two fails, at most `cycles` of them. -/
def exchange (waits : ℕ → Bool) : ℕ → Link → Option (ℤ × Link)
  | 0, l => some (0, l)
  | cycles + 1, l => do
      let (result, l) ← linkStep (waits 0) l
      if result = 0 then exchange (fun k => waits (k + 1)) cycles l else return (result, l)

/-- Where `bulk_out_step` starts the packet, on an idle bus. -/
def startSend (xfer : Transfer) : Transfer :=
  { xfer with
    type := if xfer.epSeq (xfer.endpoint.setWidth 4) = .sig0 then .dnDATA0 else .dnDATA1
    stage := .noXfer
    txPtr := 0 }

def start (xfer : Transfer) (bus : UlpiBus) (func : UsbFunc) : Link where
  xfer := startSend xfer
  bus := { bus with dir := .sig0, nxt := .sig0, stp := .sig0, data := { bus.data with a := 0x00 } }
  func := { func with xfer := { func.xfer with stage := .noXfer } }

end MiscVerilogCores.VpiUsb
