import MiscVerilogCores.Library.Text

/-! # The telemetry tool, `util/telemetry/src/Lib.hs`

A file of hexadecimal text is cut into words, and each word, without its dashes, is taken for a record of what
the USB core was doing. `none` stands for a call of `error`, an index out of range, or a number that no
constructor has; as the fields of an entry are strict, it stands for the whole entry. -/

namespace MiscVerilogCores.TelemetryTool

inductive UsbState
  | usbIdle | usbCtrl | usbBulk | usbDump
deriving DecidableEq, Repr

inductive BulkState
  | bulkIdle | bulkDataInTx | bulkDataInZDP | bulkDataInAck | bulkDataOutRx | bulkDataOutAck | bulkDone
  | bulkDataOutErr
deriving DecidableEq, Repr

inductive CtrlState
  | ctrlDone | ctrlSetupRx | ctrlSetupAck | ctrlDataOutRx | ctrlDataOutAck | ctrlDataOutTok | ctrlDataInTx
  | ctrlDataInAck | ctrlDataInTok | ctrlStatusRx | ctrlStatusTx | ctrlStatusAck
deriving DecidableEq, Repr

inductive PhyState
  | phyPowerOn | phyFSStart | phyFSLSSE0 | phyWaitSE0 | phyChirpK0 | phyChirpK1 | phyChirpK2 | phyChirpKJ
  | phyHSStart | phyIdle | phySuspend | phyResume | phyReset
deriving DecidableEq, Repr

inductive UsbToken
  | reserved | usbOUT | usbACK | usbDATA0 | usbPING | usbSOF | usbNYET | usbDATA2 | usbSPLIT | usbIN | usbNAK
  | usbDATA1 | usbERR | usbSETUP | usbSTALL | usbMDATA
deriving DecidableEq, Repr

inductive Transact
  | trnErrNone | trnErrBlkI | trnHskSent | trnTokRecv | trnUsbRecv | trnUsbSent | trnUsbDump | trnTimeout
deriving DecidableEq, Repr

inductive LineState
  | ls0 | lsJ | lsK | ls1
deriving DecidableEq, Repr

section Enumerations

/-! The constructors of each type, in the order that `toEnum` counts them. -/

def UsbState.all : List UsbState := [.usbIdle, .usbCtrl, .usbBulk, .usbDump]

def BulkState.all : List BulkState :=
  [.bulkIdle, .bulkDataInTx, .bulkDataInZDP, .bulkDataInAck, .bulkDataOutRx, .bulkDataOutAck, .bulkDone,
    .bulkDataOutErr]

def CtrlState.all : List CtrlState :=
  [.ctrlDone, .ctrlSetupRx, .ctrlSetupAck, .ctrlDataOutRx, .ctrlDataOutAck, .ctrlDataOutTok, .ctrlDataInTx,
    .ctrlDataInAck, .ctrlDataInTok, .ctrlStatusRx, .ctrlStatusTx, .ctrlStatusAck]

def PhyState.all : List PhyState :=
  [.phyPowerOn, .phyFSStart, .phyFSLSSE0, .phyWaitSE0, .phyChirpK0, .phyChirpK1, .phyChirpK2, .phyChirpKJ,
    .phyHSStart, .phyIdle, .phySuspend, .phyResume, .phyReset]

def UsbToken.all : List UsbToken :=
  [.reserved, .usbOUT, .usbACK, .usbDATA0, .usbPING, .usbSOF, .usbNYET, .usbDATA2, .usbSPLIT, .usbIN, .usbNAK,
    .usbDATA1, .usbERR, .usbSETUP, .usbSTALL, .usbMDATA]

def Transact.all : List Transact :=
  [.trnErrNone, .trnErrBlkI, .trnHskSent, .trnTokRecv, .trnUsbRecv, .trnUsbSent, .trnUsbDump, .trnTimeout]

def LineState.all : List LineState := [.ls0, .lsJ, .lsK, .ls1]

end Enumerations

structure Entry where
  usbReset : Bool
  usbEndpt : BitVec 8
  usbToken : UsbToken
  usbState : UsbState
  tokPing : Bool
  crcError : Bool
  transact : Transact
  usbSof : Bool
  blkState : BulkState
  ctlState : CtrlState
  phyState : PhyState
  ctlCycle : Bool
  ctlError : Bool
  usbLS : LineState
deriving DecidableEq, Repr

def toTokens (word : List Char) : List Char := word.filter (· != '-')

/-- Lower-case letters are counted from the upper-case `A` too. -/
def toNibble (c : Char) : Option ℕ :=
  if '0' ≤ c ∧ c ≤ '9' then some (c.toNat - '0'.toNat)
  else if 'A' ≤ c ∧ c ≤ 'F' then some (c.toNat - 'A'.toNat + 10)
  else if 'a' ≤ c ∧ c ≤ 'f' then some (c.toNat - 'A'.toNat + 10)
  else none

def decodeTelemetry (ts : List Char) : Option Entry := do
  let nibble (k : ℕ) : Option ℕ := ts[k]?.bind toNibble
  let n0 ← nibble 0
  let n1 ← nibble 1
  let n2 ← nibble 2
  let n3 ← nibble 3
  let n4 ← nibble 4
  let n5 ← nibble 5
  let n6 ← nibble 6
  let n7 ← nibble 7
  let tok ← UsbToken.all[n6]?
  let usb ← UsbState.all[n7 &&& 3]?
  let trn ← Transact.all[n0 &&& 7]?
  let blk ← BulkState.all[n1 &&& 7]?
  let ctl ← CtrlState.all[n2]?
  let phy ← PhyState.all[n3]?
  let uls ← LineState.all[(n4 &&& 6) >>> 2]?
  return {
    usbReset := (n4 &&& 1) != 0
    usbEndpt := BitVec.ofNat 8 n5
    usbToken := tok
    usbState := usb
    tokPing := (n7 &&& 4) != 0
    crcError := 8 ≤ n0
    transact := trn
    usbSof := 8 ≤ n1
    blkState := blk
    ctlState := ctl
    phyState := phy
    ctlCycle := (n4 &&& 2) != 0
    ctlError := (n7 &&& 8) != 0
    usbLS := uls }

/-- White space: the control characters of ASCII that move the cursor, and the space separators of Unicode. -/
def isSpace (c : Char) : Bool :=
  0x09 ≤ c.toNat && c.toNat ≤ 0x0d ||
    [0x20, 0xa0, 0x1680, 0x202f, 0x205f, 0x3000].contains c.toNat || 0x2000 ≤ c.toNat && c.toNat ≤ 0x200a

/-- The entries of a file with this content. -/
def parseTelemetry (text : List Char) : List (Option Entry) :=
  (Text.linesBy (· == '\n') text).flatMap fun line =>
    (Text.wordsBy isSpace line).map fun word => decodeTelemetry (toTokens word)

end MiscVerilogCores.TelemetryTool
