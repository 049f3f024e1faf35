import Mathlib.Data.BitVec

/-! # `uart_tx.v`, `uart_rx.v` and `uart.v`

A bit lasts eight times `prescale` cycles. The transmitter shifts a byte out behind a start bit; the
receiver looks for a start bit, and samples the line once for each bit. -/

namespace MiscVerilogCores

/-! ## `uart_tx` -/

namespace UartTx

structure State (W : ℕ) where
  sAxisTready : Bool
  txd : Bool
  busy : Bool
  data : BitVec (W + 1)
  prescale : BitVec 19
  bitCnt : BitVec 4
deriving Inhabited

structure Inputs (W : ℕ) where
  rst : Bool
  sAxisTdata : BitVec W
  sAxisTvalid : Bool
  prescale : BitVec 16

variable {W : ℕ}

def step (s : State W) (i : Inputs W) : State W :=
  if i.rst then
    { s with sAxisTready := false, txd := true, prescale := 0, bitCnt := 0, busy := false }
  else if 0 < s.prescale then
    { s with sAxisTready := false, prescale := s.prescale - 1 }
  else if s.bitCnt = 0 then
    if i.sAxisTvalid then
      { sAxisTready := !s.sAxisTready
        prescale := (i.prescale.setWidth 19 <<< 3) - 1
        bitCnt := BitVec.ofNat 4 (W + 1)
        data := BitVec.cons true i.sAxisTdata
        txd := false
        busy := true }
    else { s with sAxisTready := true, busy := false }
  else if 1 < s.bitCnt then
    { s with
      bitCnt := s.bitCnt - 1
      prescale := (i.prescale.setWidth 19 <<< 3) - 1
      data := s.data >>> 1
      txd := s.data.getLsbD 0 }
  else
    { s with
      bitCnt := s.bitCnt - 1
      prescale := i.prescale.setWidth 19 <<< 3
      txd := true }

end UartTx

/-! ## `uart_rx` -/

namespace UartRx

structure State (W : ℕ) where
  mAxisTdata : BitVec W
  mAxisTvalid : Bool
  rxd : Bool
  busy : Bool
  overrunError : Bool
  frameError : Bool
  data : BitVec W
  prescale : BitVec 19
  bitCnt : BitVec 4
deriving Inhabited

structure Inputs (W : ℕ) where
  rst : Bool
  mAxisTready : Bool
  rxd : Bool
  prescale : BitVec 16

variable {W : ℕ}

/-- The assignments in front of the case distinction. -/
def sampled (s : State W) (i : Inputs W) : State W :=
  { s with
    rxd := i.rxd
    overrunError := false
    frameError := false
    mAxisTvalid := s.mAxisTvalid && !(s.mAxisTvalid && i.mAxisTready) }

def step (s : State W) (i : Inputs W) : State W :=
  let s' := sampled s i
  if i.rst then
    { s with
      mAxisTdata := 0
      mAxisTvalid := false
      rxd := true
      prescale := 0
      bitCnt := 0
      busy := false
      overrunError := false
      frameError := false }
  else if 0 < s.prescale then { s' with prescale := s.prescale - 1 }
  else if 0 < s.bitCnt then
    if W + 1 < s.bitCnt.toNat then
      if !s.rxd then
        { s' with bitCnt := s.bitCnt - 1, prescale := (i.prescale.setWidth 19 <<< 3) - 1 }
      else { s' with bitCnt := 0, prescale := 0 }
    else if 1 < s.bitCnt then
      { s' with
        bitCnt := s.bitCnt - 1
        prescale := (i.prescale.setWidth 19 <<< 3) - 1
        data := (BitVec.cons s.rxd s.data).extractLsb' 1 W }
    else if s.rxd then
      { s' with
        bitCnt := s.bitCnt - 1
        mAxisTdata := s.data
        mAxisTvalid := true
        overrunError := s.mAxisTvalid }
    else { s' with bitCnt := s.bitCnt - 1, frameError := true }
  else if !s.rxd then
    { s' with
      prescale := (i.prescale.setWidth 19 <<< 2) - 2
      bitCnt := BitVec.ofNat 4 (W + 2)
      data := 0
      busy := true }
  else { s' with busy := false }

end UartRx

/-! ## `uart` -/

namespace Uart

structure State (W : ℕ) where
  tx : UartTx.State W
  rx : UartRx.State W
deriving Inhabited

structure Inputs (W : ℕ) where
  rst : Bool
  sAxisTdata : BitVec W
  sAxisTvalid : Bool
  mAxisTready : Bool
  rxd : Bool
  prescale : BitVec 16

variable {W : ℕ}

def step (s : State W) (i : Inputs W) : State W where
  tx := UartTx.step s.tx ⟨i.rst, i.sAxisTdata, i.sAxisTvalid, i.prescale⟩
  rx := UartRx.step s.rx ⟨i.rst, i.mAxisTready, i.rxd, i.prescale⟩

end Uart

end MiscVerilogCores
