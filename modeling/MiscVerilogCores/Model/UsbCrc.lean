import Mathlib.Logic.Function.Iterate

/-! # `usbcrc.c`

The check sums of the simulation model of the host, whose registers are reflected. -/

namespace MiscVerilogCores.UsbCrc

/-! ## CRC5 -/

def crc5StartReflected : BitVec 16 := 0xf800
def crc5PolynReflected : BitVec 16 := 0x14

/-- The body of the loop. The check register is in the upper five bits, over the data. -/
def crc5Shift (crc : BitVec 16) : BitVec 16 :=
  (crc >>> 1) ^^^ (((crc ^^^ (crc <<< 11)) &&& 0x0800) * crc5PolynReflected)

def crc5Calc (dat : BitVec 16) : BitVec 16 :=
  (dat &&& 0x07ff) |||
    (~~~(crc5Shift^[11] (crc5StartReflected ||| (dat &&& 0x07ff))) &&& 0xf800)

/-! ## CRC16 -/

def crc16StartReflected : BitVec 16 := 0xffff
def crc16PolynReflected : BitVec 16 := 0xa001
def crc16ResidReflected : BitVec 16 := 0xb001

/-- `crc` and `val`. -/
structure Loop where
  crc : BitVec 16
  val : BitVec 16

/-- The body of the inner loop. -/
def Loop.shift (l : Loop) : Loop where
  crc := (l.crc >>> 1) ^^^ (((l.val ^^^ l.crc) &&& 0x01) * crc16PolynReflected)
  val := l.val >>> 1

/-- The body of the outer loop. -/
def crc16Byte (crc : BitVec 16) (byte : BitVec 8) : BitVec 16 :=
  (Loop.shift^[8] ⟨crc, byte.setWidth 16⟩).crc

def crc16Calc (ptr : List (BitVec 8)) : BitVec 16 :=
  ~~~ptr.foldl crc16Byte crc16StartReflected

def crc16Check (ptr : List (BitVec 8)) : Bool :=
  ~~~crc16Calc ptr == crc16ResidReflected

end MiscVerilogCores.UsbCrc
