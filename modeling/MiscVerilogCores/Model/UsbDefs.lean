import Mathlib.Data.Nat.Notation

/-! # `usb_defs.vh`

The check sums of USB packets, bit by bit as the source has them, and the packet IDs. -/

namespace MiscVerilogCores.Usb

/-! ## Packet IDs -/

def usbpidOut : BitVec 4 := 0b0001
def usbpidIn : BitVec 4 := 0b1001
def usbpidSetup : BitVec 4 := 0b1101
def usbpidData0 : BitVec 4 := 0b0011
def usbpidData1 : BitVec 4 := 0b1011
def usbpidAck : BitVec 4 := 0b0010
def usbpidNak : BitVec 4 := 0b1010
def usbpidNyet : BitVec 4 := 0b0110
def usbpidPing : BitVec 4 := 0b0100

/-! ## Check sums -/

/-- The check bits of a token. -/
def crc5 (x : BitVec 11) : BitVec 5 :=
  let b := x.getLsbD
  BitVec.ofBoolListLE
    [!(true ^^ b 8 ^^ b 6 ^^ b 5 ^^ b 2 ^^ b 1 ^^ b 0),
      !(false ^^ b 9 ^^ b 7 ^^ b 6 ^^ b 3 ^^ b 2 ^^ b 1 ^^ b 0),
      !(true ^^ b 10 ^^ b 8 ^^ b 7 ^^ b 4 ^^ b 3 ^^ b 2 ^^ b 1 ^^ b 0),
      !(true ^^ b 9 ^^ b 6 ^^ b 4 ^^ b 3 ^^ b 0),
      !(true ^^ b 10 ^^ b 7 ^^ b 5 ^^ b 4 ^^ b 1 ^^ b 0)]

/-- The check register of a data packet after one more byte. -/
def crc16 (data : BitVec 8) (crc : BitVec 16) : BitVec 16 :=
  let d := data.getLsbD
  let c := crc.getLsbD
  BitVec.ofBoolListLE
    [d 0 ^^ d 1 ^^ d 2 ^^ d 3 ^^ d 4 ^^ d 5 ^^ d 6 ^^ d 7 ^^ c 8 ^^ c 9 ^^ c 10 ^^ c 11 ^^ c 12 ^^
        c 13 ^^ c 14 ^^ c 15,
      d 0 ^^ d 1 ^^ d 2 ^^ d 3 ^^ d 4 ^^ d 5 ^^ d 6 ^^ c 9 ^^ c 10 ^^ c 11 ^^ c 12 ^^ c 13 ^^ c 14 ^^
        c 15,
      d 6 ^^ d 7 ^^ c 8 ^^ c 9,
      d 5 ^^ d 6 ^^ c 9 ^^ c 10,
      d 4 ^^ d 5 ^^ c 10 ^^ c 11,
      d 3 ^^ d 4 ^^ c 11 ^^ c 12,
      d 2 ^^ d 3 ^^ c 12 ^^ c 13,
      d 1 ^^ d 2 ^^ c 13 ^^ c 14,
      d 0 ^^ d 1 ^^ c 0 ^^ c 14 ^^ c 15,
      d 0 ^^ c 1 ^^ c 15,
      c 2,
      c 3,
      c 4,
      c 5,
      c 6,
      d 0 ^^ d 1 ^^ d 2 ^^ d 3 ^^ d 4 ^^ d 5 ^^ d 6 ^^ d 7 ^^ c 7 ^^ c 8 ^^ c 9 ^^ c 10 ^^ c 11 ^^
        c 12 ^^ c 13 ^^ c 14 ^^ c 15]

end MiscVerilogCores.Usb
