import Mathlib.Data.Nat.Notation

/-! # `hex_dump.v`

Frames of bytes are written as text, in hexadecimal words of two bytes: the FSM captures two bytes and
pushes their characters into a FIFO. Whether the FIFO has room, when it offers its oldest word, and
whether the top bit of its level is set, is up to the FIFO. -/

namespace MiscVerilogCores.HexDump

/-- A character of the source's strings. -/
def ascii (c : Char) : BitVec 8 := BitVec.ofNat 8 c.toNat

structure State where
  tcycle : Bool
  tready : Bool
  fvalid : Bool
  plast : Bool
  dashQ : Bool
  state : BitVec 4
  tbyte0 : BitVec 8
  tbyte1 : BitVec 8
  tbyte2 : BitVec 8
  tbyte3 : BitVec 8
  wspace : BitVec 8
deriving Inhabited

/-- `levelTop` is `level_w[ASB]`, and `offers` tells that the FIFO shows its oldest word if it holds
one. -/
structure Inputs where
  reset : Bool
  startDumpI : Bool
  sTvalid : Bool
  sTlast : Bool
  sTkeep : Bool
  sTdata : BitVec 8
  fready : Bool
  levelTop : Bool
  offers : Bool
  mTready : Bool

section Wires

variable (unicode : Bool) (s : State) (i : Inputs)

def isDumpingO : Bool := s.tcycle

def sTready : Bool := s.tready

/-- Nibble-to-hex conversion. -/
def hexW (nibble : BitVec 4) : BitVec 8 := (if nibble < 10 then 48 else 55) + nibble.setWidth 8

def tbyte0W : BitVec 8 := hexW (i.sTdata.extractLsb' 0 4)

def tbyte1W : BitVec 8 := hexW (i.sTdata.extractLsb' 4 4)

def snext : BitVec 4 := s.state + if unicode then 1 else 2

def flast : Bool := s.state == 0xc && s.plast

def fdata : BitVec 8 :=
  if s.state = 0x3 then 0
  else if s.state = 0x4 then s.tbyte3
  else if s.state = 0x5 then 0
  else if s.state = 0x6 then s.tbyte2
  else if s.state = 0x7 then 0
  else if s.state = 0x8 then s.tbyte1
  else if s.state = 0x9 then 0
  else if s.state = 0xa then s.tbyte0
  else if s.state = 0xb then 0
  else if s.state = 0xc then s.wspace
  else ascii '-'

end Wires

/-- One clock edge of the FSM. -/
def step (unicode : Bool) (s : State) (i : Inputs) : State :=
  if i.reset then
    { s with tcycle := false, tready := false, state := 0x0, fvalid := false, plast := false }
  else if s.state = 0x0 then
    let start := i.sTvalid && i.startDumpI
    { s with
      fvalid := false
      plast := false
      dashQ := true
      tcycle := start
      tready := start
      state := if start then 0x1 else s.state }
  else if s.state = 0x1 then
    if i.sTvalid && i.sTkeep && s.tready then
      { s with
        fvalid := false
        tready := true
        state := if i.sTlast then 0x3 else 0x2
        tbyte0 := tbyte0W i
        tbyte1 := tbyte1W i
        tbyte2 := if i.sTlast then ascii 'x' else s.tbyte2
        tbyte3 := if i.sTlast then ascii 'x' else s.tbyte3
        plast := i.sTlast || s.plast }
    else { s with fvalid := false }
  else if s.state = 0x2 then
    if i.sTvalid && s.tready then
      { s with
        tready := false
        fvalid := true
        state := snext unicode s
        tbyte2 := if i.sTkeep then tbyte0W i else ascii 'x'
        tbyte3 := if i.sTkeep then tbyte1W i else ascii 'x'
        plast := i.sTlast || s.plast
        wspace := if i.sTlast then ascii '\n' else if s.dashQ then ascii '-' else ascii ' '
        dashQ := !s.dashQ }
    else { s with fvalid := false, tready := true }
  else if 0x3 ≤ s.state ∧ s.state ≤ 0xb then
    { s with fvalid := true, state := if s.fvalid && i.fready then snext unicode s else s.state }
  else if s.state = 0xc then
    if s.fvalid && i.fready then
      { s with tready := !s.plast, state := if s.plast then 0xd else 0x1, fvalid := false }
    else { s with fvalid := true }
  else if s.state = 0xd then
    { s with tcycle := false, state := if i.levelTop then s.state else 0x0 }
  else s

/-! ## The FSM with its FIFO -/

/-- The FSM, and the words in the FIFO, oldest first. -/
structure Dumper where
  fsm : State
  fifo : List (Bool × BitVec 8)
deriving Inhabited

/-- The byte accepted on the `s_` port in a cycle, with its `tlast`. -/
def accepted (s : State) (i : Inputs) : List (Bool × BitVec 8) :=
  if i.sTvalid && sTready s then [(i.sTlast, i.sTdata)] else []

/-- The word pushed into the FIFO. -/
def pushed (s : State) (i : Inputs) : List (Bool × BitVec 8) :=
  if s.fvalid && i.fready then [(flast s, fdata s)] else []

/-- The byte delivered on the `m_` port, with its `tlast`. -/
def delivered (d : Dumper) (i : Inputs) : List (Bool × BitVec 8) :=
  if i.offers && i.mTready then d.fifo.take 1 else []

def dumperStep (unicode : Bool) (d : Dumper) (i : Inputs) : Dumper where
  fsm := step unicode d.fsm i
  fifo :=
    if i.reset then []
    else d.fifo.drop (delivered d i).length ++ pushed d.fsm i

end MiscVerilogCores.HexDump
