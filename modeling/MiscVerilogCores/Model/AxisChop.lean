import Mathlib.Data.Nat.Log

/-! # `axis_chop.v`

Chops a transfer at a length: an output register and a temporary one, a counter of the words that
remain, and a flag that says that a frame is being passed on. This is `g_chop`, for `BYPASS = 0`. -/

namespace MiscVerilogCores.AxisChop

/-- `LBITS`, the bits of a length. -/
def lbits (MAXLEN : ℕ) : ℕ := Nat.clog 2 (MAXLEN + 1)

/-- `mkeep` is never written. -/
structure State (WIDTH LBITS : ℕ) where
  sready : Bool
  mvalid : Bool
  mkeep : Bool
  mlast : Bool
  tvalid : Bool
  tlast : Bool
  mdata : BitVec WIDTH
  tdata : BitVec WIDTH
  finalQ : Bool
  remainQ : BitVec LBITS
  frameQ : Bool
  activeQ : Bool
deriving Inhabited

structure Inputs (WIDTH LBITS : ℕ) where
  reset : Bool
  activeI : Bool
  lengthI : BitVec LBITS
  sTvalid : Bool
  sTkeep : Bool
  sTlast : Bool
  sTdata : BitVec WIDTH
  mTready : Bool
deriving Inhabited

/-! ## Functions that the module defines -/

def srcToTmp (srcReady dstValid dstReady : Bool) : Bool := srcReady && !dstReady && dstValid

def tmpToDst (tmpValid dstReady : Bool) : Bool := tmpValid && dstReady

def srcToDst (srcReady dstValid dstReady : Bool) : Bool := srcReady && (dstReady || !dstValid)

variable {WIDTH LBITS : ℕ}

section Wires

variable (s : State WIDTH LBITS) (i : Inputs WIDTH LBITS)

def sTready : Bool := s.sready

def mTvalid : Bool := s.mvalid

def mTkeep : Bool := s.mkeep

def mTlast : Bool := s.mlast

def mTdata : BitVec WIDTH := s.mdata

/-! ### Burst chopper -/

def sourceW : BitVec LBITS := if i.activeI then s.remainQ else i.lengthI

def remainW : BitVec LBITS := sourceW s i - 1

def tlastW : Bool := (s.finalQ && i.sTvalid && s.sready) || i.sTlast

def finalO : Bool := s.finalQ

/-! ### Burst framer -/

/-- Will there be space in either register? -/
def sreadyNext : Bool :=
  i.activeI && s.frameQ && ((!(i.sTvalid && s.mvalid) && !s.tvalid) || i.mTready) &&
    (!s.finalQ || (s.finalQ && !s.sready)) && !(i.sTvalid && s.sready && i.sTlast)

/-! ### Control -/

def tvalidNext : Bool := !i.mTready && s.mvalid && (s.tvalid || (i.sTvalid && s.sready))

def mvalidNext : Bool := (i.sTvalid && s.sready) || s.tvalid || (s.mvalid && !i.mTready)

/-- The registers of the datapath do not load. -/
def clears : Bool := i.reset || (s.mvalid && i.mTready && s.mlast)

end Wires

/-- One clock edge. -/
def step (s : State WIDTH LBITS) (i : Inputs WIDTH LBITS) : State WIDTH LBITS where
  sready := !(i.reset || !i.activeI) && sreadyNext s i
  mvalid := !(i.reset || !i.activeI) && mvalidNext s i
  mkeep := s.mkeep
  mlast :=
    if clears s i then false
    else if srcToDst s.sready s.mvalid i.mTready then tlastW s i
    else if tmpToDst s.tvalid i.mTready then s.tlast
    else s.mlast
  tvalid := !(i.reset || !i.activeI) && tvalidNext s i
  tlast :=
    if clears s i then false
    else if srcToTmp s.sready s.mvalid i.mTready then tlastW s i
    else s.tlast
  mdata :=
    if clears s i then s.mdata
    else if srcToDst s.sready s.mvalid i.mTready then i.sTdata
    else if tmpToDst s.tvalid i.mTready then s.tdata
    else s.mdata
  tdata :=
    if clears s i then s.tdata
    else if srcToTmp s.sready s.mvalid i.mTready then i.sTdata
    else s.tdata
  finalQ :=
    if i.reset || !i.activeI then false
    else if i.sTvalid && s.sready && !s.finalQ then remainW s i == 0 || i.sTlast
    else s.finalQ
  remainQ := if !i.activeI || (i.sTvalid && s.sready && !s.finalQ) then remainW s i else s.remainQ
  frameQ :=
    if i.reset then false
    else if i.activeI && !s.frameQ && !s.activeQ then true
    else if (s.finalQ || i.sTlast) && i.sTvalid && s.sready then false
    else if !i.activeI then false
    else s.frameQ
  activeQ :=
    if i.reset then false
    else if i.activeI && !s.frameQ && !s.activeQ then true
    else if (s.finalQ || i.sTlast) && i.sTvalid && s.sready then i.activeI
    else if !i.activeI then false
    else s.activeQ

/-! ## What passes through the ports -/

/-- The word taken from the source at an edge. -/
def accepted (s : State WIDTH LBITS) (i : Inputs WIDTH LBITS) : List (BitVec WIDTH) :=
  if i.sTvalid && sTready s then [i.sTdata] else []

/-- The word delivered at an edge, with its `tlast`. -/
def delivered (s : State WIDTH LBITS) (i : Inputs WIDTH LBITS) : List (Bool × BitVec WIDTH) :=
  if mTvalid s && i.mTready then [(mTlast s, mTdata s)] else []

end MiscVerilogCores.AxisChop
