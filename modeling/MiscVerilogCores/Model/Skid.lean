import Mathlib.Data.Nat.Notation

/-! # Skid registers

`axis_skid.v` and `skid_loader.v`: an output register and a temporary register,
so that the ready signal to the source can be registered. The loader variant
lets the temporary register be written through a port of its own. -/

namespace MiscVerilogCores

/-! ## Functions that both modules define -/

namespace Skid

def srcReady (svalid tvalid dvalid dready : Bool) : Bool :=
  dready || !(tvalid || (dvalid && svalid))

def tmpReady (svalid tvalid dvalid dready : Bool) : Bool :=
  (dready || !dvalid) && (!tvalid || !svalid)

def tmpValid (svalid tvalid dvalid dready : Bool) : Bool :=
  !srcReady svalid tvalid dvalid dready

def dstValid (svalid tvalid dvalid dready : Bool) : Bool :=
  tvalid || svalid || (dvalid && !dready)

def srcToTmp (srcReady dstValid dstReady : Bool) : Bool :=
  srcReady && !dstReady && dstValid

def tmpToDst (tmpValid dstReady : Bool) : Bool :=
  tmpValid && dstReady

def srcToDst (srcReady dstValid dstReady : Bool) : Bool :=
  srcReady && (dstReady || !dstValid)

end Skid

/-! ## `skid_loader` -/

namespace SkidLoader

open Skid

structure Params (WIDTH : ℕ) where
  bypass : Bool
  loader : Bool
  resetTdata : Bool
  resetValue : BitVec WIDTH

structure State (WIDTH : ℕ) where
  sready : Bool
  tready : Bool
  mvalid : Bool
  mlast : Bool
  tvalid : Bool
  tlast : Bool
  mdata : BitVec WIDTH
  tdata : BitVec WIDTH
deriving Inhabited

structure Inputs (WIDTH : ℕ) where
  reset : Bool
  sTvalid : Bool
  sTlast : Bool
  sTdata : BitVec WIDTH
  tTvalid : Bool
  tTlast : Bool
  tTdata : BitVec WIDTH
  mTready : Bool

variable {WIDTH : ℕ}

def sTready (p : Params WIDTH) (s : State WIDTH) (mTready : Bool) : Bool :=
  if p.bypass then mTready else s.sready

def tTready (p : Params WIDTH) (s : State WIDTH) : Bool :=
  if p.bypass then false else s.tready

def mTvalid (p : Params WIDTH) (s : State WIDTH) (i : Inputs WIDTH) : Bool :=
  if p.bypass then i.sTvalid else s.mvalid

def mTlast (p : Params WIDTH) (s : State WIDTH) (i : Inputs WIDTH) : Bool :=
  if p.bypass then i.sTlast else s.mlast

def mTdata (p : Params WIDTH) (s : State WIDTH) (i : Inputs WIDTH) : BitVec WIDTH :=
  if p.bypass then i.sTdata else s.mdata

/-- The explicit-load port writes the temporary register at this edge. -/
def loads (p : Params WIDTH) (s : State WIDTH) (i : Inputs WIDTH) : Bool :=
  p.loader && i.tTvalid && s.tready

/-- One clock edge of the registers in `g_skid`; `g_bypass` has none, and no output of
a bypassed instance looks at these. -/
def step (p : Params WIDTH) (s : State WIDTH) (i : Inputs WIDTH) : State WIDTH where
  sready := !i.reset && (srcReady i.sTvalid s.tvalid s.mvalid i.mTready && !loads p s i)
  mvalid := !i.reset && dstValid i.sTvalid s.tvalid s.mvalid i.mTready
  tvalid := !i.reset && (tmpValid i.sTvalid s.tvalid s.mvalid i.mTready || loads p s i)
  tready := !i.reset && (tmpReady i.sTvalid s.tvalid s.mvalid i.mTready && p.loader && !i.tTvalid)
  mdata :=
    if p.resetTdata && i.reset then p.resetValue
    else if srcToDst s.sready s.mvalid i.mTready then i.sTdata
    else if tmpToDst s.tvalid i.mTready then s.tdata
    else s.mdata
  mlast :=
    if p.resetTdata && i.reset then false
    else if srcToDst s.sready s.mvalid i.mTready then i.sTlast
    else if tmpToDst s.tvalid i.mTready then s.tlast
    else s.mlast
  tdata :=
    if loads p s i then i.tTdata
    else if srcToTmp s.sready s.mvalid i.mTready then i.sTdata
    else s.tdata
  tlast :=
    if loads p s i then i.tTlast
    else if srcToTmp s.sready s.mvalid i.mTready then i.sTlast
    else s.tlast

end SkidLoader

/-! ## `axis_skid` -/

namespace AxisSkid

open Skid

structure State (WIDTH : ℕ) where
  sready : Bool
  mvalid : Bool
  mlast : Bool
  tvalid : Bool
  tlast : Bool
  mdata : BitVec WIDTH
  tdata : BitVec WIDTH
deriving Inhabited

structure Inputs (WIDTH : ℕ) where
  reset : Bool
  sTvalid : Bool
  sTlast : Bool
  sTdata : BitVec WIDTH
  mTready : Bool

variable {WIDTH : ℕ}

def sTready (bypass : Bool) (s : State WIDTH) (mTready : Bool) : Bool :=
  if bypass then mTready else s.sready

def mTvalid (bypass : Bool) (s : State WIDTH) (sTvalid : Bool) : Bool :=
  if bypass then sTvalid else s.mvalid

def mTlast (bypass : Bool) (s : State WIDTH) (sTlast : Bool) : Bool :=
  if bypass then sTlast else s.mlast

def mTdata (bypass : Bool) (s : State WIDTH) (sTdata : BitVec WIDTH) : BitVec WIDTH :=
  if bypass then sTdata else s.mdata

/-- One clock edge; the registers run in bypass mode too, only the outputs differ. -/
def step (s : State WIDTH) (i : Inputs WIDTH) : State WIDTH where
  sready := !i.reset && srcReady i.sTvalid s.tvalid s.mvalid i.mTready
  mvalid := !i.reset && dstValid i.sTvalid s.tvalid s.mvalid i.mTready
  tvalid := !i.reset && tmpValid i.sTvalid s.tvalid s.mvalid i.mTready
  mdata :=
    if srcToDst s.sready s.mvalid i.mTready then i.sTdata
    else if tmpToDst s.tvalid i.mTready then s.tdata
    else s.mdata
  mlast :=
    if srcToDst s.sready s.mvalid i.mTready then i.sTlast
    else if tmpToDst s.tvalid i.mTready then s.tlast
    else s.mlast
  tdata := if srcToTmp s.sready s.mvalid i.mTready then i.sTdata else s.tdata
  tlast := if srcToTmp s.sready s.mvalid i.mTready then i.sTlast else s.tlast

end AxisSkid

end MiscVerilogCores
