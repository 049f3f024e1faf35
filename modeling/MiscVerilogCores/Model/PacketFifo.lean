import MiscVerilogCores.Library.RingMemory
import MiscVerilogCores.Model.Skid

/-! # `packet_fifo.v`

A memory array between a write pointer, which a drop rewinds to the committed
pointer, and a read pointer, which a redo rewinds to the replay pointer. -/

namespace MiscVerilogCores.PacketFifo

open RingMemory

structure Params where
  storeLasts : Bool
  saveOnLast : Bool
  lastOnSave : Bool
  nextOnLast : Bool
  useLength : Bool
  maxLength : ℕ
  outreg : ℕ

/-- A stored word: its `tlast` bit and its data. -/
abbrev Word (WIDTH : ℕ) := Bool × BitVec WIDTH

structure State (WIDTH ABITS : ℕ) where
  sram : BitVec ABITS → Word WIDTH
  rvalid : Bool
  wready : Bool
  waddr : BitVec (ABITS + 1)
  raddr : BitVec (ABITS + 1)
  rplay : BitVec (ABITS + 1)
  paddr : BitVec (ABITS + 1)
  rprev : BitVec (ABITS + 1)
  levelQ : BitVec ABITS
  saveQ : Bool
  dropQ : Bool
  xvld : Bool
  xlst : Bool
  xmax : Bool
  xdat : BitVec 8
  xvalid : Bool
  xlast : Bool
  xdata : BitVec WIDTH
  skid : AxisSkid.State WIDTH
deriving Inhabited

structure Inputs (WIDTH : ℕ) where
  reset : Bool
  dropI : Bool
  saveI : Bool
  redoI : Bool
  nextI : Bool
  sTvalid : Bool
  sTkeep : Bool
  sTlast : Bool
  sTdata : BitVec WIDTH
  mTready : Bool

variable {WIDTH ABITS : ℕ} (p : Params)

section Wires

variable (s : State WIDTH ABITS) (i : Inputs WIDTH)

def sTready : Bool := s.wready

/-! ### Write port -/

def saveW : Bool := ((p.saveOnLast && i.sTvalid && s.wready && i.sTlast) || i.saveI) && !i.dropI

def acceptA : Bool := if p.lastOnSave then s.saveQ else saveW p s i

def rejectA : Bool := i.dropI

def storeW : Bool :=
  if p.lastOnSave then
    s.xvld && s.wready && ((i.sTvalid && i.sTkeep) || (s.xlst && p.saveOnLast) || s.saveQ)
  else i.sTvalid && s.wready && i.sTkeep

def captureA : Bool := i.sTvalid && s.wready && i.sTkeep

def releaseA : Bool := s.xvld && ((s.xlst && p.saveOnLast) || s.saveQ)

def waddrNext : BitVec (ABITS + 1) := if storeW p s i then s.waddr + 1 else s.waddr

def wsize : BitVec ABITS := (waddrNext p s i - s.paddr).setWidth ABITS

/-- `wsize == MAX_LIMIT`, where `MAX_LIMIT` is `MAX_LENGTH - 1`. -/
def chunkW : Bool := p.useLength && (wsize p s i).toNat + 1 == p.maxLength

def lastW : Bool :=
  if p.lastOnSave then s.xlst || (s.saveQ && p.lastOnSave) || s.xmax
  else i.sTlast || chunkW p s i

/-- The holding register is eight bits wide whatever the width of the data. -/
def dataW : BitVec WIDTH := if p.lastOnSave then s.xdat.setWidth WIDTH else i.sTdata

/-- What is written to the memory array; without `STORE_LASTS` it has no `tlast` bits,
and they read as zero. -/
def wordW : Word WIDTH := (p.storeLasts && lastW p s i, dataW p s i)

/-! ### Read port -/

def bypass : Bool := !decide (1 < p.outreg)

def xready : Bool := AxisSkid.sTready (bypass p) s.skid i.mTready

def fetchW : Bool :=
  if p.outreg = 0 then s.rvalid && i.mTready
  else s.rvalid && ((s.xvalid && xready p s i) || !s.xvalid)

def rstopW : Bool :=
  if p.outreg = 0 then s.rvalid && (s.sram (slot s.raddr)).1 && i.mTready
  else s.xvalid && s.xlast && xready p s i

def mTvalid : Bool :=
  if p.outreg = 0 then s.rvalid else AxisSkid.mTvalid (bypass p) s.skid s.xvalid

def mTlast : Bool :=
  if p.outreg = 0 then (s.sram (slot s.raddr)).1 else AxisSkid.mTlast (bypass p) s.skid s.xlast

def mTdata : BitVec WIDTH :=
  if p.outreg = 0 then (s.sram (slot s.raddr)).2 else AxisSkid.mTdata (bypass p) s.skid s.xdata

def finishA : Bool :=
  ((p.nextOnLast && mTvalid p s && i.mTready && mTlast p s) || i.nextI) && !i.redoI

def replayA : Bool := i.redoI

def raddrNext : BitVec (ABITS + 1) := if fetchW p s i then s.raddr + 1 else s.raddr

/-- The port connections of `axis_skid_inst`. -/
def skidInputs : AxisSkid.Inputs WIDTH where
  reset := i.reset || replayA i
  sTvalid := s.xvalid
  sTlast := s.xlast
  sTdata := s.xdata
  mTready := i.mTready

/-! ### Status -/

def matchW : Bool := slot s.waddr == slot s.raddr

def wrfullNext : Bool :=
  slot (waddrNext p s i) == slot s.raddr && storeW p s i && !fetchW p s i

def wrfullCurr : Bool :=
  matchW s && s.waddr.msb != s.raddr.msb && fetchW p s i == storeW p s i

def remptyNext : Bool :=
  slot (raddrNext p s i) == slot s.paddr && fetchW p s i && !acceptA p s i

def remptyCurr : Bool := s.paddr == s.raddr && fetchW p s i == acceptA p s i

def wfullW : Bool := wrfullCurr p s i || wrfullNext p s i

def emptyW : Bool := remptyCurr p s i || remptyNext p s i

def levelW : BitVec ABITS :=
  let held := (captureA s i || s.xvld) && !releaseA p s
  slot (waddrNext p s i) - slot (raddrNext p s i) +
    if p.lastOnSave then (BitVec.ofBool held).setWidth ABITS else 0

end Wires

/-- One clock edge. Where the source sets `xdat` to unknown bits, which nothing reads
while `xvld` is low, the register keeps its value. -/
def step (s : State WIDTH ABITS) (i : Inputs WIDTH) : State WIDTH ABITS where
  sram :=
    if !i.reset && !rejectA i && storeW p s i then
      Function.update s.sram (slot s.waddr) (wordW p s i)
    else s.sram
  rvalid := !i.reset && !emptyW p s i
  wready := !i.reset && !wfullW p s i
  waddr := if i.reset then 0 else if rejectA i then s.paddr else waddrNext p s i
  raddr := if i.reset then 0 else if replayA i then s.rplay else raddrNext p s i
  rplay := if i.reset then 0 else if finishA p s i then s.rprev else s.rplay
  paddr := if i.reset then 0 else if acceptA p s i then waddrNext p s i else s.paddr
  rprev :=
    if i.reset then 0
    else if replayA i then s.rprev
    else if rstopW p s i then s.raddr
    else s.rprev
  levelQ := if i.reset then 0 else levelW p s i
  saveQ := if p.lastOnSave then !i.reset && saveW p s i else s.saveQ
  dropQ := if p.lastOnSave then !i.reset && i.dropI else s.dropQ
  xvld :=
    if p.lastOnSave then
      !i.reset && (captureA s i || (s.xvld && !(releaseA p s || i.dropI)))
    else s.xvld
  xlst :=
    if p.lastOnSave then
      if i.reset then false
      else if captureA s i then
        i.sTlast || (p.lastOnSave && i.saveI) || (p.saveOnLast && chunkW p s i)
      else s.xlst && !(releaseA p s || i.dropI)
    else s.xlst
  xmax :=
    if p.lastOnSave then
      if i.reset then false
      else if captureA s i then chunkW p s i
      else s.xmax && !(releaseA p s || i.dropI)
    else s.xmax
  xdat :=
    if p.lastOnSave && !i.reset && captureA s i then i.sTdata.setWidth 8 else s.xdat
  xvalid :=
    if i.reset || replayA i then false
    else if fetchW p s i then true
    else if s.xvalid && xready p s i then false
    else s.xvalid
  xlast :=
    if !(i.reset || replayA i) && fetchW p s i then (s.sram (slot s.raddr)).1 else s.xlast
  xdata :=
    if !(i.reset || replayA i) && fetchW p s i then (s.sram (slot s.raddr)).2 else s.xdata
  skid := AxisSkid.step s.skid (skidInputs s i)

/-- The inputs of a clock edge with `reset` asserted. -/
def resetInputs : Inputs WIDTH where
  reset := true
  dropI := false
  saveI := false
  redoI := false
  nextI := false
  sTvalid := false
  sTkeep := false
  sTlast := false
  sTdata := 0
  mTready := false

/-- The state after a clock edge with `reset` asserted, whatever came before. -/
def afterReset (s : State WIDTH ABITS) : State WIDTH ABITS := step p s resetInputs

/-! ## What passes through the ports -/

/-- The word on offer at the output port. -/
def offered (s : State WIDTH ABITS) : Word WIDTH := (mTlast p s, mTdata p s)

/-- The word delivered at the output port in a cycle. -/
def delivered (s : State WIDTH ABITS) (i : Inputs WIDTH) : List (Word WIDTH) :=
  if mTvalid p s && i.mTready then [offered p s] else []

/-- The word written to the memory array at an edge, unless it is dropped. -/
def stored (s : State WIDTH ABITS) (i : Inputs WIDTH) : List (Word WIDTH) :=
  if storeW p s i && !rejectA i then [wordW p s i] else []

end MiscVerilogCores.PacketFifo
