import MiscVerilogCores.Model.AxisBeat
import Mathlib.Data.BitVec

/-! # `axis_mux.v` and `axis_demux.v`

A multiplexer and a demultiplexer that switch between frames. Both have the same output datapath: an
output register and a temporary register, with a valid bit for each output port. -/

namespace MiscVerilogCores.AxisSwitch

/-! ## The output datapath -/

/-- `valid` has one bit for each output port, `β` is what goes through. -/
structure Datapath (M : ℕ) (β : Type) where
  valid : BitVec M
  reg : β
  readyInt : Bool
  tempValid : BitVec M
  temp : β
deriving Inhabited

namespace Datapath

variable {M : ℕ} {β : Type}

/-- `m_axis_tready_int_early`; `takes` tells that the output register is taken. -/
def readyIntEarly (o : Datapath M β) (takes : Bool) (validInt : BitVec M) : Bool :=
  takes || (o.tempValid == 0 && (o.valid == 0 || validInt == 0))

def step (o : Datapath M β) (takes : Bool) (validInt : BitVec M) (int : β) : Datapath M β :=
  let o' := { o with readyInt := readyIntEarly o takes validInt }
  if o.readyInt then
    if takes || o.valid == 0 then { o' with valid := validInt, reg := int }
    else { o' with tempValid := validInt, temp := int }
  else if takes then { o' with valid := o.tempValid, tempValid := 0, reg := o.temp }
  else o'

def reset (o : Datapath M β) : Datapath M β := { o with valid := 0, readyInt := false, tempValid := 0 }

end Datapath

variable {d k : ℕ} {U : Type}

/-! ## `axis_mux` -/

namespace Mux

/-- `c` is the width of `select`. -/
structure State (S c d k : ℕ) (U : Type) where
  select : BitVec c
  frame : Bool
  sTready : BitVec S
  out : Datapath 1 (Beat d k U)
deriving Inhabited

structure Inputs (S c d k : ℕ) (U : Type) where
  rst : Bool
  sAxis : ℕ → Beat d k U
  sTvalid : BitVec S
  mTready : Bool
  enable : Bool
  select : BitVec c

variable {S c : ℕ}

section Wires

variable (s : State S c d k U) (i : Inputs S c d k U)

def currentTvalid : Bool := i.sTvalid.getLsbD s.select.toNat

def currentTready : Bool := s.sTready.getLsbD s.select.toNat

def current : Beat d k U := i.sAxis s.select.toNat

/-- A frame starts on the port that is selected. -/
def starts : Bool := !s.frame && i.enable && i.sTvalid.getLsbD i.select.toNat

def frameNext : Bool :=
  starts s i || (s.frame && !(currentTvalid s i && currentTready s && (current s i).tlast))

def selectNext : BitVec c := if starts s i then i.select else s.select

def validInt : BitVec 1 := BitVec.ofBool (currentTvalid s i && currentTready s && s.frame)

def sTreadyNext : BitVec S :=
  (BitVec.ofBool (s.out.readyIntEarly i.mTready (validInt s i) && frameNext s i)).setWidth S <<<
    (selectNext s i).toNat

end Wires

def step (s : State S c d k U) (i : Inputs S c d k U) : State S c d k U :=
  let out := s.out.step i.mTready (validInt s i) (current s i)
  if i.rst then ⟨0, false, 0, out.reset⟩
  else ⟨selectNext s i, frameNext s i, sTreadyNext s i, out⟩

end Mux

/-! ## `axis_demux` -/

namespace Demux

/-- The parameters: `M` output ports, `c` bits of `select`, and `tdest` of `sd` bits, of which `md` bits
are passed on. -/
structure Params where
  M : ℕ
  c : ℕ
  sd : ℕ
  md : ℕ
  tdestRoute : Bool

/-- A beat, and its `tdest`. -/
abbrev Packet (p : Params) (d k : ℕ) (U : Type) := Beat d k U × BitVec p.md

structure State (p : Params) (d k : ℕ) (U : Type) where
  select : BitVec p.c
  drop : Bool
  frame : Bool
  sTready : Bool
  out : Datapath p.M (Packet p d k U)
deriving Inhabited

structure Inputs (p : Params) (d k : ℕ) (U : Type) where
  rst : Bool
  sAxis : Beat d k U
  sTdest : BitVec p.sd
  sTvalid : Bool
  mTready : BitVec p.M
  enable : Bool
  drop : Bool
  select : BitVec p.c

variable {p : Params}

section Wires

variable (s : State p d k U) (i : Inputs p d k U)

def sAxisTready : Bool := s.sTready && i.enable

/-- A beat is accepted. -/
def accepts : Bool := i.sTvalid && sAxisTready s i

/-- `select` and `drop` at the start of a frame. -/
def grab : BitVec p.c × Bool :=
  if p.tdestRoute then
    if 1 < p.M then
      let port : BitVec p.c := i.sTdest.extractLsb' (p.sd - p.c) p.c
      (port, decide (p.M ≤ port.toNat))
    else (0, false)
  else (i.select, i.drop || decide (p.M ≤ i.select.toNat))

def selectCtl : BitVec p.c := if !s.frame && accepts s i then (grab i).1 else s.select

def dropCtl : Bool := if !s.frame && accepts s i then (grab i).2 else s.drop

def selectNext : BitVec p.c :=
  if !s.frame && accepts s i && !i.sAxis.tlast then selectCtl s i else s.select

def dropNext : Bool :=
  if !s.frame && accepts s i && !i.sAxis.tlast then dropCtl s i
  else s.drop && !(accepts s i && i.sAxis.tlast)

def frameNext : Bool :=
  !s.frame && accepts s i && !i.sAxis.tlast || s.frame && !(accepts s i && i.sAxis.tlast)

def validInt : BitVec p.M :=
  (BitVec.ofBool (accepts s i && !dropCtl s i)).setWidth p.M <<< (selectCtl s i).toNat

/-- The output register is taken by the port that it is for. -/
def takes : Bool := i.mTready &&& s.out.valid != 0

def int : Packet p d k U := (i.sAxis, i.sTdest.setWidth p.md)

end Wires

def step (s : State p d k U) (i : Inputs p d k U) : State p d k U :=
  let out := s.out.step (takes s i) (validInt s i) (int i)
  if i.rst then ⟨0, false, false, false, out.reset⟩
  else
    { select := selectNext s i
      drop := dropNext s i
      frame := frameNext s i
      sTready := s.out.readyIntEarly (takes s i) (validInt s i) || dropCtl s i
      out := out }

end Demux

end MiscVerilogCores.AxisSwitch
