import MiscVerilogCores.Library.RingMemory
import MiscVerilogCores.Model.AxisBeat

/-! # `axis_fifo.v`

A FIFO of beats that can hold back a frame until it is complete, and then keep or drop it. The words that
are written but not committed yet are those of the open frame. A pipeline of registers follows the
memory. -/

namespace MiscVerilogCores.AxisFifo

open RingMemory

/-- The parameters, and what the source checks of them before it starts. `u` is `USER_WIDTH`. -/
structure Params (u : ℕ) where
  addrWidth : ℕ
  ramPipeline : ℕ
  keepEnable : Bool
  lastEnable : Bool
  userEnable : Bool
  frameFifo : Bool
  userBadFrameValue : BitVec u
  userBadFrameMask : BitVec u
  dropOversizeFrame : Bool
  dropBadFrame : Bool
  dropWhenFull : Bool
  markWhenFull : Bool
  frame_last : frameFifo = true → lastEnable = true
  oversize_frame : dropOversizeFrame = true → frameFifo = true
  bad_oversize : dropBadFrame = true → frameFifo = true ∧ dropOversizeFrame = true
  full_oversize : dropWhenFull = true → frameFifo = true ∧ dropOversizeFrame = true
  mask_pos : dropBadFrame = true ∨ markWhenFull = true → userBadFrameMask ≠ 0
  mark_frame : markWhenFull = true → frameFifo = false
  mark_last : markWhenFull = true → lastEnable = true

/-- A beat with its `tuser`; `V` stands for `tid` and `tdest`. -/
abbrev Word (d k u : ℕ) (V : Type) := Beat d k (V × BitVec u)

/-! ## The pipeline -/

structure Stage (β : Type) where
  valid : Bool
  data : β
deriving Inhabited

/-- `m_axis_pipe_reg`, the stage at the output first. -/
abbrev Pipe (n : ℕ) (β : Type) := {stages : List (Stage β) // stages.length = n + 1}

instance {n : ℕ} {β : Type} [Inhabited β] : Inhabited (Pipe n β) :=
  ⟨⟨List.replicate (n + 1) default, List.length_replicate⟩⟩

/-- Each stage takes what is in the one behind it, if the output is taken or there is a bubble in front;
`new` is behind them all. -/
def advance {β : Type} : Bool → List (Stage β) → Stage β → List (Stage β)
  | _, [], _ => []
  | free, x :: rest, new =>
      let free' := free || !x.valid
      (if free' then rest.headD new else x) :: advance free' rest new

theorem length_advance {β : Type} (free : Bool) (stages : List (Stage β)) (new : Stage β) :
    (advance free stages new).length = stages.length := by
  induction stages generalizing free with
  | nil => rfl
  | cons x rest ih => rw [advance, List.length_cons, ih, List.length_cons]

/-! ## The FIFO -/

structure State {u : ℕ} (p : Params u) (d k : ℕ) (V : Type) where
  wrPtr : BitVec (p.addrWidth + 1)
  wrPtrCommit : BitVec (p.addrWidth + 1)
  rdPtr : BitVec (p.addrWidth + 1)
  mem : BitVec p.addrWidth → Word d k u V
  pipe : Pipe p.ramPipeline (Word d k u V)
  sFrame : Bool
  dropFrame : Bool
  markFrame : Bool
  sendFrame : Bool
  depth : BitVec (p.addrWidth + 1)
  depthCommit : BitVec (p.addrWidth + 1)
  overflow : Bool
  badFrame : Bool
  goodFrame : Bool
deriving Inhabited

structure Inputs (d k u : ℕ) (V : Type) where
  rst : Bool
  sAxis : Word d k u V
  sAxisTvalid : Bool
  mAxisTready : Bool

variable {u d k : ℕ} {V : Type} {p : Params u}

section Wires

variable (s : State p d k V) (i : Inputs d k u V)

/-- The first bit is different, and the rest the same. -/
def lapped (x y : BitVec (p.addrWidth + 1)) : Bool := x == y ^^^ BitVec.twoPow _ p.addrWidth

def full : Bool := lapped s.wrPtr s.rdPtr

def empty : Bool := s.wrPtrCommit == s.rdPtr

/-- Overflow within a frame. -/
def fullWr : Bool := lapped s.wrPtr s.wrPtrCommit

def sAxisTready : Bool :=
  if p.frameFifo then !full s || (fullWr s && p.dropOversizeFrame) || p.dropWhenFull
  else !full s || p.markWhenFull

/-- A beat is accepted. -/
def accepts : Bool := sAxisTready s && i.sAxisTvalid

/-- The word that is written. -/
def sAxis : Word d k u V :=
  { i.sAxis with
    tlast := i.sAxis.tlast || s.markFrame
    user := (i.sAxis.user.1, if s.markFrame then p.userBadFrameValue else i.sAxis.user.2) }

/-- What is read of a word: a field that is not enabled is constant. -/
def visible (p : Params u) (w : Word d k u V) : Word d k u V where
  tdata := w.tdata
  tkeep := if p.keepEnable then w.tkeep else BitVec.allOnes k
  tlast := if p.lastEnable then w.tlast else true
  user := (w.user.1, if p.userEnable then w.user.2 else 0)

/-- The stage at the output. -/
def top : Stage (Word d k u V) := s.pipe.1.head (List.ne_nil_of_length_eq_add_one s.pipe.2)

def mAxisTvalid : Bool := (top s).valid

def mAxis : Word d k u V := visible p (top s).data

/-- The frame that ends with this beat is marked as bad. -/
def isBad : Bool :=
  p.userBadFrameMask &&& ~~~(i.sAxis.user.2 ^^^ p.userBadFrameValue) != 0

/-- The first stage of the pipeline is loaded. -/
def loads : Bool := i.mAxisTready || s.pipe.1.any fun x => !x.valid

def fetches : Bool := loads s i && !empty s

end Wires

section Step

variable (s : State p d k V) (i : Inputs d k u V)

/-- A word is written behind the others. -/
def store : State p d k V :=
  { s with mem := Function.update s.mem (slot s.wrPtr) (sAxis s i), wrPtr := s.wrPtr + 1 }

/-- Everything that is written can be read. -/
def commit : State p d k V := { s with wrPtrCommit := s.wrPtr }

/-- What is not committed is forgotten. -/
def rollback : State p d k V := { s with wrPtr := s.wrPtrCommit }

/-- The strobes are low unless they are set. -/
def quiet : State p d k V :=
  { s with
    overflow := false
    badFrame := false
    goodFrame := false
    sFrame := if accepts s i && p.lastEnable then !i.sAxis.tlast else s.sFrame }

def writeFrame : State p d k V :=
  let q := quiet s i
  if accepts s i then
    if full s && p.dropWhenFull || fullWr s && p.dropOversizeFrame || s.dropFrame then
      if i.sAxis.tlast then { rollback q with dropFrame := false, overflow := true }
      else { q with dropFrame := true }
    else if i.sAxis.tlast || !p.dropOversizeFrame && (fullWr s || s.sendFrame) then
      if i.sAxis.tlast && p.dropBadFrame && isBad (p := p) i then
        { rollback (store q i) with sendFrame := !i.sAxis.tlast, badFrame := true }
      else { commit (store q i) with sendFrame := !i.sAxis.tlast, goodFrame := i.sAxis.tlast }
    else store q i
  else if i.sAxisTvalid && fullWr s && !p.dropOversizeFrame then { commit q with sendFrame := true }
  else q

def writeNormal : State p d k V :=
  let q := quiet s i
  if accepts s i then
    if s.dropFrame && p.markWhenFull then
      if i.sAxis.tlast then
        if !full s && s.markFrame then
          { commit (store q i) with markFrame := false, dropFrame := false, overflow := true }
        else { q with dropFrame := false, overflow := true }
      else q
    else if (full s || s.markFrame) && p.markWhenFull then
      { q with
        dropFrame := !i.sAxis.tlast
        markFrame := s.markFrame || s.sFrame
        overflow := i.sAxis.tlast }
    else commit (store q i)
  else if !full s && !s.dropFrame && s.markFrame && p.markWhenFull then
    { commit (store q i) with markFrame := false }
  else q

def write : State p d k V := if p.frameFifo then writeFrame s i else writeNormal s i

/-- The read side sees the registers as they are before the edge. -/
def step : State p d k V :=
  let w := write s i
  let new : Stage (Word d k u V) := ⟨!empty s, s.mem (slot s.rdPtr)⟩
  let pipe : Pipe p.ramPipeline (Word d k u V) :=
    ⟨advance i.mAxisTready s.pipe.1 new, (length_advance ..).trans s.pipe.2⟩
  let depth := s.wrPtr - s.rdPtr
  let depthCommit := s.wrPtrCommit - s.rdPtr
  if i.rst then
    { w with
      wrPtr := 0
      wrPtrCommit := 0
      rdPtr := 0
      pipe := ⟨pipe.1.map fun x => ⟨false, x.data⟩, List.length_map _ |>.trans pipe.2⟩
      sFrame := false
      dropFrame := false
      markFrame := false
      sendFrame := false
      depth := depth
      depthCommit := depthCommit
      overflow := false
      badFrame := false
      goodFrame := false }
  else
    { w with
      rdPtr := if fetches s i then s.rdPtr + 1 else s.rdPtr
      pipe := pipe
      depth := depth
      depthCommit := depthCommit }

end Step

end MiscVerilogCores.AxisFifo
