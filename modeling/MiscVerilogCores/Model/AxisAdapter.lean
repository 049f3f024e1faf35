import MiscVerilogCores.Library.Segments
import MiscVerilogCores.Model.AxisBeat

/-! # `axis_adapter.v`

Between a narrow and a wide stream: `upsize` collects the segments of a wide word, `downsize` takes a
wide word apart, and `bypass` is for streams of the same width. A wide word has `n` segments, with `w`
bits of data and `k` bits of `tkeep` each. -/

namespace MiscVerilogCores.AxisAdapter

open Segments

variable {n w k : ℕ} {U : Type}

/-! ## `bypass` -/

namespace Bypass

variable {d : ℕ}

def mAxis (sAxis : Beat d k U) : Beat d k U := sAxis

def mAxisTvalid (sAxisTvalid : Bool) : Bool := sAxisTvalid

def sAxisTready (mAxisTready : Bool) : Bool := mAxisTready

end Bypass

/-! ## `upsize` -/

namespace Upsize

structure State (n w k : ℕ) (U : Type) where
  seg : ℕ
  sAxis : Beat w k U
  sAxisTvalid : Bool
  mAxis : Beat (n * w) (n * k) U
  mAxisTvalid : Bool
deriving Inhabited

structure Inputs (w k : ℕ) (U : Type) where
  rst : Bool
  sAxis : Beat w k U
  sAxisTvalid : Bool
  mAxisTready : Bool

def sAxisTready (s : State n w k U) : Bool := !s.sAxisTvalid

/-- The output register when it is empty, or taken in this cycle. -/
def collected (s : State n w k U) (i : Inputs w k U) : Beat (n * w) (n * k) U :=
  let source := if s.sAxisTvalid then s.sAxis else i.sAxis
  if s.seg = 0 then
    { tdata := setSegment s.mAxis.tdata s.seg source.tdata
      tkeep := source.tkeep.setWidth (n * k)
      tlast := source.tlast
      user := source.user }
  else
    { tdata := setSegment s.mAxis.tdata s.seg i.sAxis.tdata
      tkeep := setSegment s.mAxis.tkeep s.seg i.sAxis.tkeep
      tlast := source.tlast
      user := source.user }

/-- The segment register and the valid flag of the output, behind a beat that ends a word or not. -/
def advance (s : State n w k U) (last : Bool) : ℕ × Bool :=
  if last || s.seg == n - 1 then (0, true) else (s.seg + 1, false)

def step (s : State n w k U) (i : Inputs w k U) : State n w k U :=
  let s' :=
    if !s.mAxisTvalid || i.mAxisTready then
      if s.sAxisTvalid then
        { s with
          sAxisTvalid := false
          mAxis := collected s i
          seg := (advance s s.sAxis.tlast).1
          mAxisTvalid := (advance s s.sAxis.tlast).2 }
      else if i.sAxisTvalid then
        { s with
          mAxis := collected s i
          seg := (advance s i.sAxis.tlast).1
          mAxisTvalid := (advance s i.sAxis.tlast).2 }
      else { s with mAxis := collected s i, mAxisTvalid := false }
    else if i.sAxisTvalid && sAxisTready s then
      { s with sAxis := i.sAxis, sAxisTvalid := true }
    else s
  if i.rst then { s' with seg := 0, sAxisTvalid := false, mAxisTvalid := false } else s'

end Upsize

/-! ## `downsize` -/

namespace Downsize

structure State (n w k : ℕ) (U : Type) where
  sAxis : Beat (n * w) (n * k) U
  sAxisTvalid : Bool
  mAxis : Beat w k U
  mAxisTvalid : Bool
deriving Inhabited

structure Inputs (n w k : ℕ) (U : Type) where
  rst : Bool
  sAxis : Beat (n * w) (n * k) U
  sAxisTvalid : Bool
  mAxisTready : Bool

def sAxisTready (s : State n w k U) : Bool := !s.sAxisTvalid

/-- The segments that are left when the lowest one is sent. -/
def shifted (b : Beat (n * w) (n * k) U) : Beat (n * w) (n * k) U :=
  { b with tdata := b.tdata >>> w, tkeep := b.tkeep >>> k }

/-- The lowest segment of a word, which ends a frame if it is the last one of its word. -/
def lowest (b : Beat (n * w) (n * k) U) : Beat w k U where
  tdata := b.tdata.setWidth w
  tkeep := b.tkeep.setWidth k
  tlast := b.tkeep >>> k == 0 && b.tlast
  user := b.user

def step (s : State n w k U) (i : Inputs n w k U) : State n w k U :=
  let s' :=
    if !s.mAxisTvalid || i.mAxisTready then
      if s.sAxisTvalid then
        { sAxis := shifted s.sAxis
          sAxisTvalid := s.sAxis.tkeep >>> k != 0
          mAxis := lowest s.sAxis
          mAxisTvalid := true }
      else if i.sAxisTvalid && sAxisTready s then
        { sAxis := shifted i.sAxis
          sAxisTvalid := i.sAxis.tkeep >>> k != 0
          mAxis := lowest i.sAxis
          mAxisTvalid := true }
      else
        { s with mAxis := { lowest i.sAxis with tlast := false }, mAxisTvalid := false }
    else if i.sAxisTvalid && sAxisTready s then
      { s with sAxis := i.sAxis, sAxisTvalid := true }
    else s
  if i.rst then { s' with sAxisTvalid := false, mAxisTvalid := false } else s'

end Downsize

end MiscVerilogCores.AxisAdapter
