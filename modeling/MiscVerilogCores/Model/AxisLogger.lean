import Mathlib.Data.Nat.Notation

/-! # The telemetry framer of `axis_logger.v`

A sample is taken when a signal has changed, and presented to `U_FIFO4` in the next cycle; the last of
`PACKET_SIZE` samples ends a frame. `CBITS` is `$clog2(PACKET_SIZE)`, so that a frame has `2 ^ CBITS`
samples when `PACKET_SIZE` is a power of two, and `FIFO_WIDTH` is `IGN_WIDTH + SIG_WIDTH`. -/

namespace MiscVerilogCores.AxisLogger

structure State (SIG_WIDTH IGN_WIDTH CBITS : ℕ) where
  currQ : BitVec SIG_WIDTH
  restQ : BitVec IGN_WIDTH
  count : BitVec CBITS
  vldQ : Bool
  lstQ : Bool
deriving Inhabited

structure Inputs (SIG_WIDTH IGN_WIDTH : ℕ) where
  reset : Bool
  enableI : Bool
  changeI : BitVec SIG_WIDTH
  ignoreI : BitVec IGN_WIDTH
  cTready : Bool

variable {SIG_WIDTH IGN_WIDTH CBITS : ℕ}

section Wires

variable (s : State SIG_WIDTH IGN_WIDTH CBITS)

def cTvalid : Bool := s.vldQ

def cTlast : Bool := s.lstQ

def cTdata : BitVec (IGN_WIDTH + SIG_WIDTH) := s.restQ ++ s.currQ

def cnext : BitVec (CBITS + 1) := s.count.setWidth (CBITS + 1) + 1

end Wires

/-- A sample is taken: `c_tready && change_i != curr_q`. -/
def samples (s : State SIG_WIDTH IGN_WIDTH CBITS) (i : Inputs SIG_WIDTH IGN_WIDTH) : Bool :=
  i.cTready && i.changeI != s.currQ

/-- One clock edge. -/
def step (s : State SIG_WIDTH IGN_WIDTH CBITS) (i : Inputs SIG_WIDTH IGN_WIDTH) :
    State SIG_WIDTH IGN_WIDTH CBITS :=
  if i.reset || !i.enableI then
    { currQ := BitVec.allOnes SIG_WIDTH
      restQ := BitVec.allOnes IGN_WIDTH
      count := 0
      vldQ := false
      lstQ := false }
  else
    { currQ := i.changeI
      restQ := i.ignoreI
      count := if samples s i then (cnext s).setWidth CBITS else s.count
      vldQ := samples s i
      lstQ := samples s i && (cnext s).getLsbD CBITS }

/-! ## What passes to the FIFO -/

/-- The sample presented in a cycle, with its `tlast`. -/
def presented (s : State SIG_WIDTH IGN_WIDTH CBITS) (_ : Inputs SIG_WIDTH IGN_WIDTH) :
    List (Bool × BitVec (IGN_WIDTH + SIG_WIDTH)) :=
  if cTvalid s then [(cTlast s, cTdata s)] else []

/-- The sample that the FIFO takes in a cycle. -/
def taken (s : State SIG_WIDTH IGN_WIDTH CBITS) (i : Inputs SIG_WIDTH IGN_WIDTH) :
    List (Bool × BitVec (IGN_WIDTH + SIG_WIDTH)) :=
  if cTvalid s && i.cTready then [(cTlast s, cTdata s)] else []

end MiscVerilogCores.AxisLogger
