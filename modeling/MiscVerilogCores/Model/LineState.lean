import Mathlib.Data.Nat.Notation

/-! # `line_state.v`

Watches the USB line state, and brings the ULPI PHY up: into full-speed mode first, and into
high-speed mode if the chirp handshake with the host completes. -/

namespace MiscVerilogCores.LineState

/-- `state`, without the `ST_` of the source. -/
inductive Fsm where
  | powerOn | fsStart | fsLsse0 | waitSe0 | chirpK0 | chirpK1 | chirpK2 | chirpKj | hsStart | idle
  | suspend | resume | reset
deriving DecidableEq, Inhabited

/-! ## Times, in clock cycles and in multiples of the shorter pulses -/

def count25Us : BitVec 8 := 149

def count100Us : BitVec 6 := 39

def count10Ms : BitVec 9 := 399

structure State where
  state : Fsm
  dirQ : Bool
  nxtQ : Bool
  datQ : BitVec 8
  setQ : Bool
  nopQ : Bool
  stpQ : Bool
  hseQ : Bool
  rstQ : Bool
  adrQ : BitVec 8
  valQ : BitVec 8
  rxCmdQ : Bool
  hsModeQ : Bool
  newLsQ : Bool
  isIdleQ : Bool
  lineStateQ : BitVec 2
  vbusStateQ : BitVec 2
  rxEventQ : BitVec 2
  pulse25us : Bool
  count25us : BitVec 8
  pulse100us : Bool
  count100us : BitVec 6
  lsPulse10ms : Bool
  lsCount10ms : BitVec 9
  lsPulse30ms : Bool
  lsCount30ms : BitVec 2
  lsPulse21ms : Bool
  lsCount21ms : BitVec 3
  kjValidQ : Bool
  kjEndedQ : Bool
  kjCountQ : BitVec 3
deriving Inhabited

structure Inputs where
  reset : Bool
  ulpiDir : Bool
  ulpiNxt : Bool
  ulpiData : BitVec 8
  usbSofI : Bool
  phyDoneI : Bool
deriving Inhabited, DecidableEq

section Wires

variable (s : State) (i : Inputs)

def highSpeedO : Bool := s.hsModeQ

def rxCmdW : Bool := s.dirQ && i.ulpiDir && !i.ulpiNxt

def lineStateW : BitVec 2 := s.datQ.extractLsb' 0 2

def vbusStateW : BitVec 2 := s.datQ.extractLsb' 2 2

def rxEventW : BitVec 2 := s.datQ.extractLsb' 4 2

def newLsW : Bool := (s.rxCmdQ && lineStateW s != s.lineStateQ) || i.usbSofI

def kjCnextW : BitVec 3 := s.kjCountQ + 1

/-- The line has just gone to J, or is in J when a frame starts. -/
def kjStepW : Bool := s.newLsQ && s.lineStateQ == 0b01

end Wires

/-! ## The main state machine -/

/-- What an edge sets of `state`, `hse_q`, `set_q`, `nop_q`, `stp_q`, `adr_q` and `val_q`. -/
structure Move where
  state : Fsm
  hseQ : Bool
  setQ : Bool
  nopQ : Bool
  stpQ : Bool
  adrQ : BitVec 8
  valQ : BitVec 8

/-- The registers keep their values. -/
def Move.stay (s : State) : Move :=
  ⟨s.state, s.hseQ, s.setQ, s.nopQ, s.stpQ, s.adrQ, s.valQ⟩

/-- A PHY register is written until the PHY is done, and the machine goes on then. -/
def Move.write (s : State) (done : Bool) (next : Fsm) (adr val : BitVec 8) : Move :=
  if done then { Move.stay s with state := next, setQ := false, adrQ := 0, valQ := 0 }
  else { Move.stay s with setQ := true, adrQ := adr, valQ := val }

/-- A move out of reset, while the PHY does not drive the bus. -/
def moveNext (s : State) (i : Inputs) : Move :=
  let stay := Move.stay s
  match s.state with
  | .powerOn => Move.write s i.phyDoneI .fsStart 0x8a 0
  | .idle =>
      if s.lsPulse30ms && s.lineStateQ == 0b00 then { stay with state := .reset }
      else if s.lsPulse30ms && s.lineStateQ == 0b01 then { stay with state := .suspend }
      else stay
  | .reset => if s.pulse25us then { stay with state := .fsStart } else stay
  | .suspend => if s.lineStateQ != 0b01 then { stay with state := .idle } else stay
  | .resume =>
      { Move.write s i.phyDoneI .idle 0x84 0x40 with hseQ := if i.phyDoneI then s.hseQ else true }
  | .fsStart => { Move.write s i.phyDoneI .fsLsse0 0x84 0x45 with hseQ := false }
  | .fsLsse0 =>
      { stay with
        state := if s.lineStateQ == 0b00 then .waitSe0 else if s.pulse100us then .idle else s.state
        setQ := false }
  | .waitSe0 =>
      if s.newLsQ then { stay with state := .fsLsse0, setQ := false }
      else if s.pulse25us then
        { stay with state := .chirpK0, hseQ := true, setQ := true, adrQ := 0x84, valQ := 0x54 }
      else { stay with setQ := false }
  | .chirpK0 =>
      if i.phyDoneI then { stay with state := .chirpK1, setQ := false, nopQ := true } else stay
  | .chirpK1 =>
      { stay with
        state := if s.lsPulse10ms then .chirpK2 else s.state
        stpQ := if s.lsPulse10ms then true else s.stpQ
        nopQ := if i.phyDoneI then false else s.nopQ }
  | .chirpK2 => { stay with state := .chirpKj, nopQ := false, stpQ := false }
  | .chirpKj =>
      { stay with state := if s.kjEndedQ && s.kjValidQ then .hsStart else s.state, stpQ := false }
  | .hsStart =>
      { Move.write s i.phyDoneI .idle 0x84 0x40 with hseQ := if i.phyDoneI then s.hseQ else true }

/-- The machine stands still while the PHY drives the bus. -/
def move (s : State) (i : Inputs) : Move :=
  if i.reset then
    { Move.stay s with state := .powerOn, hseQ := false, setQ := false, nopQ := false, stpQ := false }
  else if s.dirQ || i.ulpiDir then { Move.stay s with setQ := false }
  else moveNext s i

/-! ## One clock edge -/

/-- A pulse each time a counter has seen `last + 1` ticks. -/
def pulseNext {w : ℕ} (clear tick : Bool) (last count : BitVec w) : Bool × BitVec w :=
  if clear then (false, 0)
  else if tick then (if count == last then (true, 0) else (false, count + 1))
  else (false, count)

def step (s : State) (i : Inputs) : State where
  state := (move s i).state
  dirQ := i.ulpiDir
  nxtQ := i.ulpiNxt
  datQ := i.ulpiData
  setQ := (move s i).setQ
  nopQ := (move s i).nopQ
  stpQ := (move s i).stpQ
  hseQ := (move s i).hseQ
  rstQ :=
    if s.state == .reset || s.state == .powerOn then true
    else if i.reset || s.state == .idle then false
    else s.rstQ
  adrQ := (move s i).adrQ
  valQ := (move s i).valQ
  rxCmdQ := rxCmdW s i
  hsModeQ :=
    if i.reset || s.state == .fsStart then false
    else if s.state == .idle && s.hseQ then true
    else s.hsModeQ
  newLsQ := newLsW s i
  isIdleQ := !i.reset && s.hseQ && s.state == .idle
  lineStateQ := if i.reset then 0b10 else if s.rxCmdQ then lineStateW s else s.lineStateQ
  vbusStateQ := if i.reset then 0b00 else if s.rxCmdQ then vbusStateW s else s.vbusStateQ
  rxEventQ := if i.reset then 0b00 else if s.rxCmdQ then rxEventW s else s.rxEventQ
  pulse25us := (pulseNext i.reset true LineState.count25Us s.count25us).1
  count25us := (pulseNext i.reset true LineState.count25Us s.count25us).2
  pulse100us :=
    (pulseNext (i.reset || (s.state == .fsStart && i.phyDoneI)) s.pulse25us LineState.count100Us
      s.count100us).1
  count100us :=
    (pulseNext (i.reset || (s.state == .fsStart && i.phyDoneI)) s.pulse25us LineState.count100Us
      s.count100us).2
  lsPulse10ms := (pulseNext (i.reset || s.newLsQ) s.pulse25us LineState.count10Ms s.lsCount10ms).1
  lsCount10ms := (pulseNext (i.reset || s.newLsQ) s.pulse25us LineState.count10Ms s.lsCount10ms).2
  lsPulse30ms := (pulseNext (i.reset || s.newLsQ) s.lsPulse10ms 2 s.lsCount30ms).1
  lsCount30ms := (pulseNext (i.reset || s.newLsQ) s.lsPulse10ms 2 s.lsCount30ms).2
  lsPulse21ms := (pulseNext (i.reset || s.newLsQ) s.lsPulse30ms 6 s.lsCount21ms).1
  lsCount21ms := (pulseNext (i.reset || s.newLsQ) s.lsPulse30ms 6 s.lsCount21ms).2
  kjValidQ :=
    if s.state == .chirpKj then
      (if s.pulse25us then true else if s.newLsQ then false else s.kjValidQ)
    else false
  kjEndedQ :=
    if s.state == .chirpKj then
      (if kjStepW s then s.kjEndedQ || kjCnextW s == 3 else s.kjEndedQ)
    else false
  kjCountQ :=
    if s.state == .chirpKj then (if kjStepW s then kjCnextW s else s.kjCountQ) else 0

/-- The state after a clock edge with `reset` asserted, whatever came before. -/
def afterReset (s : State) (i : Inputs) : State :=
  step s { i with reset := true }

end MiscVerilogCores.LineState
