import MiscVerilogCores.Verification.LineState.HighSpeed

/-! # A device is brought into high-speed mode

A run from reset through the whole chirp handshake, in which the line does not change to J in
`ST_CHIRP_KJ`: the frames that start there are counted. The bus reset that follows shows that the
flag of high-speed mode falls an edge late. -/

namespace MiscVerilogCores.LineState

open Clocked

/-- The state machine, and its history. -/
def machine : State × History → Inputs → State × History :=
  watched step watch

/-! ## Timers -/

/-- Cycles left until a pulse, at most `period` for a tick of the counter, and the next tick in
`tick` cycles. -/
def left {w : ℕ} (last : BitVec w) (period : ℕ) (pulse : Bool) (count : BitVec w) (tick : ℕ) : ℕ :=
  if pulse then 0 else (last.toNat - count.toNat) * period + tick + 1

theorem left_le {w : ℕ} (last : BitVec w) (period : ℕ) (pulse : Bool) (count : BitVec w)
    (tick : ℕ) : left last period pulse count tick ≤ last.toNat * period + tick + 1 := by
  rw [left]
  split
  · omega
  · have hmul : (last.toNat - count.toNat) * period ≤ last.toNat * period :=
      Nat.mul_le_mul_right _ (Nat.sub_le _ _)
    omega

theorem toNat_succ {w : ℕ} {count last : BitVec w} (h : count.toNat ≤ last.toNat)
    (hne : count ≠ last) : (count + 1).toNat = count.toNat + 1 := by
  have hne : count.toNat ≠ last.toNat := fun he => hne (BitVec.eq_of_toNat_eq he)
  have hlt := last.isLt
  rw [BitVec.toNat_add]
  change (count.toNat + 1 % 2 ^ w) % 2 ^ w = count.toNat + 1
  rw [Nat.add_mod_mod, Nat.mod_eq_of_lt (by omega)]

theorem pulseNext_le {w : ℕ} {last count : BitVec w} (h : count.toNat ≤ last.toNat)
    (clear tick : Bool) : (pulseNext clear tick last count).2.toNat ≤ last.toNat := by
  rw [pulseNext]
  split_ifs with hclear htick heq
  · simp
  · simp
  · have hcount : count ≠ last := by simpa using heq
    have hne : count.toNat ≠ last.toNat := fun he => hcount (BitVec.eq_of_toNat_eq he)
    rw [toNat_succ h hcount]
    omega
  · exact h

theorem left_lt {w : ℕ} {last count : BitVec w} {period t t' : ℕ} {pulse clear tick : Bool}
    (hpulse : pulse = false) (hclear : clear = false) (h : count.toNat ≤ last.toNat)
    (hzero : tick = true → t' < period)
    (hless : tick = false → t' < t) :
    left last period (pulseNext clear tick last count).1 (pulseNext clear tick last count).2 t' <
      left last period pulse count t := by
  subst hpulse hclear
  cases tick
  · simpa [pulseNext, left] using hless rfl
  · have hperiod := hzero rfl
    by_cases heq : count = last
    · simp [pulseNext, left, heq]
    · have hne : count.toNat ≠ last.toNat := fun he => heq (BitVec.eq_of_toNat_eq he)
      have hless : last.toNat - count.toNat = last.toNat - (count.toNat + 1) + 1 := by omega
      simp only [pulseNext, left, Bool.false_eq_true, if_false, if_true, beq_iff_eq, heq]
      rw [toNat_succ h heq, hless, Nat.succ_mul]
      omega

def left25us (s : State) : ℕ :=
  left LineState.count25Us 1 s.pulse25us s.count25us 0

def left10ms (s : State) : ℕ :=
  left LineState.count10Ms 151 s.lsPulse10ms s.lsCount10ms (left25us s)

def left30ms (s : State) : ℕ :=
  left 2 60402 s.lsPulse30ms s.lsCount30ms (left10ms s)

theorem left25us_le (s : State) : left25us s ≤ 150 :=
  left_le _ _ _ _ _

theorem left10ms_le (s : State) : left10ms s ≤ 60400 := by
  have hle := left_le LineState.count10Ms 151 s.lsPulse10ms s.lsCount10ms (left25us s)
  have hus := left25us_le s
  have hlast : LineState.count10Ms.toNat = 399 := rfl
  rw [hlast] at hle
  exact hle.trans (by omega)

/-! ## Edges while the PHY does not drive the bus -/

theorem toJ_not_entered (s : State) (i : Inputs) : Event.toJ ∉ entered s i := by
  rw [entered]
  split
  case h_5 => split_ifs <;> simp
  all_goals simp

/-- The counters are in range, and no change to J has been counted. -/
structure Kept (p : State × History) : Prop where
  us : p.1.count25us.toNat ≤ LineState.count25Us.toNat
  ms : p.1.lsCount10ms.toNat ≤ LineState.count10Ms.toNat
  threeMs : p.1.lsCount30ms.toNat ≤ (2 : BitVec 2).toNat
  noChange : Event.toJ ∉ p.2.events

/-- Nothing is on its way from the PHY. -/
structure Still (p : State × History) : Prop extends Kept p where
  dir : p.1.dirQ = false
  rxCmd : p.1.rxCmdQ = false
  changed : p.2.changed = false

/-- The last change of the line, or start of a frame, is over. -/
structure Calm (p : State × History) : Prop extends Still p where
  newLs : p.1.newLsQ = false

section Edges

variable {p : State × History} {i : Inputs}

theorem Kept.next (h : Kept p) (hj : p.1.state = .chirpKj → p.2.changed = false) :
    Kept (machine p i) := by
  refine ⟨pulseNext_le h.us _ _, pulseNext_le h.ms _ _, pulseNext_le h.threeMs _ _, ?_⟩
  have hcounted : Event.toJ ∉ counted p.2 p.1 := by
    rw [counted]
    split_ifs with hcount hchange
    · have hs : p.1.state = .chirpKj := by simpa using (Bool.and_eq_true_iff.mp hcount).1
      rw [hj hs] at hchange
      simp at hchange
    all_goals simp
  have hentered := toJ_not_entered p.1 i
  change Event.toJ ∉ (watch p.2 p.1 i).events
  rw [watch]
  split_ifs
  · simp
  · simp [h.noChange, hcounted, hentered]

/-- The PHY stays away from the bus. -/
theorem Still.next (h : Still p) (hr : i.reset = false) (hd : i.ulpiDir = false) :
    Still (machine p i) := by
  refine ⟨h.toKept.next fun _ => h.changed, hd, ?_, ?_⟩
  · change rxCmdW p.1 i = false
    simp [rxCmdW, hd]
  · change ((step p.1 i).lineStateQ != p.1.lineStateQ) = false
    simp [step, hr, h.rxCmd]

theorem Calm.next (h : Calm p) (hr : i.reset = false) (hd : i.ulpiDir = false)
    (hf : i.usbSofI = false) : Calm (machine p i) := by
  refine ⟨h.toStill.next hr hd, ?_⟩
  change newLsW p.1 i = false
  simp [newLsW, h.rxCmd, hf]

theorem left25us_next (h : Kept p) (hr : i.reset = false) (hq : p.1.pulse25us = false) :
    left25us (machine p i).1 < left25us p.1 :=
  @left_lt _ _ _ _ _ _ _ _ true hq hr h.us (fun _ => Nat.one_pos) (by simp)

theorem left10ms_next (h : Calm p) (hr : i.reset = false) (hq : p.1.lsPulse10ms = false) :
    left10ms (machine p i).1 < left10ms p.1 := by
  have hclear : (i.reset || p.1.newLsQ) = false := by simp [hr, h.newLs]
  exact left_lt hq hclear h.ms (fun _ => Nat.lt_succ_of_le (left25us_le _))
    (left25us_next h.toKept hr)

theorem left30ms_next (h : Calm p) (hr : i.reset = false) (hq : p.1.lsPulse30ms = false) :
    left30ms (machine p i).1 < left30ms p.1 := by
  have hclear : (i.reset || p.1.newLsQ) = false := by simp [hr, h.newLs]
  exact left_lt hq hclear h.threeMs (fun _ => (left10ms_le _).trans_lt (by decide))
    (left10ms_next h hr)

/-- The FSM moves by its rules. -/
theorem Still.moves (h : Still p) (hr : i.reset = false) (hd : i.ulpiDir = false) :
    (machine p i).1.state = (moveNext p.1 i).state ∧
      (machine p i).1.hseQ = (moveNext p.1 i).hseQ ∧
      (machine p i).1.lineStateQ = p.1.lineStateQ := by
  simp [machine, step, move, hr, hd, h.dir, h.rxCmd]

end Edges

/-! ## The handshake -/

/-- The PHY does nothing. -/
def quiet : Inputs := ⟨false, false, false, 0, false, false⟩

/-- The PHY has written its register. -/
def phyDone : Inputs := { quiet with phyDoneI := true }

/-- A frame starts. -/
def frame : Inputs := { quiet with usbSofI := true }

/-- The PHY turns the bus around. -/
def turnaround : Inputs := { quiet with ulpiDir := true }

/-- The PHY sends the line state. -/
def command (line : BitVec 2) : Inputs := { turnaround with ulpiData := line.setWidth 8 }

/-- The FSM is in a state, and the line is too. -/
structure In (t : Fsm) (line : BitVec 2) (hse : Bool) (p : State × History) : Prop
    extends Calm p where
  state : p.1.state = t
  line : p.1.lineStateQ = line
  hse : p.1.hseQ = hse

/-- A move of the FSM out of a calm state. -/
theorem In.next {t t' : Fsm} {line : BitVec 2} {hse hse' : Bool} {p : State × History} {i : Inputs}
    (h : In t line hse p) (hr : i.reset = false) (hd : i.ulpiDir = false) (hf : i.usbSofI = false)
    (ht : (moveNext p.1 i).state = t') (hq : (moveNext p.1 i).hseQ = hse') :
    In t' line hse' (machine p i) := by
  obtain ⟨hstate, hhse, hline⟩ := h.toStill.moves hr hd
  exact ⟨h.toCalm.next hr hd hf, hstate.trans ht, hline.trans h.line, hhse.trans hq⟩

theorem setWidth_line (line : BitVec 2) : (line.setWidth 8).extractLsb' 0 2 = line := by
  revert line
  decide

/-- A change of the line starts its timer again. -/
theorem lsPulse10ms_clear {s : State} (i : Inputs) (h : s.newLsQ = true) :
    (step s i).lsPulse10ms = false := by
  simp [step, pulseNext, h]

theorem lsPulse30ms_clear {s : State} (i : Inputs) (h : s.lsPulse10ms = false) :
    (step s i).lsPulse30ms = false := by
  simp only [step, pulseNext, h, Bool.false_eq_true, if_false]
  split_ifs <;> rfl

/-- The line changes while the FSM waits for the PHY. -/
theorem In.lineChanges {t : Fsm} (ht : t = .chirpK0 ∨ t = .hsStart) {line line' : BitVec 2}
    (hne : line' ≠ line) {p : State × History} (h : In t line true p) :
    ∃ is, In t line' true (run machine p is) ∧ (run machine p is).1.lsPulse10ms = false := by
  have hold : ∀ {q : State × History} {i : Inputs}, i.reset = false → i.phyDoneI = false →
      (Kept q ∧ q.1.state = t ∧ q.1.hseQ = true) →
      Kept (machine q i) ∧ (machine q i).1.state = t ∧ (machine q i).1.hseQ = true := by
    intro q i hr hdone ⟨hkept, hs, hq⟩
    refine ⟨hkept.next fun hj => ?_, ?_⟩
    · rcases ht with rfl | rfl <;> simp [hs] at hj
    · rcases ht with rfl | rfl <;>
        simp only [machine, watched_fst, step, move, hr, Bool.false_eq_true, if_false] <;>
        split_ifs <;> simp [Move.stay, Move.write, moveNext, hs, hq, hdone]
  have hnew : (line'.setWidth 8).extractLsb' 0 2 ≠ p.1.lineStateQ := by
    rw [setWidth_line, h.line]
    exact hne
  have hchanged : (run machine p [turnaround, command line', quiet]).1.newLsQ = true := by
    simp [machine, step, turnaround, command, quiet, newLsW, rxCmdW, lineStateW, h.rxCmd, h.dir, hnew]
  refine ⟨[turnaround, command line', quiet, quiet], ?_, ?_⟩
  · obtain ⟨hkept, hs, hq⟩ := hold (i := quiet) rfl rfl <| hold (i := quiet) rfl rfl <|
      hold (i := command line') rfl rfl <| hold (i := turnaround) rfl rfl
        ⟨h.toKept, h.state, h.hse⟩
    exact ⟨⟨⟨hkept, rfl, rfl, bne_self_eq_false _⟩, rfl⟩, hs, setWidth_line line', hq⟩
  · exact lsPulse10ms_clear quiet hchanged

/-- The device starts its chirp when the line has been in SE0 for long enough. -/
theorem waitSe0_leadsTo : LeadsTo machine (In .waitSe0 0 false) (In .chirpK0 0 true) := by
  refine leadsTo_of_rank quiet (fun p => left25us p.1) fun p h => ?_
  cases hpulse : p.1.pulse25us
  · right
    refine ⟨h.next rfl rfl rfl ?_ ?_, left25us_next h.toKept rfl hpulse⟩ <;>
      simp [moveNext, h.state, h.newLs, h.hse, hpulse, Move.stay]
  · left
    apply h.next rfl rfl rfl <;> simp [moveNext, h.state, h.newLs, hpulse]

theorem chirpK0_leadsTo : LeadsTo machine (In .chirpK0 0 true) (In .chirpK0 1 true) := by
  intro p h
  obtain ⟨is, hnext, -⟩ := h.lineChanges (Or.inl rfl) (show (1 : BitVec 2) ≠ 0 by decide)
  exact ⟨is, hnext⟩

theorem chirpK0_done : LeadsTo machine (In .chirpK0 1 true) (In .chirpK1 1 true) := by
  refine LeadsTo.of_edge phyDone fun p h => ?_
  apply h.next rfl rfl rfl <;> simp [moveNext, h.state, h.hse, phyDone, Move.stay]

theorem chirpK1_leadsTo : LeadsTo machine (In .chirpK1 1 true) (In .chirpK2 1 true) := by
  refine leadsTo_of_rank quiet (fun p => left10ms p.1) fun p h => ?_
  cases hpulse : p.1.lsPulse10ms
  · right
    refine ⟨h.next rfl rfl rfl ?_ ?_, left10ms_next h.toCalm rfl hpulse⟩ <;>
      simp [moveNext, h.state, h.hse, hpulse, Move.stay]
  · left
    apply h.next rfl rfl rfl <;> simp [moveNext, h.state, h.hse, hpulse, Move.stay]

/-- The line is in J, and `count` frames have been counted; one more is, if `more`. -/
structure Frames (count : BitVec 3) (more : Bool) (p : State × History) : Prop extends Still p where
  state : p.1.state = .chirpKj
  line : p.1.lineStateQ = 1
  hse : p.1.hseQ = true
  newLs : p.1.newLsQ = more
  kjCount : p.1.kjCountQ = count
  kjEnded : p.1.kjEndedQ = (count == 3)

theorem chirpK2_leadsTo : LeadsTo machine (In .chirpK2 1 true) (Frames 0 false) := by
  refine LeadsTo.of_edge quiet fun p h => ?_
  obtain ⟨hstate, hhse, hline⟩ := h.toStill.moves (i := quiet) rfl rfl
  refine ⟨h.toStill.next rfl rfl, ?_, hline.trans h.line, ?_, ?_, ?_, ?_⟩
  · simpa [moveNext, h.state] using hstate
  · simpa [moveNext, h.state, h.hse, Move.stay] using hhse
  · exact (h.toCalm.next (i := quiet) rfl rfl rfl).newLs
  all_goals simp [machine, step, h.state]

/-- A frame is counted at the edge after it starts. -/
theorem Frames.next {count : BitVec 3} {more : Bool} {p : State × History} {i : Inputs}
    (h : Frames count more p) (hc : count ≠ 3) (hr : i.reset = false) (hd : i.ulpiDir = false) :
    Frames (if more then count + 1 else count) i.usbSofI (machine p i) := by
  obtain ⟨hstate, hhse, hline⟩ := h.toStill.moves hr hd
  have hended : p.1.kjEndedQ = false := h.kjEnded.trans (beq_eq_false_iff_ne.mpr hc)
  refine ⟨h.toStill.next hr hd, ?_, hline.trans h.line, ?_, ?_, ?_, ?_⟩
  · simpa [moveNext, h.state, hended, Move.stay] using hstate
  · simpa [moveNext, h.state, h.hse, Move.stay] using hhse
  · simp [machine, step, newLsW, h.rxCmd]
  · cases more <;>
      simp [machine, step, h.state, kjStepW, kjCnextW, h.newLs, h.line, h.kjCount]
  · cases more
    · simpa [machine, step, h.state, kjStepW, h.newLs, hended] using hc
    · simp [machine, step, h.state, kjStepW, kjCnextW, h.newLs, h.line, h.kjCount, hended]

theorem frames_leadsTo : LeadsTo machine (Frames 0 false) (Frames 3 false) := by
  intro p h
  have hone := (h.next (i := frame) (by decide) rfl rfl).next (i := frame) (by decide) rfl rfl
  have hthree := (hone.next (i := frame) (by decide) rfl rfl).next (i := quiet) (by decide) rfl rfl
  exact ⟨[frame, frame, frame, quiet], hthree⟩

/-- The handshake has succeeded when the line has then been in J for long enough. -/
theorem chirpKj_leadsTo : LeadsTo machine (Frames 3 false) (In .hsStart 1 true) := by
  refine leadsTo_of_rank quiet
    (fun p => if p.1.kjValidQ then 0 else left25us p.1 + 1) fun p h => ?_
  have hcalm : Calm p := ⟨h.toStill, h.newLs⟩
  obtain ⟨hstate, hhse, hline⟩ := h.toStill.moves (i := quiet) rfl rfl
  have hended : p.1.kjEndedQ = true := h.kjEnded
  have hkeep : (moveNext p.1 quiet).hseQ = true := by simp [moveNext, h.state, h.hse, Move.stay]
  cases hvalid : p.1.kjValidQ
  · right
    have hnext : (machine p quiet).1.kjValidQ = p.1.pulse25us := by
      cases hpulse : p.1.pulse25us <;> simp [machine, step, h.state, hpulse, h.newLs, hvalid]
    refine ⟨⟨h.toStill.next rfl rfl, ?_, hline.trans h.line, hhse.trans hkeep,
      (hcalm.next (i := quiet) rfl rfl rfl).newLs, ?_, ?_⟩, ?_⟩
    · simpa [moveNext, h.state, hvalid, Move.stay] using hstate
    · simp [machine, step, h.state, kjStepW, h.newLs, h.kjCount]
    · simp [machine, step, h.state, kjStepW, h.newLs, hended]
    · rw [hnext]
      cases hpulse : p.1.pulse25us
      · have hless := left25us_next (i := quiet) h.toKept rfl hpulse
        simpa using hless
      · simp
  · left
    refine ⟨hcalm.next rfl rfl rfl, ?_, hline.trans h.line, hhse.trans hkeep⟩
    simpa [moveNext, h.state, hended, hvalid] using hstate

/-- The machine is idle in high-speed mode, and the line is in SE0. -/
structure HighSpeed (t : Fsm) (p : State × History) : Prop extends In t 0 true p where
  mode : p.1.hsModeQ = true

theorem hsStart_leadsTo : LeadsTo machine (In .hsStart 1 true) (HighSpeed .idle) := by
  intro p h
  obtain ⟨is, hnext, hms⟩ := h.lineChanges (Or.inr rfl) (show (0 : BitVec 2) ≠ 1 by decide)
  have hidle : In .idle 0 true (machine (run machine p is) phyDone) := by
    apply hnext.next rfl rfl rfl <;>
      simp [moveNext, hnext.state, hnext.hse, phyDone, Move.stay, Move.write]
  have hwait : (machine (run machine p is) phyDone).1.lsPulse30ms = false :=
    lsPulse30ms_clear phyDone hms
  refine ⟨is ++ [phyDone, quiet], ?_⟩
  rw [run_append]
  refine ⟨hidle.next rfl rfl rfl ?_ ?_, ?_⟩
  · simp [moveNext, hidle.state, hwait, Move.stay]
  · simp [moveNext, hidle.state, hidle.hse, hwait, Move.stay]
  · refine (hsModeQ_step (i := quiet) rfl).trans ?_
    rw [if_neg (by simp [hidle.state]), if_pos ⟨hidle.state, hidle.hse⟩]

theorem HighSpeed.mode_next {t : Fsm} {p : State × History} (h : HighSpeed t p)
    (ht : t ≠ .fsStart) : (machine p quiet).1.hsModeQ = true := by
  have hs : p.1.state ≠ .fsStart := h.state ▸ ht
  simp [machine, step, quiet, hs, h.mode]

/-- The bus is reset, and the machine starts again. -/
theorem idle_leadsTo : LeadsTo machine (HighSpeed .idle) (HighSpeed .reset) := by
  refine leadsTo_of_rank quiet (fun p => left30ms p.1) fun p h => ?_
  have hmode := h.mode_next (by decide)
  cases hpulse : p.1.lsPulse30ms
  · right
    refine ⟨⟨h.toIn.next rfl rfl rfl ?_ ?_, hmode⟩, left30ms_next h.toCalm rfl hpulse⟩ <;>
      simp [moveNext, h.state, h.hse, hpulse, Move.stay]
  · left
    refine ⟨h.toIn.next rfl rfl rfl ?_ ?_, hmode⟩ <;>
      simp [moveNext, h.state, h.line, h.hse, hpulse, Move.stay]

theorem reset_leadsTo : LeadsTo machine (HighSpeed .reset) (HighSpeed .fsStart) := by
  refine leadsTo_of_rank quiet (fun p => left25us p.1) fun p h => ?_
  have hmode := h.mode_next (by decide)
  cases hpulse : p.1.pulse25us
  · right
    refine ⟨⟨h.toIn.next rfl rfl rfl ?_ ?_, hmode⟩, left25us_next h.toKept rfl hpulse⟩ <;>
      simp [moveNext, h.state, h.hse, hpulse, Move.stay]
  · left
    refine ⟨h.toIn.next rfl rfl rfl ?_ ?_, hmode⟩ <;>
      simp [moveNext, h.state, h.hse, hpulse, Move.stay]

/-- The PHY is set to full-speed mode, and the line is in SE0. -/
def fullSpeedRun : List Inputs :=
  [phyDone, phyDone, turnaround, command 0, quiet, quiet]

theorem in_fullSpeedRun : In .waitSe0 0 false (reached default default fullSpeedRun) := by
  refine ⟨⟨⟨⟨?_, ?_, ?_, ?_⟩, rfl, rfl, rfl⟩, rfl⟩, rfl, rfl, rfl⟩ <;> decide

theorem highSpeed_reached : ∃ is, HighSpeed .idle (reached default default is) := by
  have hrun := waitSe0_leadsTo.trans <| chirpK0_leadsTo.trans <| chirpK0_done.trans <|
    chirpK1_leadsTo.trans <| chirpK2_leadsTo.trans <| frames_leadsTo.trans <|
    chirpKj_leadsTo.trans hsStart_leadsTo
  obtain ⟨is, h⟩ := hrun _ in_fullSpeedRun
  exact ⟨fullSpeedRun ++ is, by rwa [reached, run_append]⟩

/-- The line has changed to J three times in a completed handshake. -/
def ThreeChanges (events : List Event) : Prop :=
  List.Sublist [Event.k0, .k1, .k2, .kj, .toJ, .toJ, .toJ, .done] events

end MiscVerilogCores.LineState
