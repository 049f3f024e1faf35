import MiscVerilogCores.Model.Ddr3Ddl
import MiscVerilogCores.Verification.Ddr3.Requests

/-! # Command spacing

The data layer makes each command wait for the recovery time of the one before, whatever
the scheduler asks for next. The delay that is loaded depends on the state the data layer
is in, so the proof follows both state machines. -/

namespace MiscVerilogCores.Ddr3Link

open Clocked Ddr3Settings

open Ddr3Ddl (oneHot delayFor stateFor)

open Ddr3Fsm (Kind autoPrecharge)

variable {DDR_FREQ_MHZ PSB COL : ℕ}

/-! ## The commands of a run -/

/-- A command as the data layer takes it, and whether a row was open then. -/
structure Event where
  time : ℕ
  cmd : Ddr3Cmd
  auto : Bool
  rowOpen : Bool
deriving DecidableEq

structure Log where
  now : ℕ
  rowOpen : Bool
  events : List Event
deriving DecidableEq

/-- An ACTIVATE opens a row, an auto-precharge or a PRECHARGE closes it. -/
def rowAfter (rowOpen : Bool) (cmd : Ddr3Cmd) (auto : Bool) : Bool :=
  match cmd with
  | .actv => true
  | .read | .writ => rowOpen && !auto
  | .prec => false
  | _ => rowOpen

namespace Log

def start : Log := ⟨0, false, []⟩

def event (m : Log) (s : State DDR_FREQ_MHZ PSB COL) : Event :=
  ⟨m.now, s.fsm.cmdQ, Ddr3Fsm.autoPrecharge s.fsm, m.rowOpen⟩

def watch (m : Log) (s : State DDR_FREQ_MHZ PSB COL) (i : Inputs PSB COL) : Log where
  now := m.now + 1
  rowOpen :=
    if Ddr3Fsm.accepts s.fsm (fsmInputs s i) then
      rowAfter m.rowOpen s.fsm.cmdQ (Ddr3Fsm.autoPrecharge s.fsm)
    else m.rowOpen
  events :=
    m.events ++ if Ddr3Fsm.accepts s.fsm (fsmInputs s i) then [m.event s] else []

end Log

/-! ## The rules -/

/-- The cycles that must lie between two commands. -/
def gap (DDR_FREQ_MHZ : ℕ) (x y : Event) : ℕ :=
  match x.cmd, y.cmd with
  | .actv, .read | .actv, .writ => cyclesActToRW DDR_FREQ_MHZ
  | .read, .read | .writ, .writ => ddrCccd
  | .read, .actv | .read, .refr => if x.auto then cyclesRdaToAct DDR_FREQ_MHZ else 0
  | .writ, .actv | .writ, .refr => if x.auto then cyclesWraToAct DDR_FREQ_MHZ else 0
  | .refr, .actv | .refr, .refr => cyclesRefToAct DDR_FREQ_MHZ
  | _, _ => 0

structure CommandSpacing (DDR_FREQ_MHZ : ℕ) (m : Log) : Prop where
  gaps : m.events.Pairwise fun x y => x.time + gap DDR_FREQ_MHZ x y ≤ y.time
  closed : ∀ e ∈ m.events, e.cmd = .actv ∨ e.cmd = .refr → e.rowOpen = false

/-- A column command that leaves its row open is followed by a request of the same kind. -/
def Supplied (s : State DDR_FREQ_MHZ PSB COL) (i : Inputs PSB COL) : Prop :=
  s.ddl.ready = true → s.fsm.preQ = 0 →
    (s.fsm.state = .read → i.memRdreqI = true) ∧ (s.fsm.state = .writ → i.memWrreqI = true)

instance (s : State DDR_FREQ_MHZ PSB COL) (i : Inputs PSB COL) : Decidable (Supplied s i) :=
  inferInstanceAs (Decidable (_ → _ → _))

/-- The cycles for which a command keeps off every other. -/
def need (DDR_FREQ_MHZ : ℕ) (cmd : Ddr3Cmd) (auto : Bool) : ℕ :=
  match cmd with
  | .actv => cyclesActToRW DDR_FREQ_MHZ
  | .read => if auto then cyclesRdaToAct DDR_FREQ_MHZ else ddrCccd
  | .writ => if auto then cyclesWraToAct DDR_FREQ_MHZ else ddrCccd
  | .refr => cyclesRefToAct DDR_FREQ_MHZ
  | _ => 0

theorem gap_le_need (x y : Event) : gap DDR_FREQ_MHZ x y ≤ need DDR_FREQ_MHZ x.cmd x.auto := by
  rcases x with ⟨tx, xc, xa, xr⟩
  rcases y with ⟨ty, yc, ya, yr⟩
  have hrda : ddrCccd ≤ cyclesRdaToAct DDR_FREQ_MHZ := Nat.le_add_right _ _
  have hwra : ddrCccd ≤ cyclesWraToAct DDR_FREQ_MHZ := by
    simp only [cyclesWraToAct, cyclesWrToPre, ddrCccd, ddrCwl]
    omega
  cases xc <;> cases yc <;> cases xa <;> simp [gap, need, hrda, hwra]

/-! ## The data layer while it waits -/

/-- The data layer takes no command in the next `n` cycles. -/
def QuietFor (d : Ddr3Ddl.State DDR_FREQ_MHZ) (n : ℕ) : Prop :=
  0 < n → d.ready = false ∧ ∀ j, j + 1 < n → d.delay.any (·.getLsbD j) = false

theorem quietFor_zero (d : Ddr3Ddl.State DDR_FREQ_MHZ) : QuietFor d 0 :=
  fun h => absurd h (Nat.lt_irrefl 0)

theorem QuietFor.eq_zero {d : Ddr3Ddl.State DDR_FREQ_MHZ} {n : ℕ} (h : QuietFor d n)
    (hrdy : d.ready = true) : n = 0 := by
  by_contra hn
  simp [(h (Nat.pos_of_ne_zero hn)).1] at hrdy

theorem QuietFor.wait {d : Ddr3Ddl.State DDR_FREQ_MHZ} {n : ℕ} (h : QuietFor d n)
    (hcount : d.count = none) : QuietFor (Ddr3Ddl.wait DDR_FREQ_MHZ d) (n - 1) := by
  intro hn
  have hd := (h (by omega)).2
  have hready : (Ddr3Ddl.wait DDR_FREQ_MHZ d).ready = d.delay.any (·.getLsbD 0) := by
    simp [Ddr3Ddl.wait, hcount]
  refine ⟨?_, fun j hj => ?_⟩
  · rw [hready]
    exact hd 0 (by omega)
  · have hbit := hd (1 + j) (by omega)
    cases hdelay : d.delay with
    | none => simp [Ddr3Ddl.wait, hdelay]
    | some v => simpa [Ddr3Ddl.wait, hdelay] using hbit

theorem getLsbD_oneHot {j k : ℕ} (h : j < k) :
    (oneHot DDR_FREQ_MHZ k).getLsbD j = false := by
  simp [oneHot, BitVec.getLsbD_ofNat, Nat.testBit_shiftLeft, Nat.not_le.mpr h]

/-- A taken command keeps the data layer busy for one cycle more than its delay is shifted. -/
theorem quietFor_oneHot {d : Ddr3Ddl.State DDR_FREQ_MHZ} {k : ℕ} (hrdy : d.ready = false)
    (hdelay : d.delay = some (oneHot DDR_FREQ_MHZ k)) : QuietFor d (k + 1) := by
  refine fun _ => ⟨hrdy, fun j hj => ?_⟩
  simp [hdelay, getLsbD_oneHot (show j < k by omega)]

/-! ## Invariant -/

/-- No command of an open row is due in this state of the data layer. -/
def Resting (c : Ddr3Cmd) : Prop := c = .noop ∨ c = .refr

/-- The scheduler issues the column commands of a burst. -/
structure Bursting (s : State 100 PSB 10) (m : Log) (k : Kind) : Prop where
  reqQ : s.fsm.reqQ = true
  cmdQ : s.fsm.cmdQ = k.cmd
  rowOpen : m.rowOpen = true
  ddl : s.ddl.state = .actv ∨ s.ddl.state = k.cmd
  last : ∃ l, s.fsm.preQ = Ddr3Fsm.precharge l ∧ autoPrecharge s.fsm = l

/-- What each state of the scheduler says about the data layer and the row. -/
def PhaseInv (s : State 100 PSB 10) (m : Log) : Prop :=
  match s.fsm.state with
  | .idle => s.fsm.reqQ = false ∧ m.rowOpen = false ∧ Resting s.ddl.state
  | .actv =>
      s.fsm.reqQ = true ∧ s.fsm.cmdQ = .actv ∧ m.rowOpen = false ∧ Resting s.ddl.state ∧
        ∃ l, s.fsm.preQ = Ddr3Fsm.precharge l
  | .read => Bursting s m .rd
  | .writ => Bursting s m .wr
  | .refr => s.fsm.reqQ = true ∧ s.fsm.cmdQ = .refr ∧ m.rowOpen = false ∧ Resting s.ddl.state

structure Inv (s : State 100 PSB 10) (m : Log) : Prop where
  busy : s.ddl.busy = false
  count : s.ddl.count = none
  phase : PhaseInv s m
  quiet : ∃ n, QuietFor s.ddl n ∧ ∀ e ∈ m.events, e.time + need 100 e.cmd e.auto ≤ m.now + n
  spacing : CommandSpacing 100 m

/-! ## One step of the data layer -/

section Step

variable {s : State 100 PSB 10} {i : Inputs PSB 10} {m : Log}

theorem accepts_eq : Ddr3Fsm.accepts s.fsm (fsmInputs s i) = (s.fsm.reqQ && s.ddl.ready) := rfl

theorem ddl_waiting (hrdy : s.ddl.ready = false) : (step s i).ddl = Ddr3Ddl.wait 100 s.ddl := by
  simp [step, Ddr3Ddl.step, ddlInputs, hrdy]

theorem ddl_taken (hbusy : s.ddl.busy = false) (hrdy : s.ddl.ready = true)
    (hreq : s.fsm.reqQ = true) :
    (step s i).ddl = Ddr3Ddl.takeCommand 100 s.ddl (ddlInputs s) := by
  simp [step, Ddr3Ddl.step, ddlInputs, hrdy, hbusy, hreq]

theorem ddl_resting (hbusy : s.ddl.busy = false) (hrdy : s.ddl.ready = true)
    (hreq : s.fsm.reqQ = false) :
    (step s i).ddl =
      { state := .noop, ready := true, busy := false, delay := some 0, count := none } := by
  simp [step, Ddr3Ddl.step, ddlInputs, hrdy, hbusy, hreq]

/-- Every command the scheduler presents loads a delay of its recovery time. -/
theorem PhaseInv.loads (h : PhaseInv s m) (hreq : s.fsm.reqQ = true) :
    ∃ k, delayFor 100 s.ddl.state s.fsm.cmdQ (autoPrecharge s.fsm) = some (oneHot 100 k) ∧
      need 100 s.fsm.cmdQ (autoPrecharge s.fsm) ≤ k + 2 ∧ s.fsm.cmdQ ≠ .zqcl := by
  rw [PhaseInv] at h
  cases hstate : s.fsm.state <;> rw [hstate] at h
  case idle => simp [h.1] at hreq
  case actv =>
    obtain ⟨-, hcmd, -, hddl, -⟩ := h
    refine ⟨0, ?_, ?_, ?_⟩
    · rcases hddl with hd | hd <;> rw [hd, hcmd] <;> rfl
    · rw [hcmd]
      cases autoPrecharge s.fsm <;> decide
    · simp [hcmd]
  case refr =>
    obtain ⟨-, hcmd, -, hddl⟩ := h
    refine ⟨14, ?_, ?_, ?_⟩
    · rcases hddl with hd | hd <;> rw [hd, hcmd] <;> rfl
    · rw [hcmd]
      cases autoPrecharge s.fsm <;> decide
    · simp [hcmd]
  case read =>
    refine ⟨if autoPrecharge s.fsm then 5 else 2, ?_, ?_, ?_⟩
    · rcases h.ddl with hd | hd <;> rw [hd, h.cmdQ] <;> cases autoPrecharge s.fsm <;> rfl
    · rw [h.cmdQ]
      cases autoPrecharge s.fsm <;> decide
    · simp [h.cmdQ, Kind.cmd]
  case writ =>
    refine ⟨if autoPrecharge s.fsm then 15 else 2, ?_, ?_, ?_⟩
    · rcases h.ddl with hd | hd <;> rw [hd, h.cmdQ] <;> cases autoPrecharge s.fsm <;> rfl
    · rw [h.cmdQ]
      cases autoPrecharge s.fsm <;> decide
    · simp [h.cmdQ, Kind.cmd]

theorem Inv.takes (h : Inv s m) (hrdy : s.ddl.ready = true) (hreq : s.fsm.reqQ = true) :
    (step s i).ddl.state = stateFor s.ddl.state s.fsm.cmdQ (autoPrecharge s.fsm) ∧
      (step s i).ddl.busy = false ∧ (step s i).ddl.count = none ∧
      ∃ k, QuietFor (step s i).ddl (k + 1) ∧
        need 100 s.fsm.cmdQ (autoPrecharge s.fsm) ≤ k + 2 := by
  obtain ⟨k, hdelay, hneed, hcmd⟩ := h.phase.loads hreq
  have hcal : Ddr3Ddl.calibrates s.ddl.state s.fsm.cmdQ = false := by
    simp [Ddr3Ddl.calibrates, hcmd]
  rw [ddl_taken h.busy hrdy hreq]
  refine ⟨rfl, hcal, ?_, k, quietFor_oneHot rfl hdelay, hneed⟩
  simp [Ddr3Ddl.takeCommand, ddlInputs, hcal]

/-- The data layer keeps its state while it waits, and rests when it is asked for nothing. -/
theorem Inv.keeps (h : Inv s m) (hno : (s.fsm.reqQ && s.ddl.ready) = false) :
    ((step s i).ddl.state = s.ddl.state ∨ (step s i).ddl.state = .noop) ∧
      (s.ddl.ready = false → (step s i).ddl.state = s.ddl.state) ∧
      (step s i).ddl.busy = false ∧ (step s i).ddl.count = none ∧
      ∀ n, QuietFor s.ddl n → QuietFor (step s i).ddl (n - 1) := by
  cases hrdy : s.ddl.ready
  · rw [ddl_waiting hrdy]
    refine ⟨Or.inl rfl, fun _ => rfl, ?_, ?_, fun n hn => hn.wait h.count⟩
    · simp [Ddr3Ddl.wait, h.count, h.busy]
    · simp [Ddr3Ddl.wait, h.count, h.busy]
  · have hreq : s.fsm.reqQ = false := by simpa [hrdy] using hno
    rw [ddl_resting h.busy hrdy hreq]
    refine ⟨Or.inr rfl, fun hf => by simp at hf, rfl, rfl, fun n hn => ?_⟩
    rw [hn.eq_zero hrdy]
    exact quietFor_zero _

theorem rowOpen_taken (hrdy : s.ddl.ready = true) (hreq : s.fsm.reqQ = true) :
    (m.watch s i).rowOpen = rowAfter m.rowOpen s.fsm.cmdQ (autoPrecharge s.fsm) := by
  simp [Log.watch, accepts_eq, hrdy, hreq]

theorem rowOpen_kept (hno : (s.fsm.reqQ && s.ddl.ready) = false) :
    (m.watch s i).rowOpen = m.rowOpen := by
  simp [Log.watch, accepts_eq, hno]

/-- While the data layer is not ready, it keeps its state and the row. -/
theorem Inv.stalled (h : Inv s m) (hrdy : s.ddl.ready = false) :
    (step s i).ddl.state = s.ddl.state ∧ (m.watch s i).rowOpen = m.rowOpen := by
  have hno : (s.fsm.reqQ && s.ddl.ready) = false := by simp [hrdy]
  exact ⟨(h.keeps hno).2.1 hrdy, rowOpen_kept hno⟩

/-! ## One step of the scheduler -/

theorem Inv.idle_next (h : Inv s m) (hstate : s.fsm.state = .idle) :
    PhaseInv (step s i) (m.watch s i) := by
  obtain ⟨hreq, hrow, hddl⟩ : s.fsm.reqQ = false ∧ m.rowOpen = false ∧ Resting s.ddl.state := by
    simpa [PhaseInv, hstate] using h.phase
  have hno : (s.fsm.reqQ && s.ddl.ready) = false := by simp [hreq]
  have hrow' : (m.watch s i).rowOpen = false := by rw [rowOpen_kept hno, hrow]
  have hddl' : Resting (step s i).ddl.state := by
    rcases (h.keeps (i := i) hno).1 with hs | hs <;> rw [hs]
    · exact hddl
    · exact Or.inl rfl
  have hfsm : (step s i).fsm = Ddr3Fsm.idleNext s.fsm (fsmInputs s i) := by
    simp [step, Ddr3Fsm.step, hstate, fsmInputs]
  rw [PhaseInv]
  cases href : i.ddlRefI
  · cases hrd : i.memRdreqI
    · cases hwr : i.memWrreqI
      · simp [hfsm, Ddr3Fsm.idleNext, fsmInputs, href, hrd, hwr, hstate, hreq, hrow', hddl']
      · simp [hfsm, Ddr3Fsm.idleNext, fsmInputs, href, hrd, hwr, hrow', hddl']
    · simp [hfsm, Ddr3Fsm.idleNext, fsmInputs, href, hrd, hrow', hddl']
  · simp [hfsm, Ddr3Fsm.idleNext, fsmInputs, href, hrow', hddl']

theorem stateFor_resting {c : Ddr3Cmd} (h : Resting c) (cmd : Ddr3Cmd) (auto : Bool) :
    stateFor c cmd auto = cmd := by
  rcases h with rfl | rfl <;> rfl

theorem Inv.actv_next (h : Inv s m) (hstate : s.fsm.state = .actv) :
    PhaseInv (step s i) (m.watch s i) := by
  obtain ⟨hreq, hcmd, hrow, hddl, l, hpre⟩ : s.fsm.reqQ = true ∧ s.fsm.cmdQ = .actv ∧
      m.rowOpen = false ∧ Resting s.ddl.state ∧ ∃ l, s.fsm.preQ = Ddr3Fsm.precharge l := by
    simpa [PhaseInv, hstate] using h.phase
  have hfsm : (step s i).fsm = Ddr3Fsm.actvNext s.fsm (fsmInputs s i) := by
    simp [step, Ddr3Fsm.step, hstate, fsmInputs]
  rw [PhaseInv]
  cases hrdy : s.ddl.ready
  · obtain ⟨hkeep, hrow'⟩ := h.stalled (i := i) hrdy
    simp only [hfsm, Ddr3Fsm.actvNext, fsmInputs, hrdy, hstate, Bool.false_eq_true, if_false]
    refine ⟨hreq, hcmd, ?_, ?_, l, hpre⟩
    · rw [hrow', hrow]
    · rw [hkeep]
      exact hddl
  · obtain ⟨hs, -⟩ := h.takes (i := i) hrdy hreq
    rw [hcmd, stateFor_resting hddl] at hs
    have hrow' : (m.watch s i).rowOpen = true := by rw [rowOpen_taken hrdy hreq, hcmd, rowAfter]
    have hburst (k : Kind) (hk : (step s i).fsm.cmdQ = k.cmd) : Bursting (step s i) (m.watch s i) k := by
      refine ⟨?_, hk, hrow', Or.inl hs, l, ?_, ?_⟩
      · simp [hfsm, Ddr3Fsm.actvNext, fsmInputs, hrdy, hreq]
      · simp [hfsm, Ddr3Fsm.actvNext, fsmInputs, hrdy, hpre]
      · rw [autoPrecharge, hfsm]
        simp only [Ddr3Fsm.actvNext, fsmInputs, hrdy, if_true, hpre]
        exact Ddr3Fsm.getLsbD_precharge l _
    cases hwen : s.fsm.wenQ
    · have hk : (step s i).fsm.cmdQ = Kind.rd.cmd ∧ (step s i).fsm.state = .read := by
        simp [hfsm, Ddr3Fsm.actvNext, fsmInputs, hrdy, hwen, Kind.cmd]
      rw [hk.2]
      exact hburst .rd hk.1
    · have hk : (step s i).fsm.cmdQ = Kind.wr.cmd ∧ (step s i).fsm.state = .writ := by
        simp [hfsm, Ddr3Fsm.actvNext, fsmInputs, hrdy, hwen, Kind.cmd]
      rw [hk.2]
      exact hburst .wr hk.1

theorem Inv.refr_next (h : Inv s m) (hstate : s.fsm.state = .refr) :
    PhaseInv (step s i) (m.watch s i) := by
  obtain ⟨hreq, hcmd, hrow, hddl⟩ : s.fsm.reqQ = true ∧ s.fsm.cmdQ = .refr ∧
      m.rowOpen = false ∧ Resting s.ddl.state := by
    simpa [PhaseInv, hstate] using h.phase
  have hfsm : (step s i).fsm = Ddr3Fsm.refrNext s.fsm (fsmInputs s i) := by
    simp [step, Ddr3Fsm.step, hstate, fsmInputs]
  rw [PhaseInv]
  cases hrdy : s.ddl.ready
  · obtain ⟨hkeep, hrow'⟩ := h.stalled (i := i) hrdy
    rw [hrow] at hrow'
    rw [← hkeep] at hddl
    cases href : i.ddlRefI
    · simp [hfsm, Ddr3Fsm.refrNext, fsmInputs, href, hrow', hddl]
    · simp [hfsm, Ddr3Fsm.refrNext, fsmInputs, href, hrdy, hstate, hreq, hcmd, hrow', hddl]
  · obtain ⟨hs, -⟩ := h.takes (i := i) hrdy hreq
    rw [hcmd, stateFor_resting hddl] at hs
    have hrow' : (m.watch s i).rowOpen = false := by
      simp [rowOpen_taken hrdy hreq, hcmd, rowAfter, hrow]
    simp [hfsm, Ddr3Fsm.refrNext, fsmInputs, hrdy, hrow', hs, Resting]

theorem stateFor_burst {c : Ddr3Cmd} (k : Kind) (h : c = .actv ∨ c = k.cmd) (auto : Bool) :
    stateFor c k.cmd auto = if auto then .noop else k.cmd := by
  rcases h with rfl | rfl <;> cases k <;> cases auto <;> rfl

theorem rowAfter_column (k : Kind) (auto : Bool) : rowAfter true k.cmd auto = !auto := by
  cases k <;> rfl

/-- The scheduler in a burst whose last command was taken. -/
theorem Bursting.stops (k : Kind) (hstate : s.fsm.state = k.phase) (hrdy : s.ddl.ready = true)
    (hpre : s.fsm.preQ = Ddr3Fsm.precharge true) :
    (step s i).fsm.state = .idle ∧ (step s i).fsm.reqQ = false := by
  have hne : ¬ s.fsm.preQ = 0#(PSB + 1) := by simp [hpre, Ddr3Fsm.precharge_eq_zero]
  cases k <;> simp [step, Ddr3Fsm.step, Ddr3Fsm.readNext, Ddr3Fsm.writNext, fsmInputs, hstate,
    Kind.phase, hrdy, hne]

/-- The scheduler in a burst that goes on. -/
theorem Bursting.continues (k : Kind) (hstate : s.fsm.state = k.phase)
    (hrdy : s.ddl.ready = true) (hpre : s.fsm.preQ = Ddr3Fsm.precharge false)
    (hsup : Supplied s i) :
    (step s i).fsm.state = k.phase ∧ (step s i).fsm.reqQ = s.fsm.reqQ ∧
      (step s i).fsm.cmdQ = k.cmd ∧
      ∃ l, (step s i).fsm.preQ = Ddr3Fsm.precharge l ∧ autoPrecharge (step s i).fsm = l := by
  have hz : s.fsm.preQ = 0#(PSB + 1) := by rw [hpre, Ddr3Fsm.precharge_eq_zero]
  have hmore := hsup hrdy hz
  have hz' : (s.fsm.preQ == 0) = true := by simp [hz]
  cases k
  · have hrd := hmore.1 hstate
    have hfsm : (step s i).fsm = Ddr3Fsm.readNext s.fsm (fsmInputs s i) := by
      simp [step, Ddr3Fsm.step, hstate, fsmInputs, Kind.phase]
    simp only [hfsm, Ddr3Fsm.readNext, fsmInputs, hrdy, hz', hrd, Bool.and_true, if_true]
    exact ⟨hstate, trivial, rfl, i.memRdlstI, rfl, Ddr3Fsm.getLsbD_precharge _ _⟩
  · have hwr := hmore.2 hstate
    have hfsm : (step s i).fsm = Ddr3Fsm.writNext s.fsm (fsmInputs s i) := by
      simp [step, Ddr3Fsm.step, hstate, fsmInputs, Kind.phase]
    simp only [hfsm, Ddr3Fsm.writNext, fsmInputs, hrdy, hz', hwr, Bool.and_true, if_true]
    exact ⟨hstate, trivial, rfl, i.memWrlstI, rfl, Ddr3Fsm.getLsbD_precharge _ _⟩

theorem Bursting.stalls (k : Kind) (hstate : s.fsm.state = k.phase)
    (hrdy : s.ddl.ready = false) :
    (step s i).fsm = { s.fsm with wrack := false, rdack := false } := by
  cases k <;> simp [step, Ddr3Fsm.step, Ddr3Fsm.readNext, Ddr3Fsm.writNext, fsmInputs, hstate,
    Kind.phase, hrdy]

theorem Inv.burst_next (h : Inv s m) (k : Kind) (hstate : s.fsm.state = k.phase)
    (hb : Bursting s m k) (hsup : Supplied s i) : PhaseInv (step s i) (m.watch s i) := by
  obtain ⟨l, hpre, hauto⟩ := hb.last
  cases hrdy : s.ddl.ready
  · obtain ⟨hkeep, hrow⟩ := h.stalled (i := i) hrdy
    have hfsm := Bursting.stalls (i := i) k hstate hrdy
    have hnext : Bursting (step s i) (m.watch s i) k := by
      refine ⟨?_, ?_, ?_, ?_, l, ?_, ?_⟩
      · rw [hfsm]
        exact hb.reqQ
      · rw [hfsm]
        exact hb.cmdQ
      · rw [hrow, hb.rowOpen]
      · rw [hkeep]
        exact hb.ddl
      · rw [hfsm]
        exact hpre
      · rw [hfsm]
        exact hauto
    have hphase : (step s i).fsm.state = k.phase := by rw [hfsm, hstate]
    rw [PhaseInv, hphase]
    cases k <;> exact hnext
  · obtain ⟨hs, -⟩ := h.takes (i := i) hrdy hb.reqQ
    have hrow := rowOpen_taken (m := m) (i := i) hrdy hb.reqQ
    rw [hb.cmdQ, stateFor_burst k hb.ddl, hauto] at hs
    rw [hb.rowOpen, hb.cmdQ, rowAfter_column, hauto] at hrow
    cases l
    · obtain ⟨hphase, hreq, hcmd, hlast⟩ := Bursting.continues k hstate hrdy hpre hsup
      have hnext : Bursting (step s i) (m.watch s i) k :=
        ⟨hreq.trans hb.reqQ, hcmd, hrow, Or.inr hs, hlast⟩
      rw [PhaseInv, hphase]
      cases k <;> exact hnext
    · obtain ⟨hphase, hreq⟩ := Bursting.stops (i := i) k hstate hrdy hpre
      rw [PhaseInv, hphase]
      exact ⟨hreq, hrow, Or.inl hs⟩

theorem Inv.phase_next (h : Inv s m) (hsup : Supplied s i) :
    PhaseInv (step s i) (m.watch s i) := by
  have hphase := h.phase
  rw [PhaseInv] at hphase
  cases hstate : s.fsm.state <;> rw [hstate] at hphase
  case idle => exact h.idle_next hstate
  case read => exact h.burst_next .rd hstate hphase hsup
  case writ => exact h.burst_next .wr hstate hphase hsup
  case actv => exact h.actv_next hstate
  case refr => exact h.refr_next hstate

/-- An ACTIVATE or REFRESH is only presented while the row is closed. -/
theorem PhaseInv.closed (h : PhaseInv s m)
    (hcmd : s.fsm.cmdQ = .actv ∨ s.fsm.cmdQ = .refr) : m.rowOpen = false := by
  rw [PhaseInv] at h
  cases hstate : s.fsm.state <;> rw [hstate] at h
  case idle => exact h.2.1
  case actv => exact h.2.2.1
  case refr => exact h.2.2.1
  case read => simp [h.cmdQ, Kind.cmd] at hcmd
  case writ => simp [h.cmdQ, Kind.cmd] at hcmd

theorem Inv.spacing_taken (h : Inv s m) (hrdy : s.ddl.ready = true) (hreq : s.fsm.reqQ = true) :
    CommandSpacing 100 (m.watch s i) := by
  have hevents : (m.watch s i).events = m.events ++ [m.event s] := by
    simp [Log.watch, accepts_eq, hrdy, hreq]
  obtain ⟨n, hquiet, hdue⟩ := h.quiet
  rw [hquiet.eq_zero hrdy] at hdue
  refine ⟨?_, ?_⟩
  · rw [hevents, List.pairwise_append]
    refine ⟨h.spacing.gaps, List.pairwise_singleton _ _, fun x hx y hy => ?_⟩
    obtain rfl : y = m.event s := by simpa using hy
    have hgap : gap 100 x (m.event s) ≤ need 100 x.cmd x.auto := gap_le_need x (m.event s)
    have hx := hdue x hx
    simp only [Log.event] at hgap ⊢
    omega
  · rw [hevents]
    intro e he hcmd
    rcases List.mem_append.mp he with he | he
    · exact h.spacing.closed e he hcmd
    · obtain rfl : e = m.event s := by simpa using he
      exact h.phase.closed hcmd

theorem Inv.next (h : Inv s m) (hsup : Supplied s i) : Inv (step s i) (m.watch s i) := by
  obtain ⟨n, hquiet, hdue⟩ := h.quiet
  by_cases hacc : (s.fsm.reqQ && s.ddl.ready) = true
  · obtain ⟨hreq, hrdy⟩ := Bool.and_eq_true _ _ ▸ hacc
    obtain ⟨-, hbusy, hcount, k, hk, hneed⟩ := h.takes (i := i) hrdy hreq
    refine ⟨hbusy, hcount, h.phase_next hsup, ⟨k + 1, hk, fun e he => ?_⟩, h.spacing_taken hrdy hreq⟩
    have hevents : (m.watch s i).events = m.events ++ [m.event s] := by
      simp [Log.watch, accepts_eq, hrdy, hreq]
    rw [hquiet.eq_zero hrdy] at hdue
    have hnow : (m.watch s i).now = m.now + 1 := rfl
    rw [hevents] at he
    rcases List.mem_append.mp he with he | he
    · have hold := hdue e he
      omega
    · obtain rfl : e = m.event s := by simpa using he
      simp only [Log.event, hnow]
      omega
  · have hno : (s.fsm.reqQ && s.ddl.ready) = false := by simpa using hacc
    obtain ⟨-, -, hbusy, hcount, hk⟩ := h.keeps (i := i) hno
    have hevents : (m.watch s i).events = m.events := by simp [Log.watch, accepts_eq, hno]
    refine ⟨hbusy, hcount, h.phase_next hsup, ⟨n - 1, hk n hquiet, fun e he => ?_⟩, ?_⟩
    · rw [hevents] at he
      have hold := hdue e he
      have hnow : (m.watch s i).now = m.now + 1 := rfl
      omega
    · exact ⟨by rw [hevents]; exact h.spacing.gaps, by rw [hevents]; exact h.spacing.closed⟩

end Step

/-! ## Runs -/

/-- The scheduler out of reset, with an idle configuration port, on a data layer to which the
configuration has given its last command. -/
def configured (s : Ddr3Fsm.State PSB COL) (cmd : Ddr3Cmd) (ba : BitVec 3)
    (adr : BitVec (PSB + 1 + COL)) (ready : Bool)
    (delay : Option (BitVec (Ddr3Ddl.delayBits DDR_FREQ_MHZ))) : State DDR_FREQ_MHZ PSB COL where
  fsm := (Ddr3Fsm.System.start s cmd ba adr fun _ => []).fsm
  ddl := { state := .noop, ready := ready, busy := false, count := none, delay := delay }

/-- That command is a READ with auto-precharge, which leaves the data layer so. -/
theorem configured_of_read {ROW : ℕ} (d : Ddr3Ddl.State DDR_FREQ_MHZ) (i : Ddr3Ddl.Inputs ROW)
    (hstate : d.state = .actv) (hcmd : i.ctlCmdI = .read) (hauto : i.ctlAdrI.getLsbD 10 = true) :
    Ddr3Ddl.takeCommand DDR_FREQ_MHZ d i =
      { state := .noop, ready := false, busy := false, count := none,
        delay := some (Ddr3Ddl.delayRdaToAct DDR_FREQ_MHZ) } := by
  simp [Ddr3Ddl.takeCommand, hstate, hcmd, hauto, stateFor, Ddr3Ddl.calibrates, delayFor]

/-- The scheduler, the data layer and the log of their commands after some cycles. -/
def logged (s : State DDR_FREQ_MHZ PSB COL) (is : List (Inputs PSB COL)) :
    State DDR_FREQ_MHZ PSB COL × Log :=
  run (watched step Log.watch) (s, Log.start) is

section Runs

variable (s : Ddr3Fsm.State PSB 10) (cmd : Ddr3Cmd) (ba : BitVec 3) (adr : BitVec (PSB + 1 + 10))
  (ready : Bool) (delay : Option (BitVec (Ddr3Ddl.delayBits 100))) (is : List (Inputs PSB 10))

theorem inv_configured : Inv (configured s cmd ba adr ready delay) Log.start := by
  refine ⟨rfl, rfl, ⟨rfl, rfl, Or.inl rfl⟩, ⟨0, quietFor_zero _, ?_⟩, ⟨List.Pairwise.nil, ?_⟩⟩
  · simp [Log.start]
  · simp [Log.start]

/-- At 100 MHz the data layer keeps the commands of the scheduler apart as the memory needs it,
and takes an ACTIVATE or REFRESH only when no row is open. -/
theorem commandSpacing
    (h : Along step Supplied (configured s cmd ba adr ready delay) is) :
    CommandSpacing 100 (logged (configured s cmd ba adr ready delay) is).2 := by
  have hinv := watched_invariant (p := (configured s cmd ba adr ready delay, Log.start)) Inv
    (fun _ _ _ hs hi => hs.next hi) (inv_configured s cmd ba adr ready delay) h
  exact hinv.spacing

end Runs

/-- A cycle with a request on the read port, marked or not, or with a refresh request. -/
def traffic (read last refresh : Bool) : Inputs 2 10 where
  memWrreqI := false
  memWrlstI := false
  memWradrI := 0
  memRdreqI := read
  memRdlstI := last
  memRdadrI := 0
  cfgReqI := false
  cfgCmdI := .noop
  cfgBaI := 0
  cfgAdrI := 0
  ddlRefI := refresh

/-- The start of a run at 100 MHz. -/
def idleStart : State 100 2 10 := configured default .noop 0 0 true (some 0)

/-- A burst of two reads, and a refresh. -/
def burstAndRefresh : List (Inputs 2 10) :=
  traffic true false false :: List.replicate 3 (traffic true true false) ++
    List.replicate 12 (traffic false false true)

/-- The hypothesis is met by a burst of two reads and a refresh, which gives four commands. -/
theorem commandSpacing_burst :
    CommandSpacing 100 (logged idleStart burstAndRefresh).2 ∧
      (logged idleStart burstAndRefresh).2.events.map (fun e => (e.time, e.cmd)) =
        [(1, .actv), (3, .read), (7, .read), (14, .refr)] :=
  ⟨commandSpacing default .noop 0 0 true (some 0) burstAndRefresh (by decide), by decide⟩

end MiscVerilogCores.Ddr3Link
