import MiscVerilogCores.Library.Clocked
import MiscVerilogCores.Model.Ddr3Fsm
import Mathlib.Data.List.Chain

/-! # Requests and commands of the DDR3 scheduler

Each port of the scheduler is served by a queue that pops on the registered
acknowledge, so the request just sampled stays visible for one more cycle. -/

namespace MiscVerilogCores.Ddr3Fsm

open Clocked

variable {PSB COL : ℕ}

/-! ## The scheduler and its request queues -/

/-- The two request ports. -/
inductive Kind where
  | rd | wr
deriving DecidableEq

structure Request (PSB COL : ℕ) where
  last : Bool
  adr : BitVec (PSB + 1 + COL + 3 + COL)
deriving DecidableEq

def Kind.cmd : Kind → Ddr3Cmd
  | .rd => .read
  | .wr => .writ

def Kind.phase : Kind → Phase
  | .rd => .read
  | .wr => .writ

/-- The acknowledge of a port. -/
def State.ack (s : State PSB COL) : Kind → Bool
  | .rd => s.rdack
  | .wr => s.wrack

structure System (PSB COL : ℕ) where
  fsm : State PSB COL
  queue : Kind → List (Request PSB COL)

/-- What the surroundings do in a cycle. -/
structure Cycle (PSB COL : ℕ) where
  ddlRdyI : Bool
  ddlRefI : Bool
  arrivals : Kind → List (Request PSB COL)

/-- The heads of the queues drive the request ports. -/
def fsmInputs (s : System PSB COL) (c : Cycle PSB COL) : Inputs PSB COL where
  reset := false
  memWrreqI := !(s.queue .wr).isEmpty
  memWrlstI := (s.queue .wr).head?.any Request.last
  memWradrI := ((s.queue .wr).head?.map Request.adr).getD 0
  memRdreqI := !(s.queue .rd).isEmpty
  memRdlstI := (s.queue .rd).head?.any Request.last
  memRdadrI := ((s.queue .rd).head?.map Request.adr).getD 0
  cfgReqI := false
  cfgCmdI := .noop
  cfgBaI := 0
  cfgAdrI := 0
  ddlRdyI := c.ddlRdyI
  ddlRefI := c.ddlRefI

/-- The request that a queue pops in this cycle. -/
def popped (s : System PSB COL) (k : Kind) : List (Request PSB COL) :=
  if s.fsm.ack k then (s.queue k).take 1 else []

def System.step (s : System PSB COL) (c : Cycle PSB COL) : System PSB COL where
  fsm := Ddr3Fsm.step s.fsm (fsmInputs s c)
  queue k := (if s.fsm.ack k then (s.queue k).tail else s.queue k) ++ c.arrivals k

/-- Out of reset, with an idle configuration port and whatever the queues hold. -/
def System.start (s : State PSB COL) (cmd : Ddr3Cmd) (ba : BitVec 3)
    (adr : BitVec (PSB + 1 + COL)) (queue : Kind → List (Request PSB COL)) :
    System PSB COL where
  fsm := Ddr3Fsm.step s
    { reset := true
      memWrreqI := false
      memWrlstI := false
      memWradrI := 0
      memRdreqI := false
      memRdlstI := false
      memRdadrI := 0
      cfgReqI := false
      cfgCmdI := cmd
      cfgBaI := ba
      cfgAdrI := adr
      ddlRdyI := false
      ddlRefI := false }
  queue := queue

/-! ## The log of a run -/

/-- A column command as the data layer accepts it, with the page open at that time: the
row and bank of the last accepted ACTIVATE, if no auto-precharge came since. -/
structure Issue (PSB COL : ℕ) where
  page : Option (BitVec (PSB + 1 + COL) × BitVec 3)
  bank : BitVec 3
  col : BitVec COL
  auto : Bool
deriving DecidableEq

/-- The column and auto-precharge bit of a command. -/
def Issue.column (x : Issue PSB COL) : BitVec COL × Bool := (x.col, x.auto)

/-- The column command that a request asks for. -/
def Request.issue (r : Request PSB COL) : Issue PSB COL where
  page := some (rowOf r.adr, bankOf r.adr)
  bank := bankOf r.adr
  col := colOf r.adr
  auto := r.last

structure Log (PSB COL : ℕ) where
  arrived : Kind → List (Request PSB COL)
  acked : Kind → List (Request PSB COL)
  issued : Kind → List (Issue PSB COL)
  page : Option (BitVec (PSB + 1 + COL) × BitVec 3)
  accepted : Bool

namespace Log

def start (queue : Kind → List (Request PSB COL)) : Log PSB COL :=
  ⟨queue, fun _ => [], fun _ => [], none, false⟩

/-- The column command presented to the data layer. -/
def presented (m : Log PSB COL) (s : System PSB COL) : Issue PSB COL where
  page := m.page
  bank := s.fsm.baQ
  col := s.fsm.adrQ.setWidth COL
  auto := autoPrecharge s.fsm

def watch (m : Log PSB COL) (s : System PSB COL) (c : Cycle PSB COL) : Log PSB COL where
  arrived k := m.arrived k ++ c.arrivals k
  acked k := m.acked k ++ popped s k
  issued k :=
    m.issued k ++
      if accepts s.fsm (fsmInputs s c) ∧ s.fsm.cmdQ = k.cmd then [m.presented s] else []
  page :=
    if accepts s.fsm (fsmInputs s c) then
      match s.fsm.cmdQ with
      | .actv => some (s.fsm.adrQ, s.fsm.baQ)
      | .read | .writ => if autoPrecharge s.fsm then none else m.page
      | _ => m.page
    else m.page
  accepted := accepts s.fsm (fsmInputs s c)

end Log

/-- Ready is low in the cycle after an acceptance. -/
def Spaced (m : Log PSB COL) (c : Cycle PSB COL) : Prop :=
  m.accepted = true → c.ddlRdyI = false

instance (m : Log PSB COL) (c : Cycle PSB COL) : Decidable (Spaced m c) :=
  inferInstanceAs (Decidable (_ → _))

/-- A request that does not end its burst is followed by one for the same page. -/
def SamePage (r r' : Request PSB COL) : Prop :=
  r.last = false → rowOf r'.adr = rowOf r.adr ∧ bankOf r'.adr = bankOf r.adr

/-- No burst that has arrived crosses a page. -/
def Linked (m : Log PSB COL) : Prop := ∀ k, (m.arrived k).IsChain SamePage

/-! ## Invariant -/

/-- Column commands match the requests they were issued for: always in the column and the
auto-precharge bit, and wholly as long as bursts stay in their pages. -/
structure Matches (m : Log PSB COL) (issues : List (Issue PSB COL))
    (reqs : List (Request PSB COL)) : Prop where
  columns : issues.map Issue.column = reqs.map fun r => r.issue.column
  pages : Linked m → issues = reqs.map Request.issue

/-- The requests of a port that have been sampled. -/
def sampled (s : System PSB COL) (m : Log PSB COL) (k : Kind) : List (Request PSB COL) :=
  m.acked k ++ popped s k

/-- Every request acknowledged on a port has had its command. -/
structure Quiet (s : System PSB COL) (m : Log PSB COL) (k : Kind) : Prop where
  ack : s.fsm.ack k = false
  issued : Matches m (m.issued k) (m.acked k)

/-- One sampled request has not had its command yet. -/
structure Serving (s : System PSB COL) (m : Log PSB COL) (k : Kind) (r : Request PSB COL) :
    Prop where
  sampled : ∃ done, sampled s m k = done ++ [r] ∧ Matches m (m.issued k) done
  others : ∀ k' ≠ k, Quiet s m k'
  reqQ : s.fsm.reqQ = true
  colQ : s.fsm.colQ = colOf r.adr
  preQ : s.fsm.preQ = precharge r.last
  baQ : Linked m → s.fsm.baQ = bankOf r.adr

/-- Its ACTIVATE is presented. -/
structure Activating (s : System PSB COL) (m : Log PSB COL) (k : Kind) (r : Request PSB COL) :
    Prop extends Serving s m k r where
  wenQ : s.fsm.wenQ = true ↔ k = .wr
  cmdQ : s.fsm.cmdQ = .actv
  adrQ : s.fsm.adrQ = rowOf r.adr

/-- Its column command is presented. -/
structure Bursting (s : System PSB COL) (m : Log PSB COL) (k : Kind) (r : Request PSB COL) :
    Prop extends Serving s m k r where
  cmdQ : s.fsm.cmdQ = k.cmd
  adrQ : s.fsm.adrQ = s.fsm.preQ ++ s.fsm.colQ
  fresh : s.fsm.ack k = true → m.accepted = true
  page : Linked m → m.page = some (rowOf r.adr, bankOf r.adr)

/-- What each state of the scheduler stands for. -/
def PhaseInv (s : System PSB COL) (m : Log PSB COL) : Prop :=
  match s.fsm.state with
  | .idle => s.fsm.reqQ = false ∧ ∀ k, Quiet s m k
  | .actv => ∃ k r, Activating s m k r
  | .read => ∃ r, Bursting s m .rd r
  | .writ => ∃ r, Bursting s m .wr r
  | .refr => s.fsm.cmdQ = .refr ∧ ∀ k, Quiet s m k

structure Inv (s : System PSB COL) (m : Log PSB COL) : Prop where
  once : ∀ k, m.acked k ++ s.queue k = m.arrived k
  phase : PhaseInv s m

/-! ## Small facts -/

theorem precharge_eq_zero (l : Bool) : precharge l = 0#(PSB + 1) ↔ l = false := by
  cases l <;> simp [precharge]

theorem setWidth_append_col (p : BitVec (PSB + 1)) (c : BitVec COL) :
    (p ++ c).setWidth COL = c := by
  apply BitVec.eq_of_getLsbD_eq
  intro k hk
  simp [BitVec.getLsbD_append, hk]

theorem getLsbD_precharge (l : Bool) (c : BitVec COL) :
    ((precharge l : BitVec (PSB + 1)) ++ c).getLsbD COL = l := by
  rw [BitVec.getLsbD_append]
  cases l <;> simp [precharge]

section Step

variable {s : System PSB COL} {c : Cycle PSB COL} {m : Log PSB COL} {k : Kind}
  {r : Request PSB COL}

theorem Linked.of_watch (h : Linked (m.watch s c)) : Linked m :=
  fun k => (h k).left_of_append

theorem Matches.watch {issues : List (Issue PSB COL)} {reqs : List (Request PSB COL)}
    (h : Matches m issues reqs) : Matches (m.watch s c) issues reqs :=
  ⟨h.columns, fun hl => h.pages hl.of_watch⟩

/-- The queue pops what is acknowledged, and nothing else. -/
theorem once_next (h : m.acked k ++ s.queue k = m.arrived k) :
    (m.watch s c).acked k ++ (s.step c).queue k = (m.watch s c).arrived k := by
  simp only [Log.watch, System.step, popped, ← h]
  cases hq : s.queue k <;> cases ha : s.fsm.ack k <;> simp

theorem sampled_next (h : (s.step c).fsm.ack k = false) :
    sampled (s.step c) (m.watch s c) k = sampled s m k := by
  simp [sampled, popped, h, Log.watch]

/-- A quiet port stays quiet if it is not acknowledged and no command is issued for it. -/
theorem Quiet.next (h : Quiet s m k) (hack : (s.step c).fsm.ack k = false)
    (hno : ¬ (accepts s.fsm (fsmInputs s c) = true ∧ s.fsm.cmdQ = k.cmd)) :
    Quiet (s.step c) (m.watch s c) k := by
  refine ⟨hack, ?_⟩
  have hi : (m.watch s c).issued k = m.issued k := by simp [Log.watch, hno]
  have ha : (m.watch s c).acked k = m.acked k := by simp [Log.watch, popped, h.ack]
  rw [hi, ha]
  exact h.issued.watch

theorem Matches.append {issues : List (Issue PSB COL)} {reqs : List (Request PSB COL)}
    (h : Matches m issues reqs) {x : Issue PSB COL} (hcol : x.column = r.issue.column)
    (hpage : Linked m → x = r.issue) : Matches m (issues ++ [x]) (reqs ++ [r]) := by
  refine ⟨?_, fun hl => ?_⟩
  · simp [h.columns, hcol]
  · rw [h.pages hl, hpage hl]
    simp

/-- A sampled request is now being served. -/
theorem Quiet.serve (h : Quiet s m k) {rest : List (Request PSB COL)} (hq : s.queue k = r :: rest)
    (hack : (s.step c).fsm.ack k = true)
    (hno : ¬ (accepts s.fsm (fsmInputs s c) = true ∧ s.fsm.cmdQ = k.cmd)) :
    ∃ done, sampled (s.step c) (m.watch s c) k = done ++ [r] ∧
      Matches (m.watch s c) ((m.watch s c).issued k) done := by
  have hi : (m.watch s c).issued k = m.issued k := by simp [Log.watch, hno]
  have ha : (m.watch s c).acked k = m.acked k := by simp [Log.watch, popped, h.ack]
  have hq' : (s.step c).queue k = r :: (rest ++ c.arrivals k) := by
    simp [System.step, h.ack, hq]
  refine ⟨m.acked k, ?_, ?_⟩
  · simp [sampled, popped, hack, hq', ha]
  · rw [hi]
    exact h.issued.watch

/-! ### Idle -/

/-- The registers after a request is sampled in the idle state. -/
def sampledState (k : Kind) (r : Request PSB COL) : State PSB COL where
  state := .actv
  adrQ := rowOf r.adr
  colQ := colOf r.adr
  baQ := bankOf r.adr
  preQ := precharge r.last
  wrack := decide (k = .wr)
  rdack := decide (k = .rd)
  cmdQ := .actv
  reqQ := true
  wenQ := decide (k = .wr)

theorem activating_next {rest : List (Request PSB COL)} (hfsm : (s.step c).fsm = sampledState k r)
    (hq : s.queue k = r :: rest) (hquiet : ∀ k, Quiet s m k) (hreq : s.fsm.reqQ = false) :
    Activating (s.step c) (m.watch s c) k r := by
  have hno : ∀ k : Kind, ¬ (accepts s.fsm (fsmInputs s c) = true ∧ s.fsm.cmdQ = k.cmd) := by
    simp [accepts, hreq]
  have hack : ∀ k', (s.step c).fsm.ack k' = decide (k = k') := by
    intro k'
    rw [hfsm]
    cases k' <;> rfl
  refine ⟨⟨(hquiet k).serve hq (by simp [hack]) (hno k), ?_, ?_, ?_, ?_, ?_⟩, ?_, ?_, ?_⟩
  · intro k' hne
    exact (hquiet k').next (by simp [hack, hne.symm]) (hno k')
  all_goals simp [hfsm, sampledState]

theorem idle_next (hstate : s.fsm.state = .idle) (hreq : s.fsm.reqQ = false)
    (hquiet : ∀ k, Quiet s m k) : PhaseInv (s.step c) (m.watch s c) := by
  have hfsm : (s.step c).fsm = idleNext s.fsm (fsmInputs s c) := by
    simp [System.step, Ddr3Fsm.step, hstate, fsmInputs]
  have hno : ∀ k : Kind, ¬ (accepts s.fsm (fsmInputs s c) = true ∧ s.fsm.cmdQ = k.cmd) := by
    simp [accepts, hreq]
  cases href : c.ddlRefI
  · cases hrd : s.queue .rd with
    | cons r rest =>
        have hnext : (s.step c).fsm = sampledState .rd r := by
          rw [hfsm]
          simp [idleNext, fsmInputs, href, hrd, sampledState]
        rw [PhaseInv, hnext]
        exact ⟨.rd, r, activating_next hnext hrd hquiet hreq⟩
    | nil =>
        cases hwr : s.queue .wr with
        | cons r rest =>
            have hnext : (s.step c).fsm = sampledState .wr r := by
              rw [hfsm]
              simp [idleNext, fsmInputs, href, hrd, hwr, sampledState]
            rw [PhaseInv, hnext]
            exact ⟨.wr, r, activating_next hnext hwr hquiet hreq⟩
        | nil =>
            have hnext : (s.step c).fsm =
                { s.fsm with wrack := false, rdack := false, wenQ := false } := by
              rw [hfsm]
              simp [idleNext, fsmInputs, href, hrd, hwr]
            rw [PhaseInv, hnext]
            simp only [hstate]
            refine ⟨hreq, fun k => (hquiet k).next ?_ (hno k)⟩
            rw [hnext]
            cases k <;> rfl
  · have hnext : (s.step c).fsm.state = .refr ∧ (s.step c).fsm.cmdQ = .refr ∧
        ∀ k, (s.step c).fsm.ack k = false := by
      rw [hfsm]
      refine ⟨?_, ?_, fun k => ?_⟩
      · simp [idleNext, fsmInputs, href]
      · simp [idleNext, fsmInputs, href]
      · cases k <;> simp [idleNext, fsmInputs, href, State.ack]
    rw [PhaseInv, hnext.1]
    exact ⟨hnext.2.1, fun k => (hquiet k).next (hnext.2.2 k) (hno k)⟩

/-! ### Refresh -/

theorem refr_next (hstate : s.fsm.state = .refr) (hcmd : s.fsm.cmdQ = .refr)
    (hquiet : ∀ k, Quiet s m k) : PhaseInv (s.step c) (m.watch s c) := by
  have hfsm : (s.step c).fsm = refrNext s.fsm (fsmInputs s c) := by
    simp [System.step, Ddr3Fsm.step, hstate, fsmInputs]
  have hno : ∀ k : Kind, ¬ (accepts s.fsm (fsmInputs s c) = true ∧ s.fsm.cmdQ = k.cmd) := by
    intro k
    cases k <;> simp [hcmd, Kind.cmd]
  have hquiet' : ∀ k, Quiet (s.step c) (m.watch s c) k := by
    refine fun k => (hquiet k).next ?_ (hno k)
    rw [hfsm, refrNext]
    split <;> cases k <;> rfl
  by_cases hgo : (!c.ddlRefI || c.ddlRdyI) = true
  · have hnext : (s.step c).fsm.state = .idle ∧ (s.step c).fsm.reqQ = false := by
      rw [hfsm, refrNext]
      simp only [fsmInputs, hgo]
      exact ⟨rfl, rfl⟩
    rw [PhaseInv, hnext.1]
    exact ⟨hnext.2, hquiet'⟩
  · have hnext : (s.step c).fsm.state = .refr ∧ (s.step c).fsm.cmdQ = .refr := by
      rw [hfsm, refrNext]
      simp only [fsmInputs, hgo]
      exact ⟨hstate, hcmd⟩
    rw [PhaseInv, hnext.1]
    exact ⟨hnext.2, hquiet'⟩

/-! ### Activate -/

theorem Serving.stay (h : Serving s m k r) (hack : ∀ k, (s.step c).fsm.ack k = false)
    (hcmd : ∀ k : Kind, ¬ (accepts s.fsm (fsmInputs s c) = true ∧ s.fsm.cmdQ = k.cmd))
    (hreq : (s.step c).fsm.reqQ = s.fsm.reqQ) (hcol : (s.step c).fsm.colQ = s.fsm.colQ)
    (hpre : (s.step c).fsm.preQ = s.fsm.preQ) (hba : (s.step c).fsm.baQ = s.fsm.baQ) :
    Serving (s.step c) (m.watch s c) k r := by
  obtain ⟨done, hdone, hm⟩ := h.sampled
  have hi : (m.watch s c).issued k = m.issued k := by simp [Log.watch, hcmd]
  refine ⟨⟨done, (sampled_next (hack k)).trans hdone, ?_⟩, ?_, ?_, ?_, ?_, ?_⟩
  · rw [hi]
    exact hm.watch
  · exact fun k' hne => (h.others k' hne).next (hack k') (hcmd k')
  · rw [hreq, h.reqQ]
  · rw [hcol, h.colQ]
  · rw [hpre, h.preQ]
  · intro hl
    rw [hba, h.baQ hl.of_watch]

theorem actv_next (hstate : s.fsm.state = .actv) (h : Activating s m k r) :
    PhaseInv (s.step c) (m.watch s c) := by
  have hfsm : (s.step c).fsm = actvNext s.fsm (fsmInputs s c) := by
    simp [System.step, Ddr3Fsm.step, hstate, fsmInputs]
  have hcmd : ∀ k : Kind, ¬ (accepts s.fsm (fsmInputs s c) = true ∧ s.fsm.cmdQ = k.cmd) := by
    intro k
    cases k <;> simp [h.cmdQ, Kind.cmd]
  have hack : ∀ k, (s.step c).fsm.ack k = false := by
    intro k
    rw [hfsm, actvNext]
    split <;> cases k <;> rfl
  have hserve : Serving (s.step c) (m.watch s c) k r := by
    refine h.stay hack hcmd ?_ ?_ ?_ ?_ <;>
    · rw [hfsm, actvNext]
      split <;> rfl
  cases hrdy : c.ddlRdyI
  · have hnext : (s.step c).fsm = { s.fsm with wrack := false, rdack := false } := by
      rw [hfsm]
      simp [actvNext, fsmInputs, hrdy]
    rw [PhaseInv, hnext]
    simp only [hstate]
    exact ⟨k, r, hserve, by rw [hnext]; exact h.wenQ, by rw [hnext]; exact h.cmdQ,
      by rw [hnext]; exact h.adrQ⟩
  · have hnext : (s.step c).fsm =
        { s.fsm with
          state := k.phase, adrQ := s.fsm.preQ ++ s.fsm.colQ, wrack := false, rdack := false,
          cmdQ := k.cmd } := by
      rw [hfsm]
      have hw := h.wenQ
      cases k <;> simp_all [actvNext, fsmInputs, Kind.phase, Kind.cmd]
    have hburst : Bursting (s.step c) (m.watch s c) k r := by
      refine ⟨hserve, by rw [hnext], by rw [hnext], by simp [hack], fun hl => ?_⟩
      have hba := h.baQ hl.of_watch
      simp [Log.watch, accepts, fsmInputs, h.reqQ, hrdy, h.cmdQ, h.adrQ, hba]
    rw [PhaseInv, hnext]
    cases k <;> exact ⟨r, hburst⟩

/-! ### Column commands -/

theorem Kind.cmd_injective {k k' : Kind} (h : k.cmd = k'.cmd) : k = k' := by
  cases k <;> cases k' <;> first | rfl | cases h

theorem Bursting.autoPrecharge_eq (h : Bursting s m k r) : autoPrecharge s.fsm = r.last := by
  rw [autoPrecharge, h.adrQ, h.preQ, getLsbD_precharge]

theorem Bursting.presented_column (h : Bursting s m k r) :
    (m.presented s).column = r.issue.column := by
  simp [Issue.column, Log.presented, Request.issue, h.autoPrecharge_eq, h.adrQ, h.colQ,
    setWidth_append_col]

theorem Bursting.presented_eq (h : Bursting s m k r) (hl : Linked m) :
    m.presented s = r.issue := by
  simp [Log.presented, Request.issue, h.autoPrecharge_eq, h.adrQ, h.colQ, setWidth_append_col,
    h.baQ hl, h.page hl]

/-- The command of the request being served is accepted: all sampled requests have theirs. -/
theorem Bursting.issued_next (h : Bursting s m k r) (hspaced : Spaced m c)
    (hrdy : c.ddlRdyI = true) :
    s.fsm.ack k = false ∧ (∃ done, m.acked k = done ++ [r]) ∧
      Matches (m.watch s c) ((m.watch s c).issued k) ((m.watch s c).acked k) := by
  have hack : s.fsm.ack k = false := by
    cases ha : s.fsm.ack k
    · rfl
    · simp [hspaced (h.fresh ha)] at hrdy
  obtain ⟨done, hdone, hm⟩ := h.sampled
  have hsampled : sampled s m k = m.acked k := by simp [sampled, popped, hack]
  have hissued : (m.watch s c).issued k = m.issued k ++ [m.presented s] := by
    simp [Log.watch, accepts, fsmInputs, h.reqQ, hrdy, h.cmdQ]
  have hacked : (m.watch s c).acked k = m.acked k := by simp [Log.watch, popped, hack]
  refine ⟨hack, ⟨done, by rw [← hsampled, hdone]⟩, ?_⟩
  rw [hissued, hacked, ← hsampled, hdone]
  exact (hm.append h.presented_column h.presented_eq).watch

theorem Bursting.others_next (h : Bursting s m k r)
    (hack : ∀ k' ≠ k, (s.step c).fsm.ack k' = false) :
    ∀ k' ≠ k, Quiet (s.step c) (m.watch s c) k' := by
  intro k' hne
  refine (h.others k' hne).next (hack k' hne) fun ⟨_, hcmd⟩ => ?_
  exact hne (Kind.cmd_injective (hcmd.symm.trans h.cmdQ))

theorem Bursting.stalled (h : Bursting s m k r) (hstate : s.fsm.state = k.phase)
    (hrdy : c.ddlRdyI = false) : PhaseInv (s.step c) (m.watch s c) := by
  have hnext : (s.step c).fsm = { s.fsm with wrack := false, rdack := false } := by
    cases k <;> simp [System.step, Ddr3Fsm.step, hstate, fsmInputs, Kind.phase, readNext, writNext,
      hrdy]
  have hack : ∀ k, (s.step c).fsm.ack k = false := by
    intro k
    rw [hnext]
    cases k <;> rfl
  have hno : accepts s.fsm (fsmInputs s c) = false := by simp [accepts, fsmInputs, hrdy]
  have hburst : Bursting (s.step c) (m.watch s c) k r := by
    refine ⟨h.stay hack (by simp [hno]) ?_ ?_ ?_ ?_, ?_, ?_, by simp [hack], fun hl => ?_⟩
    · rw [hnext]
    · rw [hnext]
    · rw [hnext]
    · rw [hnext]
    · rw [hnext]
      exact h.cmdQ
    · rw [hnext]
      exact h.adrQ
    · simpa [Log.watch, hno] using h.page hl.of_watch
  rw [PhaseInv, hnext]
  simp only [hstate]
  cases k <;> exact ⟨r, hburst⟩

theorem Bursting.goes_on (h : Bursting s m k r) (hstate : s.fsm.state = k.phase)
    (hspaced : Spaced m c) (honce : m.acked k ++ s.queue k = m.arrived k)
    (hrdy : c.ddlRdyI = true) (hlast : r.last = false) {r' : Request PSB COL}
    {rest : List (Request PSB COL)} (hq : s.queue k = r' :: rest) :
    PhaseInv (s.step c) (m.watch s c) := by
  have hpre : s.fsm.preQ = 0#(PSB + 1) := by rw [h.preQ, precharge_eq_zero, hlast]
  have hnext : (s.step c).fsm =
      { s.fsm with
        adrQ := precharge r'.last ++ colOf r'.adr, colQ := colOf r'.adr,
        preQ := precharge r'.last, wrack := decide (k = .wr), rdack := decide (k = .rd),
        cmdQ := k.cmd } := by
    cases k <;> simp [System.step, Ddr3Fsm.step, hstate, fsmInputs, Kind.phase, Kind.cmd, readNext,
      writNext, hrdy, hpre, hq]
  have hack : ∀ k', (s.step c).fsm.ack k' = decide (k = k') := by
    intro k'
    rw [hnext]
    cases k' <;> rfl
  obtain ⟨hfresh, ⟨done, hdone⟩, hm⟩ := h.issued_next hspaced hrdy
  have hacked : (m.watch s c).acked k = done ++ [r] := by simp [Log.watch, popped, hfresh, hdone]
  have hsame : Linked m → rowOf r'.adr = rowOf r.adr ∧ bankOf r'.adr = bankOf r.adr := by
    intro hl
    have hchain := hl k
    rw [← honce, hdone, hq, List.append_assoc, List.singleton_append,
      List.isChain_append_cons_cons] at hchain
    exact hchain.2.1 hlast
  have hburst : Bursting (s.step c) (m.watch s c) k r' := by
    refine ⟨⟨⟨(m.watch s c).acked k, ?_, hm⟩, ?_, ?_, ?_, ?_, fun hl => ?_⟩, ?_, ?_, ?_, fun hl => ?_⟩
    · have hq' : (s.step c).queue k = r' :: (rest ++ c.arrivals k) := by
        simp [System.step, hfresh, hq]
      simp [sampled, popped, hack, hq']
    · exact h.others_next fun k' hne => by simp [hack, hne.symm]
    · rw [hnext]
      exact h.reqQ
    · rw [hnext]
    · rw [hnext]
    · rw [hnext, (hsame hl.of_watch).2]
      exact h.baQ hl.of_watch
    · rw [hnext]
    · rw [hnext]
    · simp [Log.watch, accepts, fsmInputs, h.reqQ, hrdy]
    · have hauto : autoPrecharge s.fsm = false := by rw [h.autoPrecharge_eq, hlast]
      have hpage := h.page hl.of_watch
      obtain ⟨hrow, hbank⟩ := hsame hl.of_watch
      rw [hrow, hbank, ← hpage]
      cases k <;> simp [Log.watch, accepts, fsmInputs, h.reqQ, hrdy, h.cmdQ, Kind.cmd, hauto]
  rw [PhaseInv, hnext]
  simp only [hstate]
  cases k <;> exact ⟨r', hburst⟩

theorem Bursting.ends (h : Bursting s m k r) (hstate : s.fsm.state = k.phase)
    (hspaced : Spaced m c) (hrdy : c.ddlRdyI = true)
    (hend : r.last = true ∨ s.queue k = []) : PhaseInv (s.step c) (m.watch s c) := by
  have hstop : ¬ (s.fsm.preQ = 0#(PSB + 1) ∧ ¬ s.queue k = []) := by
    rintro ⟨hpre, hne⟩
    rcases hend with hl | hq
    · rw [h.preQ, precharge_eq_zero, hl] at hpre
      simp at hpre
    · exact hne hq
  have hnext : (s.step c).fsm.state = .idle ∧ (s.step c).fsm.reqQ = false ∧
      ∀ k', (s.step c).fsm.ack k' = false := by
    refine ⟨?_, ?_, fun k' => ?_⟩
    · cases k <;> simp [System.step, Ddr3Fsm.step, hstate, fsmInputs, Kind.phase, readNext, writNext,
        hrdy, hstop]
    · cases k <;> simp [System.step, Ddr3Fsm.step, hstate, fsmInputs, Kind.phase, readNext, writNext,
        hrdy, hstop]
    · cases k <;> cases k' <;> simp [System.step, Ddr3Fsm.step, hstate, fsmInputs, Kind.phase,
        readNext, writNext, hrdy, hstop, State.ack]
  obtain ⟨-, -, hm⟩ := h.issued_next hspaced hrdy
  rw [PhaseInv, hnext.1]
  refine ⟨hnext.2.1, fun k' => ?_⟩
  by_cases hk : k' = k
  · subst hk
    exact ⟨hnext.2.2 k', hm⟩
  · exact h.others_next (fun k' _ => hnext.2.2 k') k' hk

theorem Bursting.next (h : Bursting s m k r) (hstate : s.fsm.state = k.phase)
    (hspaced : Spaced m c) (honce : m.acked k ++ s.queue k = m.arrived k) :
    PhaseInv (s.step c) (m.watch s c) := by
  cases hrdy : c.ddlRdyI
  · exact h.stalled hstate hrdy
  · cases hlast : r.last
    · cases hq : s.queue k with
      | nil => exact h.ends hstate hspaced hrdy (Or.inr hq)
      | cons r' rest => exact h.goes_on hstate hspaced honce hrdy hlast hq
    · exact h.ends hstate hspaced hrdy (Or.inl hlast)

/-! ### Any state -/

theorem Inv.next (h : Inv s m) (hspaced : Spaced m c) : Inv (s.step c) (m.watch s c) := by
  refine ⟨fun k => once_next (h.once k), ?_⟩
  have hphase := h.phase
  rw [PhaseInv] at hphase
  cases hstate : s.fsm.state <;> rw [hstate] at hphase
  case idle => exact idle_next hstate hphase.1 hphase.2
  case read =>
    obtain ⟨r, hr⟩ := hphase
    exact hr.next hstate hspaced (h.once .rd)
  case writ =>
    obtain ⟨r, hr⟩ := hphase
    exact hr.next hstate hspaced (h.once .wr)
  case actv =>
    obtain ⟨k, r, hr⟩ := hphase
    exact actv_next hstate hr
  case refr => exact refr_next hstate hphase.1 hphase.2

/-- All but the request sampled last have had their commands. -/
theorem Serving.issued (h : Serving s m k r) :
    ∃ done, done <+: m.acked k ∧ (m.acked k).length ≤ done.length + 1 ∧
      Matches m (m.issued k) done := by
  obtain ⟨done, hdone, hm⟩ := h.sampled
  refine ⟨done, ?_, ?_, hm⟩
  · rw [Ddr3Fsm.sampled] at hdone
    rcases List.eq_nil_or_concat (popped s k) with hnil | ⟨pop, x, hpop⟩
    · rw [hnil, List.append_nil] at hdone
      rw [hdone]
      exact List.prefix_append _ _
    · have hone : (popped s k).length ≤ 1 := by
        rw [popped]
        split
        · rw [List.length_take]
          omega
        · simp
      have hpop' : pop = [] := by
        rw [hpop] at hone
        simpa using hone
      rw [hpop, hpop', List.concat_nil] at hdone
      rw [(List.append_inj' hdone rfl).1]
  · have hlen := congrArg List.length hdone
    simp only [Ddr3Fsm.sampled, List.length_append, List.length_singleton] at hlen
    omega

theorem Quiet.issued_le (h : Quiet s m k) :
    ∃ done, done <+: m.acked k ∧ (m.acked k).length ≤ done.length + 1 ∧
      Matches m (m.issued k) done :=
  ⟨m.acked k, List.prefix_rfl, Nat.le_succ _, h.issued⟩

theorem Serving.issued_any (h : Serving s m k r) (k' : Kind) :
    ∃ done, done <+: m.acked k' ∧ (m.acked k').length ≤ done.length + 1 ∧
      Matches m (m.issued k') done := by
  by_cases hk : k' = k
  · rw [hk]
    exact h.issued
  · exact (h.others k' hk).issued_le

theorem Inv.issued (h : Inv s m) (k : Kind) :
    ∃ done, done <+: m.acked k ∧ (m.acked k).length ≤ done.length + 1 ∧
      Matches m (m.issued k) done := by
  have hphase := h.phase
  rw [PhaseInv] at hphase
  cases hstate : s.fsm.state <;> rw [hstate] at hphase
  case idle => exact (hphase.2 k).issued_le
  case read =>
    obtain ⟨r, hr⟩ := hphase
    exact hr.issued_any k
  case writ =>
    obtain ⟨r, hr⟩ := hphase
    exact hr.issued_any k
  case actv =>
    obtain ⟨k', r, hr⟩ := hphase
    exact hr.issued_any k
  case refr => exact (hphase.2 k).issued_le

end Step

end MiscVerilogCores.Ddr3Fsm
