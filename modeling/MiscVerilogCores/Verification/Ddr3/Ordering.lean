import MiscVerilogCores.Verification.Ddr3.Commands

/-! # The order of reads and writes

The scheduler does not look at the request IDs: it takes reads first, and goes on with a
burst whatever waits on the other port. Reads and writes of one memory burst then keep the
order of their IDs exactly as long as no request is sampled before an older one. -/

namespace MiscVerilogCores.Ddr3Fsm

open Clocked

variable {REQID PSB COL : ℕ}

/-! ## Requests with IDs -/

/-- A request with the ID it got when it was accepted at the bus. -/
structure Tagged (REQID PSB COL : ℕ) extends Request PSB COL where
  tid : BitVec REQID
deriving DecidableEq

structure TaggedCycle (REQID PSB COL : ℕ) where
  ddlRdyI : Bool
  ddlRefI : Bool
  arrivals : Kind → List (Tagged REQID PSB COL)

/-- The cycle as the scheduler sees it: the IDs are connected to nothing. -/
def TaggedCycle.untag (c : TaggedCycle REQID PSB COL) : Cycle PSB COL where
  ddlRdyI := c.ddlRdyI
  ddlRefI := c.ddlRefI
  arrivals k := (c.arrivals k).map Tagged.toRequest

def System.tagStep (s : System PSB COL) (c : TaggedCycle REQID PSB COL) : System PSB COL :=
  s.step c.untag

/-- The requests address the same burst of eight columns. -/
def SameBurst (x y : Tagged REQID PSB COL) : Prop := x.adr >>> 3 = y.adr >>> 3

instance (x y : Tagged REQID PSB COL) : Decidable (SameBurst x y) :=
  inferInstanceAs (Decidable (_ = _))

/-- Of two requests for the same burst, `x` is the older one. -/
def Older (x y : Tagged REQID PSB COL) : Prop := SameBurst x y → x.tid < y.tid

instance (x y : Tagged REQID PSB COL) : Decidable (Older x y) :=
  inferInstanceAs (Decidable (_ → _))

/-- The requests whose column command is still to come, and those that have had it, in the
order of the commands. -/
structure Ids (REQID PSB COL : ℕ) where
  pending : Kind → List (Tagged REQID PSB COL)
  issued : List (Kind × Tagged REQID PSB COL)

/-- A column command of the kind is accepted. -/
def issues (s : System PSB COL) (c : TaggedCycle REQID PSB COL) (k : Kind) : Bool :=
  accepts s.fsm (fsmInputs s c.untag) && decide (s.fsm.cmdQ = k.cmd)

namespace Ids

def start (queue : Kind → List (Tagged REQID PSB COL)) : Ids REQID PSB COL := ⟨queue, []⟩

/-- A command goes to the oldest pending request of its port. -/
def served (m : Ids REQID PSB COL) (s : System PSB COL) (c : TaggedCycle REQID PSB COL)
    (k : Kind) : List (Kind × Tagged REQID PSB COL) :=
  if issues s c k then ((m.pending k).take 1).map fun x => (k, x) else []

def watch (m : Ids REQID PSB COL) (s : System PSB COL) (c : TaggedCycle REQID PSB COL) :
    Ids REQID PSB COL where
  pending k := (if issues s c k then (m.pending k).tail else m.pending k) ++ c.arrivals k
  issued := m.issued ++ (m.served s c .rd ++ m.served s c .wr)

end Ids

/-- Reads and writes of one burst have their commands in the order of their IDs, and no
command has overtaken an older request that is still pending. -/
structure IdOrder (m : Ids REQID PSB COL) : Prop where
  issued : m.issued.Pairwise fun x y => x.1 ≠ y.1 → Older x.2 y.2
  pending : ∀ x ∈ m.issued, ∀ k ≠ x.1, ∀ y ∈ m.pending k, Older x.2 y

/-! ## When requests are sampled -/

/-- The burst goes on if there is another request. -/
def goesOn (s : System PSB COL) (c : TaggedCycle REQID PSB COL) : Bool :=
  c.ddlRdyI && s.fsm.preQ == 0

/-- The port of the request being served. -/
def servingPort (s : System PSB COL) : Option Kind :=
  match s.fsm.state with
  | .actv => some (if s.fsm.wenQ then .wr else .rd)
  | .read => some .rd
  | .writ => some .wr
  | .idle | .refr => none

/-- The request being served, sampled in an earlier cycle. -/
def serving (m : Ids REQID PSB COL) (s : System PSB COL) : List (Kind × Tagged REQID PSB COL) :=
  match servingPort s with
  | some k => ((m.pending k).take 1).map fun x => (k, x)
  | none => []

/-- The request that is sampled in this cycle: reads before writes when idle, the next of the
port in a burst. -/
def sampling (m : Ids REQID PSB COL) (s : System PSB COL) (c : TaggedCycle REQID PSB COL) :
    List (Kind × Tagged REQID PSB COL) :=
  match s.fsm.state with
  | .idle =>
      if c.ddlRefI then []
      else
        (((m.pending .rd).map fun x => (Kind.rd, x)) ++
          (m.pending .wr).map fun x => (Kind.wr, x)).take 1
  | .read => if goesOn s c then (((m.pending .rd).drop 1).take 1).map fun x => (.rd, x) else []
  | .writ => if goesOn s c then (((m.pending .wr).drop 1).take 1).map fun x => (.wr, x) else []
  | .actv | .refr => []

/-- No request is sampled before an older one for the same burst. -/
structure OlderFirst (m : Ids REQID PSB COL) (s : System PSB COL)
    (c : TaggedCycle REQID PSB COL) : Prop where
  /-- No burst goes on while its last request is only being popped. -/
  popped : ∀ k, s.fsm.state = k.phase → s.fsm.ack k = true → goesOn s c = false
  /-- What is sampled is older than what waits on the other port. -/
  waiting : ∀ x ∈ sampling m s c, ∀ k ≠ x.1, ∀ y ∈ m.pending k, Older x.2 y
  /-- What was sampled is older than what arrives on the other port. -/
  arriving : ∀ x ∈ m.issued ++ serving m s ++ sampling m s c, ∀ k ≠ x.1, ∀ y ∈ c.arrivals k,
    Older x.2 y

instance (m : Ids REQID PSB COL) (s : System PSB COL) (c : TaggedCycle REQID PSB COL) :
    Decidable (OlderFirst m s c) :=
  decidable_of_iff
    ((∀ k, s.fsm.state = k.phase → s.fsm.ack k = true → goesOn s c = false) ∧
      (∀ x ∈ sampling m s c, ∀ k ≠ x.1, ∀ y ∈ m.pending k, Older x.2 y) ∧
      ∀ x ∈ m.issued ++ serving m s ++ sampling m s c, ∀ k ≠ x.1, ∀ y ∈ c.arrivals k, Older x.2 y)
    ⟨fun h => ⟨h.1, h.2.1, h.2.2⟩, fun h => ⟨h.popped, h.waiting, h.arriving⟩⟩

/-! ## Invariant -/

/-- The command presented in each state. -/
def CmdInv (s : State PSB COL) : Prop :=
  match s.state with
  | .idle => s.reqQ = false
  | .actv => s.reqQ = true ∧ s.cmdQ = .actv
  | .read => s.reqQ = true ∧ s.cmdQ = .read
  | .writ => s.reqQ = true ∧ s.cmdQ = .writ
  | .refr => s.cmdQ = .refr

/-- The queue of the port holds the pending requests. -/
structure Free (m : Ids REQID PSB COL) (s : System PSB COL) (k : Kind) : Prop where
  ack : s.fsm.ack k = false
  queue : s.queue k = (m.pending k).map Tagged.toRequest

/-- A request is being served; its queue pops it while it is acknowledged. -/
structure Serves (m : Ids REQID PSB COL) (s : System PSB COL) (k : Kind)
    (x : Tagged REQID PSB COL) : Prop where
  head : ∃ rest, m.pending k = x :: rest ∧
    s.queue k = (if s.fsm.ack k then x :: rest else rest).map Tagged.toRequest
  others : ∀ k' ≠ k, Free m s k'
  oldest : ∀ k' ≠ k, ∀ y ∈ m.pending k', Older x y

structure OrderInv (s : System PSB COL) (m : Ids REQID PSB COL) : Prop where
  cmd : CmdInv s.fsm
  port : match servingPort s with
    | some k => ∃ x, Serves m s k x
    | none => ∀ k, Free m s k
  order : IdOrder m

section Step

variable {s : System PSB COL} {c : TaggedCycle REQID PSB COL} {m : Ids REQID PSB COL} {k : Kind}
  {x : Tagged REQID PSB COL}

theorem CmdInv.next (h : CmdInv s.fsm) : CmdInv (s.tagStep c).fsm := by
  have hfsm : (s.tagStep c).fsm = Ddr3Fsm.step s.fsm (fsmInputs s c.untag) := rfl
  rw [CmdInv] at h
  rw [hfsm, Ddr3Fsm.step, if_neg (by simp [fsmInputs])]
  cases hstate : s.fsm.state <;> rw [hstate] at h
  case idle =>
    simp only [idleNext]
    split
    · rfl
    · split
      · exact ⟨rfl, rfl⟩
      · split
        · exact ⟨rfl, rfl⟩
        · simp [CmdInv, hstate, h]
  case actv =>
    simp only [actvNext]
    split
    · cases hwen : s.fsm.wenQ <;> exact ⟨h.1, rfl⟩
    · simp [CmdInv, hstate, h]
  case read =>
    simp only [readNext]
    split
    · split
      · simp [CmdInv, hstate, h]
      · rfl
    · simp [CmdInv, hstate, h]
  case writ =>
    simp only [writNext]
    split
    · split
      · simp [CmdInv, hstate, h]
      · rfl
    · simp [CmdInv, hstate, h]
  case refr =>
    simp only [refrNext]
    split
    · rfl
    · simp [CmdInv, hstate, h]

theorem CmdInv.issues_eq (h : CmdInv s.fsm) (k : Kind) :
    issues s c k = (decide (s.fsm.state = k.phase) && c.ddlRdyI) := by
  rw [CmdInv] at h
  cases hstate : s.fsm.state <;> rw [hstate] at h <;> cases k <;>
    simp [issues, accepts, fsmInputs, TaggedCycle.untag, Kind.cmd, Kind.phase, h]

/-! ### The ports -/

theorem Free.next (h : Free m s k) (hack : (s.tagStep c).fsm.ack k = false)
    (hno : issues s c k = false) : Free (m.watch s c) (s.tagStep c) k := by
  refine ⟨hack, ?_⟩
  simp [System.tagStep, System.step, Ids.watch, hno, h.ack, h.queue, TaggedCycle.untag]

/-- A sampled request is acknowledged in the next cycle. -/
theorem Free.serve (h : ∀ k, Free m s k) (hno : ∀ k, issues s c k = false)
    (hack : ∀ k', (s.tagStep c).fsm.ack k' = decide (k = k')) {rest : List (Tagged REQID PSB COL)}
    (hpend : m.pending k = x :: rest) (hx : (k, x) ∈ sampling m s c) (hold : OlderFirst m s c) :
    Serves (m.watch s c) (s.tagStep c) k x := by
  refine ⟨⟨rest ++ c.arrivals k, ?_, ?_⟩, fun k' hne => ?_, fun k' hne y hy => ?_⟩
  · simp [Ids.watch, hno, hpend]
  · simp [System.tagStep, System.step, (h k).ack, (h k).queue, hpend, TaggedCycle.untag] at hack ⊢
    simp [hack]
  · exact (h k').next (by simp [hack, hne.symm]) (hno k')
  · simp only [Ids.watch, hno, Bool.false_eq_true, if_false] at hy
    rcases List.mem_append.mp hy with hy | hy
    · exact hold.waiting _ hx k' hne y hy
    · exact hold.arriving _ (List.mem_append_right _ hx) k' hne y hy

theorem Serves.mem_serving (h : Serves m s k x) (hport : servingPort s = some k) :
    (k, x) ∈ serving m s := by
  obtain ⟨rest, hpend, -⟩ := h.head
  simp [serving, hport, hpend]

theorem Serves.stall (h : Serves m s k x) (hport : servingPort s = some k)
    (hno : ∀ k, issues s c k = false) (hack : ∀ k, (s.tagStep c).fsm.ack k = false)
    (hold : OlderFirst m s c) : Serves (m.watch s c) (s.tagStep c) k x := by
  obtain ⟨rest, hpend, hqueue⟩ := h.head
  refine ⟨⟨rest ++ c.arrivals k, ?_, ?_⟩, fun k' hne => ?_, fun k' hne y hy => ?_⟩
  · simp [Ids.watch, hno, hpend]
  · rw [hack]
    cases ha : s.fsm.ack k <;>
      simp [System.tagStep, System.step, ha, hqueue, TaggedCycle.untag]
  · exact (h.others k' hne).next (hack k') (hno k')
  · simp only [Ids.watch, hno, Bool.false_eq_true, if_false] at hy
    rcases List.mem_append.mp hy with hy | hy
    · exact h.oldest k' hne y hy
    · have hx := h.mem_serving hport
      exact hold.arriving _ (List.mem_append_left _ (List.mem_append_right _ hx)) k' hne y hy

theorem Serves.finish (h : Serves m s k x) (hyes : ∀ k', issues s c k' = decide (k = k'))
    (hack : ∀ k, (s.tagStep c).fsm.ack k = false) (k' : Kind) :
    Free (m.watch s c) (s.tagStep c) k' := by
  obtain ⟨rest, hpend, hqueue⟩ := h.head
  by_cases hk : k' = k
  · subst hk
    refine ⟨hack k', ?_⟩
    cases ha : s.fsm.ack k' <;>
      simp [System.tagStep, System.step, Ids.watch, ha, hqueue, hyes, hpend, TaggedCycle.untag]
  · exact (h.others k' hk).next (hack k') (by simp [hyes, Ne.symm hk])

theorem Serves.go_on (h : Serves m s k x) (hyes : ∀ k', issues s c k' = decide (k = k'))
    (hfresh : s.fsm.ack k = false) (hack : ∀ k', (s.tagStep c).fsm.ack k' = decide (k = k'))
    {x' : Tagged REQID PSB COL} {rest : List (Tagged REQID PSB COL)}
    (hpend : m.pending k = x :: x' :: rest) (hx : (k, x') ∈ sampling m s c)
    (hold : OlderFirst m s c) : Serves (m.watch s c) (s.tagStep c) k x' := by
  obtain ⟨rest', hpend', hqueue⟩ := h.head
  obtain rfl : x' :: rest = rest' := by simpa using hpend.symm.trans hpend'
  refine ⟨⟨rest ++ c.arrivals k, ?_, ?_⟩, fun k' hne => ?_, fun k' hne y hy => ?_⟩
  · simp [Ids.watch, hyes, hpend]
  · rw [hack]
    simp [System.tagStep, System.step, hfresh, hqueue, TaggedCycle.untag]
  · exact (h.others k' hne).next (by simp [hack, hne.symm]) (by simp [hyes, hne.symm])
  · simp only [Ids.watch, hyes, hne.symm, decide_false, Bool.false_eq_true, if_false] at hy
    rcases List.mem_append.mp hy with hy | hy
    · exact hold.waiting _ hx k' hne y hy
    · exact hold.arriving _ (List.mem_append_right _ hx) k' hne y hy

/-! ### The order -/

theorem served_eq_nil (h : issues s c k = false) : m.served s c k = [] := by
  simp [Ids.served, h]

theorem OlderFirst.arriving_issued (hold : OlderFirst m s c) {z : Kind × Tagged REQID PSB COL}
    (hz : z ∈ m.issued) {k' : Kind} (hne : k' ≠ z.1) {y : Tagged REQID PSB COL}
    (hy : y ∈ c.arrivals k') : Older z.2 y :=
  hold.arriving z (List.mem_append_left _ (List.mem_append_left _ hz)) k' hne y hy

theorem IdOrder.quiet (h : IdOrder m) (hno : ∀ k, issues s c k = false)
    (hold : OlderFirst m s c) : IdOrder (m.watch s c) := by
  have hissued : (m.watch s c).issued = m.issued := by simp [Ids.watch, served_eq_nil (hno _)]
  refine ⟨by rw [hissued]; exact h.issued, ?_⟩
  rw [hissued]
  intro z hz k' hne y hy
  simp only [Ids.watch, hno, Bool.false_eq_true, if_false] at hy
  rcases List.mem_append.mp hy with hy | hy
  · exact h.pending z hz k' hne y hy
  · exact hold.arriving_issued hz hne hy

/-- A command is issued: its request was older than all that waits or arrives, and was itself
pending when the earlier ones were issued. -/
theorem IdOrder.issue (h : IdOrder m) (hserve : Serves m s k x) (hport : servingPort s = some k)
    (hyes : ∀ k', issues s c k' = decide (k = k')) (hold : OlderFirst m s c) :
    IdOrder (m.watch s c) := by
  obtain ⟨rest, hpend, -⟩ := hserve.head
  have hissued : (m.watch s c).issued = m.issued ++ [(k, x)] := by
    cases k <;> simp [Ids.watch, Ids.served, hyes, hpend]
  have hpending (k' : Kind) (y : Tagged REQID PSB COL) (hy : y ∈ (m.watch s c).pending k') :
      y ∈ m.pending k' ∨ y ∈ c.arrivals k' := by
    simp only [Ids.watch] at hy
    rcases List.mem_append.mp hy with hy | hy
    · left
      split at hy
      · exact List.mem_of_mem_tail hy
      · exact hy
    · exact Or.inr hy
  refine ⟨?_, ?_⟩
  · rw [hissued, List.pairwise_append]
    refine ⟨h.issued, List.pairwise_singleton _ _, fun z hz w hw hne => ?_⟩
    obtain rfl : w = (k, x) := by simpa using hw
    exact h.pending z hz k hne.symm x (by simp [hpend])
  · rw [hissued]
    intro z hz k' hne y hy
    rcases List.mem_append.mp hz with hz | hz
    · rcases hpending k' y hy with hy | hy
      · exact h.pending z hz k' hne y hy
      · exact hold.arriving_issued hz hne hy
    · obtain rfl : z = (k, x) := by simpa using hz
      rcases hpending k' y hy with hy | hy
      · exact hserve.oldest k' hne y hy
      · have hx := hserve.mem_serving hport
        exact hold.arriving _ (List.mem_append_left _ (List.mem_append_right _ hx)) k' hne y hy

theorem CmdInv.issues_burst (h : CmdInv s.fsm) (hstate : s.fsm.state = k.phase) (k' : Kind) :
    issues s c k' = (decide (k = k') && c.ddlRdyI) := by
  rw [h.issues_eq, hstate]
  cases k <;> cases k' <;> rfl

theorem IdOrder.burst (h : IdOrder m) (hstate : s.fsm.state = k.phase)
    (hport : servingPort s = some k) (hserve : Serves m s k x) (hcmd : CmdInv s.fsm)
    (hold : OlderFirst m s c) : IdOrder (m.watch s c) := by
  have hissues := hcmd.issues_burst (c := c) hstate
  cases hrdy : c.ddlRdyI
  · exact h.quiet (fun k' => by simp [hissues, hrdy]) hold
  · exact h.issue hserve hport (fun k' => by simp [hissues, hrdy]) hold

/-! ### One step -/

theorem tagStep_fsm (s : System PSB COL) (c : TaggedCycle REQID PSB COL) :
    (s.tagStep c).fsm = Ddr3Fsm.step s.fsm (fsmInputs s c.untag) := rfl

theorem idle_port (hstate : s.fsm.state = .idle) (hfree : ∀ k, Free m s k)
    (hno : ∀ k, issues s c k = false) (hold : OlderFirst m s c) :
    match servingPort (s.tagStep c) with
    | some k => ∃ x, Serves (m.watch s c) (s.tagStep c) k x
    | none => ∀ k, Free (m.watch s c) (s.tagStep c) k := by
  have hfsm : (s.tagStep c).fsm = idleNext s.fsm (fsmInputs s c.untag) := by
    simp [tagStep_fsm, Ddr3Fsm.step, hstate, fsmInputs]
  cases href : c.ddlRefI
  · cases hrd : m.pending .rd with
    | cons x rest =>
        have hnext : (s.tagStep c).fsm = sampledState .rd x.toRequest := by
          simp [hfsm, idleNext, fsmInputs, TaggedCycle.untag, href, (hfree .rd).queue, hrd,
            sampledState]
        have hport : servingPort (s.tagStep c) = some .rd := by
          simp [servingPort, hnext, sampledState]
        rw [hport]
        refine ⟨x, Free.serve hfree hno (fun k' => ?_) hrd ?_ hold⟩
        · rw [hnext]
          cases k' <;> rfl
        · simp [sampling, hstate, href, hrd]
    | nil =>
        cases hwr : m.pending .wr with
        | cons x rest =>
            have hnext : (s.tagStep c).fsm = sampledState .wr x.toRequest := by
              simp [hfsm, idleNext, fsmInputs, TaggedCycle.untag, href, (hfree .rd).queue,
                (hfree .wr).queue, hrd, hwr, sampledState]
            have hport : servingPort (s.tagStep c) = some .wr := by
              simp [servingPort, hnext, sampledState]
            rw [hport]
            refine ⟨x, Free.serve hfree hno (fun k' => ?_) hwr ?_ hold⟩
            · rw [hnext]
              cases k' <;> rfl
            · simp [sampling, hstate, href, hrd, hwr]
        | nil =>
            have hnext : (s.tagStep c).fsm =
                { s.fsm with wrack := false, rdack := false, wenQ := false } := by
              simp [hfsm, idleNext, fsmInputs, TaggedCycle.untag, href, (hfree .rd).queue,
                (hfree .wr).queue, hrd, hwr]
            have hport : servingPort (s.tagStep c) = none := by
              simp [servingPort, hnext, hstate]
            rw [hport]
            refine fun k => (hfree k).next ?_ (hno k)
            rw [hnext]
            cases k <;> rfl
  · have hport : servingPort (s.tagStep c) = none := by
      simp [servingPort, hfsm, idleNext, fsmInputs, TaggedCycle.untag, href]
    rw [hport]
    refine fun k => (hfree k).next ?_ (hno k)
    cases k <;> simp [hfsm, idleNext, fsmInputs, TaggedCycle.untag, href, State.ack]

theorem actv_port (hstate : s.fsm.state = .actv) (hport : servingPort s = some k)
    (hserve : Serves m s k x) (hno : ∀ k, issues s c k = false) (hold : OlderFirst m s c) :
    match servingPort (s.tagStep c) with
    | some k => ∃ x, Serves (m.watch s c) (s.tagStep c) k x
    | none => ∀ k, Free (m.watch s c) (s.tagStep c) k := by
  have hfsm : (s.tagStep c).fsm = actvNext s.fsm (fsmInputs s c.untag) := by
    simp [tagStep_fsm, Ddr3Fsm.step, hstate, fsmInputs]
  have hack : ∀ k, (s.tagStep c).fsm.ack k = false := by
    intro k
    rw [hfsm, actvNext]
    split <;> cases k <;> rfl
  have hport' : servingPort (s.tagStep c) = some k := by
    rw [← hport]
    cases hrdy : c.ddlRdyI <;> cases hwen : s.fsm.wenQ <;>
      simp [servingPort, hfsm, actvNext, fsmInputs, TaggedCycle.untag, hrdy, hwen, hstate]
  rw [hport']
  exact ⟨x, hserve.stall hport hno hack hold⟩

theorem burst_port (hstate : s.fsm.state = k.phase) (hserve : Serves m s k x)
    (hcmd : CmdInv s.fsm) (hold : OlderFirst m s c) :
    match servingPort (s.tagStep c) with
    | some k => ∃ x, Serves (m.watch s c) (s.tagStep c) k x
    | none => ∀ k, Free (m.watch s c) (s.tagStep c) k := by
  have hport : servingPort s = some k := by cases k <;> simp [servingPort, hstate, Kind.phase]
  cases hrdy : c.ddlRdyI
  · have hno : ∀ k, issues s c k = false := by simp [hcmd.issues_eq, hrdy]
    have hnext : (s.tagStep c).fsm = { s.fsm with wrack := false, rdack := false } := by
      cases k <;> simp [tagStep_fsm, Ddr3Fsm.step, hstate, fsmInputs, Kind.phase, readNext,
        writNext, TaggedCycle.untag, hrdy]
    have hport' : servingPort (s.tagStep c) = some k := by
      rw [← hport]
      simp [servingPort, hnext]
    rw [hport']
    refine ⟨x, hserve.stall hport hno (fun k => ?_) hold⟩
    rw [hnext]
    cases k <;> rfl
  · have hyes : ∀ k', issues s c k' = decide (k = k') := by
      simp [hcmd.issues_burst hstate, hrdy]
    obtain ⟨rest, hpend, hqueue⟩ := hserve.head
    by_cases hgo : s.fsm.preQ = 0#(PSB + 1) ∧ s.queue k ≠ []
    · have hgoes : goesOn s c = true := by simp [goesOn, hrdy, hgo.1]
      have hfresh : s.fsm.ack k = false := by
        cases ha : s.fsm.ack k
        · rfl
        · simp [hold.popped k hstate ha] at hgoes
      cases rest with
      | nil => simp [hfresh, hqueue] at hgo
      | cons x' rest =>
          have hq : s.queue k = x'.toRequest :: rest.map Tagged.toRequest := by
            simp [hqueue, hfresh]
          have hnext : servingPort (s.tagStep c) = some k ∧
              ∀ k', (s.tagStep c).fsm.ack k' = decide (k = k') := by
            refine ⟨?_, fun k' => ?_⟩
            · cases k <;> simp [servingPort, tagStep_fsm, Ddr3Fsm.step, hstate, fsmInputs,
                Kind.phase, readNext, writNext, TaggedCycle.untag, hrdy, hgo.1, hq]
            · cases k <;> cases k' <;> simp [tagStep_fsm, Ddr3Fsm.step, hstate, fsmInputs,
                Kind.phase, readNext, writNext, TaggedCycle.untag, hrdy, hgo.1, hq, State.ack]
          rw [hnext.1]
          refine ⟨x', hserve.go_on hyes hfresh hnext.2 hpend ?_ hold⟩
          cases k <;> simp [sampling, hstate, Kind.phase, hgoes, hpend]
    · have hnext : servingPort (s.tagStep c) = none ∧ ∀ k', (s.tagStep c).fsm.ack k' = false := by
        refine ⟨?_, fun k' => ?_⟩
        · cases k <;> simp [servingPort, tagStep_fsm, Ddr3Fsm.step, hstate, fsmInputs,
            Kind.phase, readNext, writNext, TaggedCycle.untag, hrdy, hgo]
        · cases k <;> cases k' <;> simp [tagStep_fsm, Ddr3Fsm.step, hstate, fsmInputs,
            Kind.phase, readNext, writNext, TaggedCycle.untag, hrdy, hgo, State.ack]
      rw [hnext.1]
      exact fun k' => hserve.finish hyes hnext.2 k'

theorem refr_port (hstate : s.fsm.state = .refr) (hfree : ∀ k, Free m s k)
    (hno : ∀ k, issues s c k = false) :
    match servingPort (s.tagStep c) with
    | some k => ∃ x, Serves (m.watch s c) (s.tagStep c) k x
    | none => ∀ k, Free (m.watch s c) (s.tagStep c) k := by
  have hfsm : (s.tagStep c).fsm = refrNext s.fsm (fsmInputs s c.untag) := by
    simp [tagStep_fsm, Ddr3Fsm.step, hstate, fsmInputs]
  have hstate' : (s.tagStep c).fsm.state = .idle ∨ (s.tagStep c).fsm.state = .refr := by
    rw [hfsm, refrNext]
    split
    · exact Or.inl rfl
    · exact Or.inr hstate
  have hport : servingPort (s.tagStep c) = none := by
    rcases hstate' with h | h <;> simp [servingPort, h]
  rw [hport]
  refine fun k => (hfree k).next ?_ (hno k)
  rw [hfsm, refrNext]
  split <;> cases k <;> rfl

theorem OrderInv.next (h : OrderInv s m) (hold : OlderFirst m s c) :
    OrderInv (s.tagStep c) (m.watch s c) := by
  have hport := h.port
  cases hstate : s.fsm.state
  case idle =>
    have hno : ∀ k, issues s c k = false := by
      intro k
      cases k <;> simp [h.cmd.issues_eq, hstate, Kind.phase]
    have hfree : ∀ k, Free m s k := by simpa [servingPort, hstate] using hport
    exact ⟨h.cmd.next, idle_port hstate hfree hno hold, h.order.quiet hno hold⟩
  case refr =>
    have hno : ∀ k, issues s c k = false := by
      intro k
      cases k <;> simp [h.cmd.issues_eq, hstate, Kind.phase]
    have hfree : ∀ k, Free m s k := by simpa [servingPort, hstate] using hport
    exact ⟨h.cmd.next, refr_port hstate hfree hno, h.order.quiet hno hold⟩
  case actv =>
    have hno : ∀ k, issues s c k = false := by
      intro k
      cases k <;> simp [h.cmd.issues_eq, hstate, Kind.phase]
    have hsome : servingPort s = some (if s.fsm.wenQ then .wr else .rd) := by
      simp [servingPort, hstate]
    rw [hsome] at hport
    obtain ⟨x, hx⟩ := hport
    exact ⟨h.cmd.next, actv_port hstate hsome hx hno hold, h.order.quiet hno hold⟩
  case read =>
    have hsome : servingPort s = some .rd := by simp [servingPort, hstate]
    rw [hsome] at hport
    obtain ⟨x, hx⟩ := hport
    exact ⟨h.cmd.next, burst_port (k := .rd) hstate hx h.cmd hold,
      h.order.burst (k := .rd) hstate hsome hx h.cmd hold⟩
  case writ =>
    have hsome : servingPort s = some .wr := by simp [servingPort, hstate]
    rw [hsome] at hport
    obtain ⟨x, hx⟩ := hport
    exact ⟨h.cmd.next, burst_port (k := .wr) hstate hx h.cmd hold,
      h.order.burst (k := .wr) hstate hsome hx h.cmd hold⟩

end Step

/-! ## Runs -/

/-- The scheduler out of reset, its ports and the IDs after some cycles. -/
def tagged (s : State PSB COL) (cmd : Ddr3Cmd) (ba : BitVec 3) (adr : BitVec (PSB + 1 + COL))
    (queue : Kind → List (Tagged REQID PSB COL)) (cs : List (TaggedCycle REQID PSB COL)) :
    System PSB COL × Ids REQID PSB COL :=
  run (watched System.tagStep Ids.watch)
    (System.start s cmd ba adr fun k => (queue k).map Tagged.toRequest, Ids.start queue) cs

/-- In every cycle of the run no request is sampled before an older one. -/
def OlderFirstRun (s : State PSB COL) (cmd : Ddr3Cmd) (ba : BitVec 3)
    (adr : BitVec (PSB + 1 + COL)) (queue : Kind → List (Tagged REQID PSB COL))
    (cs : List (TaggedCycle REQID PSB COL)) : Prop :=
  Along (watched System.tagStep Ids.watch) (fun q c => OlderFirst q.2 q.1 c)
    (System.start s cmd ba adr fun k => (queue k).map Tagged.toRequest, Ids.start queue) cs

instance (s : State PSB COL) (cmd : Ddr3Cmd) (ba : BitVec 3) (adr : BitVec (PSB + 1 + COL))
    (queue : Kind → List (Tagged REQID PSB COL)) (cs : List (TaggedCycle REQID PSB COL)) :
    Decidable (OlderFirstRun s cmd ba adr queue cs) :=
  inferInstanceAs (Decidable (Along _ _ _ _))

theorem orderInv_start (s : State PSB COL) (cmd : Ddr3Cmd) (ba : BitVec 3)
    (adr : BitVec (PSB + 1 + COL)) (queue : Kind → List (Tagged REQID PSB COL)) :
    OrderInv (System.start s cmd ba adr fun k => (queue k).map Tagged.toRequest)
      (Ids.start queue) := by
  refine ⟨rfl, fun k => ⟨?_, rfl⟩, ⟨List.Pairwise.nil, ?_⟩⟩
  · cases k <;> rfl
  · simp [Ids.start]

/-- Reads and writes of one burst keep the order of their IDs in every run in which no request
is sampled before an older one. -/
theorem idOrder_of_olderFirst (s : State PSB COL) (cmd : Ddr3Cmd) (ba : BitVec 3)
    (adr : BitVec (PSB + 1 + COL)) (queue : Kind → List (Tagged REQID PSB COL))
    (cs : List (TaggedCycle REQID PSB COL)) (h : OlderFirstRun s cmd ba adr queue cs) :
    IdOrder (tagged s cmd ba adr queue cs).2 := by
  let P (q : System PSB COL × Ids REQID PSB COL) : Prop := OrderInv q.1 q.2
  have hrun : P (tagged s cmd ba adr queue cs) :=
    run_invariant P (fun q c hq hc => hq.next hc) (orderInv_start s cmd ba adr queue) h
  exact hrun.order

/-- A write of the first burst with the first ID. -/
def firstWrite : Kind → List (Tagged 4 2 10)
  | .rd => []
  | .wr => [⟨⟨true, 0⟩, 0⟩]

/-- A read of the first burst with the second ID. -/
def secondRead : Kind → List (Tagged 4 2 10)
  | .rd => [⟨⟨true, 0⟩, 1⟩]
  | .wr => []

def bothPending (k : Kind) : List (Tagged 4 2 10) := firstWrite k ++ secondRead k

/-- Cycles with ready high every other time, and arrivals in the first. -/
def eightCycles (arrivals : Kind → List (Tagged 4 2 10)) : List (TaggedCycle 4 2 10) :=
  ⟨false, false, arrivals⟩ ::
    [true, false, true, false, true, false, true].map fun rdy => ⟨rdy, false, fun _ => []⟩

/-- The hypothesis is met when the write is sampled before the read arrives. -/
theorem idOrder_of_olderFirst_pair :
    IdOrder (tagged default .noop 0 0 firstWrite (eightCycles secondRead)).2 :=
  idOrder_of_olderFirst default .noop 0 0 firstWrite (eightCycles secondRead) (by decide)

/-- The IDs of the requests that reach a port in a run. -/
def arrivedIds (queue : Kind → List (Tagged REQID PSB COL))
    (cs : List (TaggedCycle REQID PSB COL)) (k : Kind) : List (BitVec REQID) :=
  (queue k ++ cs.flatMap fun c => c.arrivals k).map Tagged.tid

/-- The IDs are distinct, and ascend on each port. -/
def DistinctIds (queue : Kind → List (Tagged REQID PSB COL))
    (cs : List (TaggedCycle REQID PSB COL)) : Prop :=
  (∀ k, (arrivedIds queue cs k).Pairwise (· < ·)) ∧
    ∀ x ∈ arrivedIds queue cs .rd, x ∉ arrivedIds queue cs .wr

instance (queue : Kind → List (Tagged REQID PSB COL)) (cs : List (TaggedCycle REQID PSB COL)) :
    Decidable (DistinctIds queue cs) :=
  inferInstanceAs (Decidable (_ ∧ _))

/-- When both are pending the read is issued first. -/
theorem not_alwaysIdOrder :
    ¬ ∀ (REQID PSB COL : ℕ) (s : State PSB COL) (cmd : Ddr3Cmd) (ba : BitVec 3)
      (adr : BitVec (PSB + 1 + COL)) (queue : Kind → List (Tagged REQID PSB COL))
      (cs : List (TaggedCycle REQID PSB COL)),
      DistinctIds queue cs → IdOrder (tagged s cmd ba adr queue cs).2 := by
  intro h
  have horder := (h 4 2 10 default .noop 0 0 bothPending (eightCycles fun _ => []) (by decide)).issued
  revert horder
  decide

end MiscVerilogCores.Ddr3Fsm
