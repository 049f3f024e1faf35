import MiscVerilogCores.Library.Clocked
import MiscVerilogCores.Model.Ddr3Ddl

/-! # Unspecified counts

The source leaves the calibration count unknown when a command does not use it, and tests it in
every cycle in which it waits. What synthesis makes of the unknown bits is seen at the ports unless
the delay ends in the first of these cycles anyway. -/

namespace MiscVerilogCores.Ddr3Ddl

open Clocked

variable {ROW DDR_FREQ_MHZ : ℕ}

/-! ## Runs in hardware -/

/-- What an edge sees, apart from the values of an unknown count. -/
structure Edge (ROW DDR_FREQ_MHZ : ℕ) where
  inputs : Inputs ROW
  delay : BitVec (delayBits DDR_FREQ_MHZ)

def hwStep (r : Registers DDR_FREQ_MHZ) (e : Edge ROW DDR_FREQ_MHZ × BitVec countBits) :
    Registers DDR_FREQ_MHZ :=
  r.step e.1.inputs ⟨e.2, e.1.delay⟩

/-- The command that goes to the PHY in a cycle, and `ctl_rdy_o` and `state` after it. -/
def visible (LOW_LATENCY : Bool) (r : Registers DDR_FREQ_MHZ)
    (e : Edge ROW DDR_FREQ_MHZ × BitVec countBits) : List (Ddr3Cmd × Bool × Ddr3Cmd) :=
  [(dfiCmdO LOW_LATENCY r e.1.inputs, (hwStep r e).ready, (hwStep r e).state)]

/-- Whatever values an unknown count takes, the same is seen in every cycle. -/
def Independent (LOW_LATENCY : Bool) (r : Registers DDR_FREQ_MHZ)
    (is : List (Edge ROW DDR_FREQ_MHZ)) : Prop :=
  ∀ es es' : List (Edge ROW DDR_FREQ_MHZ × BitVec countBits), es.map Prod.fst = is →
    es'.map Prod.fst = is →
    emitted hwStep (visible LOW_LATENCY) r es = emitted hwStep (visible LOW_LATENCY) r es'

/-! ## Runs with unknown counts -/

/-- An edge that leaves an unknown count unknown. -/
def xStep (s : State DDR_FREQ_MHZ) (e : Edge ROW DDR_FREQ_MHZ) : State DDR_FREQ_MHZ :=
  let next := step DDR_FREQ_MHZ s e.inputs
  { next with delay := some (next.delay.getD e.delay) }

/-- The data layer waits, and its count is unknown. -/
structure Waits (s : State DDR_FREQ_MHZ) (i : Inputs ROW) : Prop where
  reset : i.reset = false
  cke : i.ddrCkeI = true
  busy : s.busy = false
  ready : s.ready = false
  count : s.count = none

/-- Its delay is not over either. -/
structure Exposed (s : State DDR_FREQ_MHZ) (i : Inputs ROW) : Prop extends Waits s i where
  delay : s.delay.any (·.getLsbD 0) = false

/-- The registers have the values that are known of them. -/
structure Matches (s : State DDR_FREQ_MHZ) (r : Registers DDR_FREQ_MHZ) : Prop where
  state : r.state = s.state
  ready : r.ready = s.ready
  busy : r.busy = s.busy
  count : s.count = some r.count ∨ s.count = none ∧ s.busy = false
  delay : s.delay = some r.delay

theorem matches_known (r : Registers DDR_FREQ_MHZ) : Matches r.known r :=
  ⟨rfl, rfl, rfl, Or.inl rfl, rfl⟩

section Step

variable {s : State DDR_FREQ_MHZ} {r r' : Registers DDR_FREQ_MHZ} {e : Edge ROW DDR_FREQ_MHZ}
  {c : BitVec countBits}

/-- Where the count is known, so is the state. -/
theorem Matches.eq_known (h : Matches s r) (hcount : s.count = some r.count) : s = r.known := by
  obtain ⟨hstate, hready, hbusy, -, hdelay⟩ := h
  cases s
  simp only at hstate hready hbusy hdelay hcount
  rw [Registers.known, hstate, hready, hbusy, hdelay, hcount]

theorem step_busy {i : Inputs ROW} (h : s.count = none → s.busy = false)
    (hnext : (step DDR_FREQ_MHZ s i).count = none) : (step DDR_FREQ_MHZ s i).busy = false := by
  revert hnext
  rw [step]
  split_ifs with hreset hwait hreq
  · simp
  · cases hcount : s.count with
    | none => simp [wait, hcount, h hcount]
    | some c' => cases hbusy : s.busy <;> simp [wait, hcount, hbusy]
  · cases hcal : calibrates s.state i.ctlCmdI <;> simp [takeCommand, hcal]
  · simp

/-- Edges that go to the same state leave the registers with what is known of it. -/
theorem Matches.next_of_eq (h : Matches s r)
    (hstep : step DDR_FREQ_MHZ s e.inputs = step DDR_FREQ_MHZ r.known e.inputs) :
    Matches (xStep s e) (hwStep r (e, c)) := by
  have hnone : s.count = none → s.busy = false := by
    intro hcount
    rcases h.count with hknown | hunknown
    · simp [hcount] at hknown
    · exact hunknown.2
  have hbusy := step_busy (i := e.inputs) hnone
  rw [hstep] at hbusy
  refine ⟨?_, ?_, ?_, ?_, ?_⟩ <;> simp only [xStep, hwStep, Registers.step, hstep]
  cases hcount : (step DDR_FREQ_MHZ r.known e.inputs).count with
  | none => exact Or.inr ⟨rfl, hbusy hcount⟩
  | some c' => exact Or.inl rfl

/-- Only a wait looks at a count that may be unknown. -/
theorem Matches.same_or_waits (h : Matches s r) (i : Inputs ROW) :
    step DDR_FREQ_MHZ s i = step DDR_FREQ_MHZ r.known i ∨ Waits s i := by
  rcases h.count with hcount | ⟨hcount, hbusy⟩
  · left
    rw [h.eq_known hcount]
  · by_cases hreset : (i.reset || !i.ddrCkeI) = true
    · left
      rw [step, step, if_pos hreset, if_pos hreset]
    · by_cases hready : s.ready = true
      · left
        have hstate : r.known.state = s.state := h.state
        have hwait : ¬(s.busy || !s.ready) = true := by simp [hbusy, hready]
        have hwait' : ¬(r.known.busy || !r.known.ready) = true := by
          simp [Registers.known, h.busy, h.ready, hbusy, hready]
        simp only [step, if_neg hreset, if_neg hwait, if_neg hwait', takeCommand, hstate]
      · right
        simp only [Bool.or_eq_true, Bool.not_eq_true', not_or, Bool.not_eq_true,
          Bool.not_eq_false] at hreset hready
        exact ⟨hreset.1, hreset.2, hbusy, hready, hcount⟩

/-- If the delay of a wait is over, the count is not looked at. -/
theorem Waits.next (hw : Waits s e.inputs) (h : Matches s r) (he : ¬Exposed s e.inputs) :
    Matches (xStep s e) (hwStep r (e, c)) ∧ (hwStep r (e, c)).count = r.count := by
  have hdelay : s.delay.any (·.getLsbD 0) = true := by
    by_contra hno
    exact he ⟨hw, by simpa using hno⟩
  have hbit : r.delay.getLsbD 0 = true := by simpa [h.delay] using hdelay
  have hbusy : r.busy = false := h.busy.trans hw.busy
  have hready : r.ready = false := h.ready.trans hw.ready
  have hknown : hwStep r (e, c) =
      { r with ready := true, delay := r.delay >>> 1, cmdQ := (hwStep r (e, c)).cmdQ } := by
    simp [hwStep, Registers.step, Registers.known, step, wait, hw.reset, hw.cke, hbusy, hready, hbit]
  have hunknown : xStep s e = { s with ready := true, delay := some (r.delay >>> 1) } := by
    simp [xStep, step, wait, hw.reset, hw.cke, hw.busy, hw.ready, hw.count, h.delay, hbit]
  rw [hknown, hunknown]
  exact ⟨⟨h.state, rfl, h.busy, Or.inr ⟨hw.count, hw.busy⟩, rfl⟩, rfl⟩

theorem Matches.next (h : Matches s r) (he : ¬Exposed s e.inputs) :
    Matches (xStep s e) (hwStep r (e, c)) := by
  rcases h.same_or_waits e.inputs with hsame | hwaits
  · exact h.next_of_eq hsame
  · exact (hwaits.next h he).1

/-- A count that stays unknown keeps the value that it was given. -/
theorem Matches.count_next (h : Matches s r) (he : ¬Exposed s e.inputs)
    (hc : s.count = none → r.count = c) (hnext : (xStep s e).count = none) :
    (hwStep r (e, c)).count = c := by
  rcases h.same_or_waits e.inputs with hsame | hwaits
  · have hnone : (step DDR_FREQ_MHZ r.known e.inputs).count = none := hsame ▸ hnext
    simp only [hwStep, Registers.step, hnone, Option.getD_none]
  · rw [(hwaits.next h he).2, hc hwaits.count]

/-- A run in which no count is exposed looks the same whatever is chosen. -/
theorem Matches.visible_eq (h : Matches s r) (h' : Matches s r') (hcmd : r.cmdQ = r'.cmdQ)
    (he : ¬Exposed s e.inputs) (LOW_LATENCY : Bool) (c' : BitVec countBits) :
    visible LOW_LATENCY r (e, c) = visible LOW_LATENCY r' (e, c') ∧
      (hwStep r (e, c)).cmdQ = (hwStep r' (e, c')).cmdQ := by
  have hnext := h.next (c := c) he
  have hnext' := h'.next (c := c') he
  have hnop : nopW r e.inputs = nopW r' e.inputs := by simp only [nopW, h.ready, h'.ready]
  refine ⟨?_, ?_⟩
  · simp only [visible, dfiCmdO, hnop, hcmd, hnext.ready, hnext'.ready, hnext.state, hnext'.state]
  · simp only [hwStep, Registers.step, hnop]

/-- The count decides whether an exposed wait is over. -/
theorem Exposed.ready_next (he : Exposed s e.inputs) (h : Matches s r) :
    (hwStep r (e, c)).ready = decide (r.count = 1) := by
  have hbusy : r.busy = false := h.busy.trans he.busy
  have hready : r.ready = false := h.ready.trans he.ready
  have hbit : r.delay.getLsbD 0 = false := by simpa [h.delay] using he.delay
  have hone : r.count - BitVec.ofNat countBits 1 = BitVec.ofNat countBits 0 ↔
      r.count = BitVec.ofNat countBits 1 := by
    rw [BitVec.sub_eq_iff_eq_add, BitVec.zero_add]
  simp [hwStep, Registers.step, Registers.known, step, wait, he.reset, he.cke, hbusy, hready, hbit,
    hone]

end Step

/-! ## Two runs -/

theorem emitted_eq_of_unexposed (LOW_LATENCY : Bool) {s : State DDR_FREQ_MHZ}
    {r r' : Registers DDR_FREQ_MHZ} (h : Matches s r) (h' : Matches s r') (hcmd : r.cmdQ = r'.cmdQ)
    {is : List (Edge ROW DDR_FREQ_MHZ)} (his : Along xStep (fun s e => ¬Exposed s e.inputs) s is)
    {es es' : List (Edge ROW DDR_FREQ_MHZ × BitVec countBits)} (hes : es.map Prod.fst = is)
    (hes' : es'.map Prod.fst = is) :
    emitted hwStep (visible LOW_LATENCY) r es = emitted hwStep (visible LOW_LATENCY) r' es' := by
  induction is generalizing s r r' es es' with
  | nil =>
      rw [List.map_eq_nil_iff] at hes hes'
      rw [hes, hes']
      rfl
  | cons e is ih =>
      obtain ⟨⟨_, c⟩, es, rfl, rfl, hrest⟩ := List.map_eq_cons_iff.mp hes
      obtain ⟨⟨e', c'⟩, es', rfl, he', hrest'⟩ := List.map_eq_cons_iff.mp hes'
      obtain rfl : e' = _ := he'
      obtain ⟨hsame, hcmd'⟩ := h.visible_eq h' hcmd his.1 LOW_LATENCY c' (c := c)
      rw [emitted_cons, emitted_cons, hsame,
        ih (h.next his.1) (h'.next his.1) hcmd' his.2 hrest hrest']

/-- One choice ends an exposed wait, the other does not. -/
theorem unexposed_of_emitted_eq (LOW_LATENCY : Bool) {s : State DDR_FREQ_MHZ}
    {r r' : Registers DDR_FREQ_MHZ} (h : Matches s r) (h' : Matches s r')
    (hc : s.count = none → r.count = 1) (hc' : s.count = none → r'.count = 0) {is : List (Edge ROW DDR_FREQ_MHZ)}
    (heq : emitted hwStep (visible LOW_LATENCY) r (is.map (·, 1)) =
      emitted hwStep (visible LOW_LATENCY) r' (is.map (·, 0))) :
    Along xStep (fun s e => ¬Exposed s e.inputs) s is := by
  induction is generalizing s r r' with
  | nil => trivial
  | cons e is ih =>
      obtain ⟨hhere, hrest⟩ := List.append_inj heq rfl
      have he : ¬Exposed s e.inputs := by
        intro he
        have hready : (hwStep r (e, 1)).ready = (hwStep r' (e, 0)).ready := by
          simp only [visible, List.cons.injEq, Prod.mk.injEq] at hhere
          exact hhere.1.2.1
        rw [he.ready_next h, he.ready_next h', hc he.count, hc' he.count] at hready
        exact absurd hready (by decide)
      exact ⟨he, ih (h.next he) (h'.next he) (h.count_next he hc) (h'.count_next he hc') hrest⟩

/-- Command spacing is independent of unknown counts in exactly the runs that expose none. -/
theorem independent_iff_unexposed (LOW_LATENCY : Bool) (r : Registers DDR_FREQ_MHZ)
    (is : List (Edge ROW DDR_FREQ_MHZ)) :
    Independent LOW_LATENCY r is ↔ Along xStep (fun s e => ¬Exposed s e.inputs) r.known is := by
  refine ⟨fun h => ?_, fun h es es' hes hes' => ?_⟩
  · have hknown : r.known.count ≠ none := by simp [Registers.known]
    refine unexposed_of_emitted_eq LOW_LATENCY (matches_known r) (matches_known r)
      (fun hcount => absurd hcount hknown) (fun hcount => absurd hcount hknown) (h _ _ ?_ ?_) <;>
      simp [Function.comp_def]
  · exact emitted_eq_of_unexposed LOW_LATENCY (matches_known r) (matches_known r) rfl h hes hes'

/-- A REFRESH after the data layer has come out of reset, and the first cycle of its delay. -/
def refreshRun : List (Edge 14 100) :=
  let idle : Inputs 14 := ⟨false, true, false, .noop, 0⟩
  [⟨{ idle with reset := true }, 0⟩] ++ List.replicate 18 ⟨idle, 0⟩ ++
    [⟨{ idle with ctlReqI := true, ctlCmdI := .refr }, 0⟩, ⟨idle, 0⟩]

theorem not_alwaysIndependent :
    ¬ ∀ (LOW_LATENCY : Bool) (r : Registers 100) (is : List (Edge 14 100)),
      Independent LOW_LATENCY r is := by
  intro h
  have heq := h true default refreshRun (refreshRun.map (·, 1)) (refreshRun.map (·, 0)) rfl rfl
  revert heq
  decide

end MiscVerilogCores.Ddr3Ddl
