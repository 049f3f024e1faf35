import MiscVerilogCores.Library.Clocked
import MiscVerilogCores.Model.Ddr3Cfg

/-! # Refresh accounting of the DDR3 controller

Every refresh interval that ends after initialisation is owed one REFRESH command. The
configuration takes one off when the data layer is ready while a refresh is requested,
whatever command the scheduler presents at that time. -/

namespace MiscVerilogCores.Ddr3Ctrl

open Clocked

variable {COUNTER_BITS PSB COL : ℕ} {t : Ddr3Timing}

/-- The refresh intervals that have ended, and the REFRESH commands that were accepted, since
initialisation completed. -/
structure Tally where
  elapsed : ℕ
  refreshed : ℕ
deriving DecidableEq

/-- The data layer accepts a REFRESH command. -/
def refreshAccepted (s : State COUNTER_BITS PSB COL) (i : Inputs PSB COL) : Bool :=
  Ddr3Fsm.accepts s.fsm (fsmInputs s i) && s.fsm.cmdQ == .refr

def Tally.watch (m : Tally) (s : State COUNTER_BITS PSB COL) (i : Inputs PSB COL) : Tally where
  elapsed := m.elapsed + (s.cfg.runQ && Ddr3Cfg.expires s.cfg).toNat
  refreshed := m.refreshed + (s.cfg.runQ && refreshAccepted s i).toNat

/-- Every interval that has ended is either refreshed or pending. -/
def Balanced (s : State COUNTER_BITS PSB COL) (m : Tally) : Prop :=
  m.elapsed = m.refreshed + s.cfg.refreshPending.toNat

instance (s : State COUNTER_BITS PSB COL) (m : Tally) : Decidable (Balanced s m) :=
  inferInstanceAs (Decidable (_ = _))

/-- In a cycle after initialisation, a refresh is taken off exactly when a REFRESH command is
accepted, and no interval ends with the counter full. -/
def Accounts (s : State COUNTER_BITS PSB COL) (i : Inputs PSB COL) : Prop :=
  s.cfg.runQ = true →
    (refreshAccepted s i = true ↔ Ddr3Cfg.refreshIssued s.cfg (cfgInputs i) = true ∧
      (Ddr3Cfg.expires s.cfg = true ∨ s.cfg.refreshPending ≠ 0)) ∧
    ¬ (Ddr3Cfg.expires s.cfg = true ∧ Ddr3Cfg.refreshIssued s.cfg (cfgInputs i) = false ∧
      s.cfg.refreshPending = 7)

/-- The controller and its tally in a run that starts with a reset. -/
def tallied (t : Ddr3Timing) (s₀ : State COUNTER_BITS PSB COL) (is : List (Inputs PSB COL)) :
    State COUNTER_BITS PSB COL × Tally :=
  run (watched (step t) Tally.watch) (afterReset t s₀, ⟨0, 0⟩) is

/-- A cycle with nothing but a ready signal. -/
def readyCycle (rdy : Bool) : Inputs PSB COL where
  reset := false
  dfiCalibI := true
  ddlRdyI := rdy
  memWrreqI := false
  memWrlstI := false
  memWradrI := 0
  memRdreqI := false
  memRdlstI := false
  memRdadrI := 0

/-! ## One cycle -/

section Step

variable {s : State COUNTER_BITS PSB COL} {i : Inputs PSB COL} {m : Tally}

theorem balanced_afterReset (t : Ddr3Timing) (s : State COUNTER_BITS PSB COL) :
    Balanced (afterReset t s) ⟨0, 0⟩ := by
  simp [Balanced, afterReset, step, Ddr3Cfg.step, Ddr3Cfg.refreshPendingNext, cfgInputs]

/-- A cycle keeps the balance if and only if it accounts for its refreshes. -/
theorem balanced_next_iff (hr : i.reset = false) (h : Balanced s m) :
    Balanced (step t s i) (m.watch s i) ↔ Accounts s i := by
  have hlt := s.cfg.refreshPending.isLt
  have hzero : s.cfg.refreshPending = 0 ↔ s.cfg.refreshPending.toNat = 0 := by
    rw [← BitVec.toNat_inj]
    rfl
  have hseven : s.cfg.refreshPending = 7 ↔ s.cfg.refreshPending.toNat = 7 := by
    rw [← BitVec.toNat_inj]
    rfl
  have hadd : (s.cfg.refreshPending + 1).toNat = (s.cfg.refreshPending.toNat + 1) % 8 :=
    BitVec.toNat_add _ _
  have hsub : (s.cfg.refreshPending - 1).toNat = (s.cfg.refreshPending.toNat + 7) % 8 := by
    rw [BitVec.toNat_sub, Nat.add_comm]
    rfl
  rw [Balanced] at h
  simp only [Balanced, step, Ddr3Cfg.step, Ddr3Cfg.refreshPendingNext, cfgInputs, hr, Tally.watch,
    Accounts, Bool.false_eq_true, if_false]
  cases hrun : s.cfg.runQ
  · simpa using h
  · generalize hp : s.cfg.refreshPending.toNat = n at *
    cases hacc : refreshAccepted s i <;> cases hexp : Ddr3Cfg.expires s.cfg <;>
      cases hiss : Ddr3Cfg.refreshIssued s.cfg ⟨false, i.dfiCalibI, i.ddlRdyI⟩ <;>
      by_cases hn : s.cfg.refreshPending = 0 <;>
      simp_all <;> omega

end Step

/-! ## Runs -/

theorem balanced_along_iff {s : State COUNTER_BITS PSB COL} {m : Tally}
    {is : List (Inputs PSB COL)} (hr : ∀ i ∈ is, i.reset = false) (h : Balanced s m) :
    (∀ js, js <+: is →
      Balanced (run (watched (step t) Tally.watch) (s, m) js).1
        (run (watched (step t) Tally.watch) (s, m) js).2) ↔
      Along (step t) Accounts s is := by
  induction is generalizing s m with
  | nil =>
      refine ⟨fun _ => trivial, fun _ js hjs => ?_⟩
      rw [List.prefix_nil.mp hjs]
      exact h
  | cons i is ih =>
      have hri := hr i (by simp)
      have hrest := fun h' => ih (s := step t s i) (m := m.watch s i)
        (fun j hj => hr j (List.mem_cons_of_mem i hj)) h'
      constructor
      · intro hall
        have hnext : Balanced (step t s i) (m.watch s i) := hall [i] (by simp)
        refine ⟨(balanced_next_iff hri h).mp hnext, (hrest hnext).mp fun js hjs => ?_⟩
        exact hall (i :: js) (List.cons_prefix_cons.mpr ⟨rfl, hjs⟩)
      · rintro ⟨hacc, halong⟩ js hjs
        have hnext := (balanced_next_iff (t := t) hri h).mpr hacc
        cases js with
        | nil => exact h
        | cons j js =>
            obtain ⟨rfl, hjs'⟩ := List.cons_prefix_cons.mp hjs
            exact (hrest hnext).mpr halong js hjs'

/-- The configuration port requests nothing after initialisation. -/
def Configured (s : Ddr3Cfg.State COUNTER_BITS (PSB + 1 + COL)) : Prop :=
  s.runQ = true → s.reqQ = false

theorem Configured.phaseNext {s : Ddr3Cfg.State COUNTER_BITS (PSB + 1 + COL)} (h : Configured s)
    (i : Ddr3Cfg.Inputs) : Configured (Ddr3Cfg.phaseNext t s i) := by
  rw [Configured] at h ⊢
  cases hs : s.state <;> cases hr : i.ctlRdyI <;> cases hc : i.dfiCalibI <;>
    simp_all [Ddr3Cfg.phaseNext, Ddr3Cfg.setBus, Ddr3Cfg.modeNext]

theorem Configured.step {s : Ddr3Cfg.State COUNTER_BITS (PSB + 1 + COL)} (h : Configured s)
    (i : Ddr3Cfg.Inputs) : Configured (Ddr3Cfg.step t s i) := by
  cases hr : i.reset
  · simpa [Configured, Ddr3Cfg.step, hr] using h.phaseNext (t := t) i
  · simp [Configured, Ddr3Cfg.step, hr]

/-- When the scheduler is enabled, in a run from reset, it comes out of a reset edge at which the
configuration port requests nothing. -/
theorem fsm_enabled (t : Ddr3Timing) (s₀ : State COUNTER_BITS PSB COL)
    (is : List (Inputs PSB COL)) (i : Inputs PSB COL)
    (hoff : (run (step t) (afterReset t s₀) is).enQ = false)
    (hon : (step t (run (step t) (afterReset t s₀) is) i).enQ = true) :
    (step t (run (step t) (afterReset t s₀) is) i).fsm.state = .idle ∧
      (step t (run (step t) (afterReset t s₀) is) i).fsm.reqQ = false := by
  let Inv (s : State COUNTER_BITS PSB COL) : Prop := Configured s.cfg
  have hstart : Inv (afterReset t s₀) := by
    simp [Inv, Configured, afterReset, step, Ddr3Cfg.step, cfgInputs]
  have hinv : Inv (run (step t) (afterReset t s₀) is) :=
    run_invariant Inv (fun _ i h _ => Configured.step h (cfgInputs i)) hstart
      (along_of_inputs (step t) _ (fun _ _ => trivial))
  generalize run (step t) (afterReset t s₀) is = s at hoff hon hinv
  have hrun : s.cfg.runQ = true := by
    simp only [step, Bool.and_eq_true] at hon
    exact hon.2
  simp [step, Ddr3Fsm.step, fsmInputs, hoff, Ddr3Fsm.resetNext, hinv hrun]

end MiscVerilogCores.Ddr3Ctrl
