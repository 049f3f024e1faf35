import MiscVerilogCores.Verification.SyncFifo.Queue
import Mathlib.Tactic.ByContra

/-! # A synchronous FIFO is a queue

Conservation of the words over a run from reset, and what it means for each
output pipeline. The pipeline with the loadable temporary register loses a word
when it loads behind a stalled output. -/

namespace MiscVerilogCores.SyncFifo

open Clocked RingMemory

variable {WIDTH ABITS OUTREG : ℕ}

/-- The invariant of a run. -/
def Inv (OUTREG : ℕ) (s : State WIDTH ABITS) : Prop :=
  Coherent OUTREG s ∧ ∃ words r, Held s words r

/-- A clock edge with `reset` asserted empties the FIFO, whatever is on the other ports. -/
theorem inv_of_reset (OUTREG : ℕ) (s : State WIDTH ABITS) {i : Inputs WIDTH}
    (hr : i.reset = true) :
    Inv OUTREG (step OUTREG s i) ∧
      outputWords OUTREG (step OUTREG s i) ++ sramWords (step OUTREG s i) = [] := by
  have hheld : Held (step OUTREG s i) [] 0 := by
    refine ⟨holds_nil _ _, ?_, ?_, ?_, ?_, ?_⟩ <;> simp [step, ptr, hr]
  have hskid := SkidLoader.valid_of_reset (skidParams OUTREG WIDTH) s.skid (skidInputs OUTREG s i) hr
  refine ⟨⟨⟨hskid.1, ?_, ?_, ?_⟩, [], 0, hheld⟩, ?_⟩
  · simp [step, SkidLoader.step, skidInputs, hr]
  · simp [step, hr]
  · simp [step, SkidLoader.step, skidInputs, hr]
  · rw [hheld.sramWords_eq, List.drop_nil, List.append_nil]
    exact outputWords_eq_nil (by simp [xWords, step, hr]) hskid.2

theorem inv_afterReset (OUTREG : ℕ) (s : State WIDTH ABITS) :
    Inv OUTREG (afterReset OUTREG s) ∧
      outputWords OUTREG (afterReset OUTREG s) ++ sramWords (afterReset OUTREG s) = [] :=
  inv_of_reset OUTREG s rfl

section Step

variable {s : State WIDTH ABITS} {i : Inputs WIDTH}

/-- An accepted word is stored or bypasses the memory array. -/
theorem Coherent.accepted_eq (h : Coherent OUTREG s) (i : Inputs WIDTH) :
    accepted s i = stored OUTREG s i ++ bypassed OUTREG s i := by
  by_cases hacc : (i.validI && readyO s) = true
  · have hway := h.one_way hacc
    rw [accepted, if_pos hacc]
    cases hs : storeW OUTREG s i <;> cases hk : toSkid OUTREG s i <;>
      cases ht : toTemp OUTREG s i <;> simp [stored, bypassed, hs, hk, ht] at hway ⊢
  · have hs : storeW OUTREG s i = false := by
      by_contra hs
      simp only [Bool.not_eq_false] at hs
      have hw := storeW_wready hs
      simp only [storeW, hw, Bool.true_and] at hs
      split at hs <;> simp_all [readyO]
    have hk : toSkid OUTREG s i = false := by
      by_contra hk
      simp_all [toSkid, readyO]
    have ht : toTemp OUTREG s i = false := by
      by_contra ht
      simp only [Bool.not_eq_false] at ht
      obtain ⟨-, -, -, hv, hw, -⟩ := toTemp_eq_true ht
      simp [hv, readyO, hw] at hacc
    simp [accepted, stored, bypassed, hs, hk, ht, hacc]

/-- A word bypasses the memory array only when the array is empty and stays empty. -/
theorem Coherent.bypassed_or (h : Coherent OUTREG s) (i : Inputs WIDTH) :
    bypassed OUTREG s i = [] ∨
      s.rvalid = false ∧ stored OUTREG s i = [] ∧ fetched OUTREG s i = [] := by
  by_cases hb : (toSkid OUTREG s i || toTemp OUTREG s i) = true
  · right
    obtain ⟨hrv, hacc⟩ : s.rvalid = false ∧ (i.validI && readyO s) = true := by
      rcases Bool.or_eq_true _ _ ▸ hb with hk | ht
      · simp only [toSkid, Bool.and_eq_true, Bool.not_eq_true'] at hk
        exact ⟨hk.1.2, by simp [readyO, hk.1.1.1.1.2, hk.1.1.1.2]⟩
      · obtain ⟨-, hrv, -, hv, hw, -⟩ := toTemp_eq_true ht
        exact ⟨hrv, by simp [readyO, hv, hw]⟩
    have hway := h.one_way hacc
    have hs : storeW OUTREG s i = false := by
      cases hs : storeW OUTREG s i <;> cases hk : toSkid OUTREG s i <;>
        cases ht : toTemp OUTREG s i <;> simp [hs, hk, ht] at hway hb ⊢
    have hf : fetchW OUTREG s i = false := by
      cases hf : fetchW OUTREG s i
      · rfl
      · simp [fetchW_rvalid hf] at hrv
    simp [hrv, stored, fetched, hs, hf]
  · left
    rw [bypassed, if_neg hb]

/-- One edge keeps the invariant and moves the words along in order. -/
theorem step_conserves (h : Inv OUTREG s) (hg : Good OUTREG s i) :
    Inv OUTREG (step OUTREG s i) ∧
      (outputWords OUTREG s ++ sramWords s) ++ accepted s i =
        delivered OUTREG s i ++
          (outputWords OUTREG (step OUTREG s i) ++ sramWords (step OUTREG s i)) := by
  obtain ⟨hc, words, r, hh⟩ := h
  have hh' := hh.step OUTREG hg.reset
  refine ⟨⟨hc.step hh hg, _, _, hh'⟩, ?_⟩
  have hout := hc.output hg
  have harr := hh.drop_append OUTREG i
  have hturn : words.drop r ++ stored OUTREG s i ++ bypassed OUTREG s i =
      fetched OUTREG s i ++ bypassed OUTREG s i ++
        (words ++ stored OUTREG s i).drop (r + (fetched OUTREG s i).length) := by
    rcases hc.bypassed_or i with hb | ⟨hrv, hs, hf⟩
    · rw [hb, List.append_nil, List.append_nil, harr]
    · have hnil : words.drop r = [] := by
        have hle : ¬ r < words.length := fun hlt => by simp [hh.rvalid.mpr hlt] at hrv
        exact List.drop_eq_nil_of_le (by omega)
      rw [hs, hf]
      simp [hnil]
  rw [hc.accepted_eq i, hh.sramWords_eq, hh'.sramWords_eq]
  calc outputWords OUTREG s ++ words.drop r ++ (stored OUTREG s i ++ bypassed OUTREG s i)
      = outputWords OUTREG s ++ (words.drop r ++ stored OUTREG s i ++ bypassed OUTREG s i) := by
        simp only [List.append_assoc]
    _ = (outputWords OUTREG s ++ (fetched OUTREG s i ++ bypassed OUTREG s i)) ++
          (words ++ stored OUTREG s i).drop (r + (fetched OUTREG s i).length) := by
        rw [hturn, ← List.append_assoc]
    _ = _ := by rw [hout, List.append_assoc]

end Step

/-! ## Runs -/

section Runs

variable (s₀ : State WIDTH ABITS) (is : List (Inputs WIDTH))

/-- The words accepted in a run that starts with a reset. -/
def acceptedIn (OUTREG : ℕ) : List (BitVec WIDTH) :=
  emitted (step OUTREG) accepted (afterReset OUTREG s₀) is

/-- The words delivered in a run that starts with a reset. -/
def deliveredIn (OUTREG : ℕ) : List (BitVec WIDTH) :=
  emitted (step OUTREG) (delivered OUTREG) (afterReset OUTREG s₀) is

/-- The state that a run which starts with a reset has reached. -/
def reached (OUTREG : ℕ) : State WIDTH ABITS :=
  run (step OUTREG) (afterReset OUTREG s₀) is

/-- What the ports and registers of a queue show at a time of a run. -/
structure Queue (OUTREG : ℕ) (s : State WIDTH ABITS) (accepted delivered : List (BitVec WIDTH)) :
    Prop where
  order : delivered <+: accepted
  pending : accepted = delivered ++ outputWords OUTREG s ++ sramWords s
  rvalid : s.rvalid = true ↔ sramWords s ≠ []
  stays : ∀ i j, i.reset = false → validO OUTREG s i = true → i.readyI = false →
    validO OUTREG (step OUTREG s i) j = true ∧ dataO OUTREG (step OUTREG s i) j = dataO OUTREG s i

variable {s₀ is}

theorem inv_reached (h : Along (step OUTREG) (Good OUTREG) (afterReset OUTREG s₀) is) :
    Inv OUTREG (reached s₀ is OUTREG) :=
  run_invariant (Inv OUTREG) (fun _ _ hs hg => (step_conserves hs hg).1)
    (inv_afterReset OUTREG s₀).1 h

theorem queue_reached (h : Along (step OUTREG) (Good OUTREG) (afterReset OUTREG s₀) is) :
    Queue OUTREG (reached s₀ is OUTREG) (acceptedIn s₀ is OUTREG) (deliveredIn s₀ is OUTREG) := by
  obtain ⟨hinv, hempty⟩ := inv_afterReset OUTREG s₀
  have hcons := emitted_conserved (fun s => outputWords OUTREG s ++ sramWords s)
    (fun _ _ hs hg => step_conserves hs hg) hinv h
  rw [hempty, List.nil_append] at hcons
  obtain ⟨-, words, r, hh⟩ := inv_reached h
  refine ⟨⟨_, hcons.symm⟩, ?_, ?_, fun i j hr hv hri => hh.offer_stays hr hv hri j⟩
  · rw [List.append_assoc]
    exact hcons
  · rw [hh.rvalid, hh.sramWords_eq, ne_eq, List.drop_eq_nil_iff]
    omega

/-- The ready flag is exact from the second cycle after the reset on. -/
theorem readyO_reached (h : Along (step OUTREG) (Good OUTREG) (afterReset OUTREG s₀) is)
    (hne : is ≠ []) :
    readyO (reached s₀ is OUTREG) = false ↔
      (sramWords (reached s₀ is OUTREG)).length = 2 ^ ABITS := by
  let Exact (s : State WIDTH ABITS) : Prop :=
    Inv OUTREG s ∧ (readyO s = false ↔ (sramWords s).length = 2 ^ ABITS)
  have hstep : ∀ s i, Inv OUTREG s → Good OUTREG s i → Exact (step OUTREG s i) := by
    intro s i hs hg
    have ⟨_, words, r, hh⟩ := hs
    have hh' := hh.step OUTREG hg.reset
    refine ⟨(step_conserves hs hg).1, (hh.wready_next OUTREG hg.reset).trans ?_⟩
    have := hh'.read_le
    rw [hh'.sramWords_eq, List.length_drop]
    omega
  cases is with
  | nil => exact absurd rfl hne
  | cons i is =>
      have hfirst := hstep _ i (inv_afterReset OUTREG s₀).1 h.1
      exact (run_invariant Exact (fun s i hs hg => hstep s i hs.1 hg) hfirst h.2).2

/-- Only the first cycle after the reset counts as starting. -/
theorem along_started (hreset : ∀ i ∈ is, i.reset = false)
    (hfirst : 1 < OUTREG → ∀ i ∈ is.head?, i.validI = false) :
    Along (step OUTREG)
      (fun s i => i.reset = false ∧ (1 < OUTREG → Starting s → i.validI = false))
      (afterReset OUTREG s₀) is := by
  cases is with
  | nil => trivial
  | cons i is =>
      refine ⟨⟨hreset i (by simp), fun ho _ => hfirst ho i (by simp)⟩, ?_⟩
      have hrest := along_of_inputs (step OUTREG) (step OUTREG (afterReset OUTREG s₀) i)
        (fun j hj => hreset j (List.mem_cons_of_mem i hj))
      refine hrest.strengthen (fun s => ¬ Starting s) ?_ ?_
      · intro s j hs hr
        exact ⟨SkidLoader.started_step _ _ _ hr, hr, fun _ h => absurd h hs⟩
      · exact SkidLoader.started_step _ _ _ (hreset i (by simp))

end Runs

/-- With the plain memory array, the SRAM output register or the skid register behind it,
a FIFO is a queue in every run from reset. -/
theorem queue_of_outreg_le_two (hO : OUTREG ≤ 2) (s₀ : State WIDTH ABITS)
    (is : List (Inputs WIDTH)) (hreset : ∀ i ∈ is, i.reset = false)
    (hfirst : OUTREG = 2 → ∀ i ∈ is.head?, i.validI = false) :
    Queue OUTREG (reached s₀ is OUTREG) (acceptedIn s₀ is OUTREG) (deliveredIn s₀ is OUTREG) ∧
      (is ≠ [] → (readyO (reached s₀ is OUTREG) = false ↔
        (sramWords (reached s₀ is OUTREG)).length = 2 ^ ABITS)) := by
  have hgood : Along (step OUTREG) (Good OUTREG) (afterReset OUTREG s₀) is := by
    refine (along_started hreset (fun ho => hfirst (by omega))).strengthen (Inv OUTREG)
      ?_ (inv_afterReset OUTREG s₀).1
    intro s i hs ⟨hr, hstart⟩
    have hg : Good OUTREG s i := by
      refine ⟨hr, hstart, fun ⟨_, _, _, _, ht, _⟩ => ?_⟩
      simp [hs.1.unloaded hO] at ht
    exact ⟨(step_conserves hs hg).1, hg⟩
  exact ⟨queue_reached hgood, readyO_reached hgood⟩

/-- The hypotheses are met by a run that fills the memory array and drains it again. -/
theorem queue_of_outreg_two_full_and_drained :
    let is : List (Inputs 4) := [⟨false, false, 0, false⟩, ⟨false, true, 1, false⟩,
      ⟨false, true, 2, false⟩, ⟨false, true, 3, false⟩, ⟨false, true, 4, false⟩,
      ⟨false, true, 5, true⟩, ⟨false, false, 0, true⟩]
    Queue 2 (reached (default : State 4 1) is 2) (acceptedIn (default : State 4 1) is 2)
        (deliveredIn (default : State 4 1) is 2) ∧
      (is ≠ [] → (readyO (reached (default : State 4 1) is 2) = false ↔
        (sramWords (reached (default : State 4 1) is 2)).length = 2 ^ 1)) :=
  queue_of_outreg_le_two le_rfl default _ (by decide) (by decide)

/-- The pipeline with the loadable temporary register is a queue in every run that
never loads it behind a stalled output. -/
theorem queue_of_outreg_three (s₀ : State WIDTH ABITS) (is : List (Inputs WIDTH))
    (hreset : ∀ i ∈ is, i.reset = false) (hfirst : ∀ i ∈ is.head?, i.validI = false)
    (hkept : Along (step 3) (fun s i => ¬ Overwrites s i) (afterReset 3 s₀) is) :
    Queue 3 (reached s₀ is 3) (acceptedIn s₀ is 3) (deliveredIn s₀ is 3) ∧
      ∀ i, (i.validI && readyO (reached s₀ is 3)) = true →
        [storeW 3 (reached s₀ is 3) i, toSkid 3 (reached s₀ is 3) i,
          toTemp 3 (reached s₀ is 3) i].count true = 1 := by
  have hgood : Along (step 3) (Good 3) (afterReset 3 s₀) is :=
    ((along_started hreset (fun _ => hfirst)).and hkept).mono
      (fun s i h => ⟨h.1.1, h.1.2, h.2⟩)
  exact ⟨queue_reached hgood, fun i hi => (inv_reached hgood).1.one_way hi⟩

/-- The hypotheses are met by a run that loads the temporary register while the output moves. -/
theorem queue_of_outreg_three_loaded :
    let is : List (Inputs 4) := [⟨false, false, 0, false⟩, ⟨false, true, 1, false⟩,
      ⟨false, true, 2, false⟩, ⟨false, true, 3, false⟩, ⟨false, false, 0, true⟩,
      ⟨false, true, 5, true⟩, ⟨false, true, 6, true⟩]
    Queue 3 (reached (default : State 4 1) is 3) (acceptedIn (default : State 4 1) is 3)
        (deliveredIn (default : State 4 1) is 3) ∧
      ∀ i, (i.validI && readyO (reached (default : State 4 1) is 3)) = true →
        [storeW 3 (reached (default : State 4 1) is 3) i,
          toSkid 3 (reached (default : State 4 1) is 3) i,
          toTemp 3 (reached (default : State 4 1) is 3) i].count true = 1 :=
  queue_of_outreg_three default _ (by decide) (by decide) (by decide)

/-- A word in the SRAM output register is lost when the next one is loaded behind a
stalled output: words 1, 2, 3 and 5 are accepted, and 1, 2 and 5 are delivered. -/
theorem outreg_three_loses_word :
    ¬ ∀ (WIDTH ABITS : ℕ) (s₀ : State WIDTH ABITS) (is : List (Inputs WIDTH)), 1 ≤ ABITS →
      (∀ i ∈ is, i.reset = false) → (∀ i ∈ is.head?, i.validI = false) →
        deliveredIn s₀ is 3 <+: acceptedIn s₀ is 3 := by
  intro h
  have hrun := h 4 1 default
    [⟨false, false, 0, false⟩, ⟨false, true, 1, false⟩, ⟨false, true, 2, false⟩,
      ⟨false, true, 3, false⟩, ⟨false, false, 0, true⟩, ⟨false, true, 5, false⟩,
      ⟨false, false, 0, true⟩, ⟨false, false, 0, true⟩]
    le_rfl (by decide) (by decide)
  revert hrun
  decide

end MiscVerilogCores.SyncFifo
