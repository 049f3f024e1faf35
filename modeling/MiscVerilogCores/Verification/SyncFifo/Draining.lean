import MiscVerilogCores.Verification.SyncFifo.Correctness

/-! # A synchronous FIFO drains

A word that is held is on the output port after at most two more edges, without an output register
as well as with the loadable skid register. -/

namespace MiscVerilogCores.SyncFifo

variable {WIDTH ABITS OUTREG : ℕ} {s : State WIDTH ABITS} {i : Inputs WIDTH}

/-- The words held, oldest first. -/
def contents (OUTREG : ℕ) (s : State WIDTH ABITS) : List (BitVec WIDTH) :=
  outputWords OUTREG s ++ sramWords s

/-- The edges until the oldest word is on the output port. -/
def lag (OUTREG : ℕ) (s : State WIDTH ABITS) : ℕ :=
  if OUTREG = 0 ∨ s.skid.mvalid = true then 0 else if s.xvalid then 1 else 2

theorem lag_le (OUTREG : ℕ) (s : State WIDTH ABITS) : lag OUTREG s ≤ 2 := by
  rw [lag]
  split_ifs <;> omega

theorem validO_of_loader (ho : 2 < OUTREG) : validO OUTREG s i = s.skid.mvalid := by
  have hne : OUTREG ≠ 0 := by omega
  have hgt : 1 < OUTREG := by omega
  simp [validO, hne, SkidLoader.mTvalid, skidParams, hgt]

theorem contents_of_loader (ho : 2 < OUTREG) : contents OUTREG s =
    (SkidLoader.contents s.skid).map Prod.snd ++ xWords s ++ sramWords s := by
  obtain ⟨n, rfl⟩ : ∃ n, OUTREG = n + 3 := ⟨OUTREG - 3, by omega⟩
  rfl

/-- Either the oldest word is on the output port, or it moves on. -/
theorem Inv.drains (h : Inv OUTREG s) (ho : OUTREG = 0 ∨ 2 < OUTREG) (hr : i.reset = false)
    (hne : contents OUTREG s ≠ []) :
    validO OUTREG s i = true ∧ lag OUTREG s = 0 ∨
      validO OUTREG s i = false ∧ lag OUTREG (step OUTREG s i) < lag OUTREG s := by
  obtain ⟨hc, words, r, hh⟩ := h
  have hrvalid : sramWords s ≠ [] → s.rvalid = true := by
    intro hw
    rw [hh.sramWords_eq, Ne, List.drop_eq_nil_iff] at hw
    exact hh.rvalid.mpr (by omega)
  rcases ho with rfl | ho
  · left
    refine ⟨?_, by simp [lag]⟩
    simpa [validO] using hrvalid (by simpa [contents, outputWords] using hne)
  · have hzero : OUTREG ≠ 0 := by omega
    rw [validO_of_loader ho]
    cases hm : s.skid.mvalid
    · right
      refine ⟨rfl, ?_⟩
      have ht : s.skid.tvalid = false := by
        cases ht : s.skid.tvalid
        · rfl
        · simp [hc.skid.behind ht] at hm
      have hskid : SkidLoader.contents s.skid = [] := by simp [SkidLoader.contents, hm, ht]
      cases hx : s.xvalid
      · have hfetch : fetchW OUTREG s i = true := by
          have hrv := hrvalid (by simpa [contents_of_loader ho, hskid, xWords, hx] using hne)
          simp [fetchW, hzero, hrv, hx]
        have hnext : (step OUTREG s i).xvalid = true := by simp [step, hr, hfetch]
        simp only [lag, hzero, hm, hx, hnext, false_or, Bool.false_eq_true, if_false, if_true]
        split_ifs <;> omega
      · have hnext : (step OUTREG s i).skid.mvalid = true := by
          simp [step, SkidLoader.step, skidInputs, hr, Skid.dstValid, svalidW, hx]
        simp [lag, hzero, hm, hx, hnext]
    · left
      exact ⟨rfl, by simp [lag, hm]⟩

/-- A word that is not taken stays on the output port. -/
theorem Inv.lag_stalled (h : Inv OUTREG s) (hr : i.reset = false)
    (ho : OUTREG = 0 ∨ 2 < OUTREG) (hv : validO OUTREG s i = true) (hri : i.readyI = false) :
    lag OUTREG (step OUTREG s i) = 0 := by
  obtain ⟨hc, words, r, hh⟩ := h
  rcases ho with rfl | ho
  · simp [lag]
  · have hstays := (hh.offer_stays hr hv hri i).1
    rw [validO_of_loader ho] at hstays
    simp [lag, hstays]

/-- Out of reset a FIFO is ready unless its memory array is full. -/
theorem Inv.full_of_not_ready (h : Inv OUTREG s) (hr : i.reset = false)
    (hw : readyO (step OUTREG s i) = false) :
    (sramWords (step OUTREG s i)).length = 2 ^ ABITS := by
  obtain ⟨hc, words, r, hh⟩ := h
  have hfull := (hh.wready_next OUTREG hr).mp hw
  rw [(hh.step OUTREG hr).sramWords_eq, List.length_drop, hfull]
  exact Nat.add_sub_cancel_left _ _

theorem Inv.length_contents_le (h : Inv OUTREG s) :
    (contents OUTREG s).length ≤ 2 ^ ABITS + 3 := by
  obtain ⟨hc, words, r, hh⟩ := h
  have hle := hh.mem.length_le
  have hpos := Nat.two_pow_pos ABITS
  have hout : (outputWords OUTREG s).length ≤ 3 := by
    unfold outputWords
    split <;> cases hm : s.skid.mvalid <;> cases ht : s.skid.tvalid <;> cases hx : s.xvalid <;>
      simp [xWords, SkidLoader.contents, hm, ht, hx]
  rw [contents, List.length_append, hh.sramWords_eq, List.length_drop]
  omega

end MiscVerilogCores.SyncFifo
