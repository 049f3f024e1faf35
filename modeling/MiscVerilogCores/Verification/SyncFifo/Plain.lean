import MiscVerilogCores.Verification.SyncFifo.Correctness

/-! # A synchronous FIFO without an output register

With `OUTREG = 0` the memory array is all there is: its oldest word is on the output port, and
one edge takes that word off and puts the accepted one behind the others. -/

namespace MiscVerilogCores.SyncFifo

variable {WIDTH ABITS : ℕ} {s : State WIDTH ABITS} {i : Inputs WIDTH}

theorem validO_zero : validO 0 s i = s.rvalid := by
  rw [validO, if_pos rfl]

theorem dataO_zero : dataO 0 s i = s.sram (RingMemory.slot s.raddr) := by
  rw [dataO, if_pos rfl]

theorem plain_of_reset (s : State WIDTH ABITS) (hr : i.reset = true) :
    Inv 0 (step 0 s i) ∧ sramWords (step 0 s i) = [] :=
  inv_of_reset 0 s hr

theorem Inv.validO_iff (h : Inv 0 s) (i : Inputs WIDTH) :
    validO 0 s i = true ↔ sramWords s ≠ [] := by
  obtain ⟨-, words, r, hh⟩ := h
  rw [validO_zero, hh.rvalid, hh.sramWords_eq, Ne, List.drop_eq_nil_iff]
  omega

theorem Inv.words_eq_cons (h : Inv 0 s) (hv : validO 0 s i = true) :
    sramWords s = dataO 0 s i :: (sramWords s).tail := by
  obtain ⟨-, words, r, hh⟩ := h
  have hr : r < words.length := hh.rvalid.mp (validO_zero ▸ hv)
  have hread := hh.mem.read le_rfl hr
  rw [← hh.raddr] at hread
  rw [hh.sramWords_eq, dataO_zero, hread, List.drop_eq_getElem_cons hr, List.tail_cons]

theorem Inv.room (h : Inv 0 s) (hw : readyO s = true) : (sramWords s).length < 2 ^ ABITS := by
  obtain ⟨-, words, r, hh⟩ := h
  have hroom := hh.wready hw
  have hread := hh.read_le
  rw [hh.sramWords_eq, List.length_drop]
  omega

theorem Inv.plain_conserves (h : Inv 0 s) (hr : i.reset = false) :
    Inv 0 (step 0 s i) ∧
      sramWords s ++ accepted s i = delivered 0 s i ++ sramWords (step 0 s i) := by
  have hkept : ¬ Overwrites s i := by
    rintro ⟨-, -, -, -, htready, -⟩
    simp [h.1.unloaded (by decide)] at htready
  exact step_conserves h ⟨hr, fun h => absurd h (by decide), hkept⟩

theorem Inv.plain_step (h : Inv 0 s) (hr : i.reset = false) :
    Inv 0 (step 0 s i) ∧
      sramWords (step 0 s i) =
        (if i.readyI then (sramWords s).tail else sramWords s) ++ accepted s i := by
  obtain ⟨hinv, hmoved⟩ := h.plain_conserves hr
  refine ⟨hinv, ?_⟩
  by_cases hv : validO 0 s i = true
  · have hcons := h.words_eq_cons hv
    cases hready : i.readyI
    · simp [hmoved, delivered, hready]
    · rw [hcons] at hmoved
      simpa [delivered, hv, hready] using hmoved.symm
  · have hnil : sramWords s = [] := by
      by_contra hne
      exact hv ((h.validO_iff i).mpr hne)
    simpa [delivered, hv, hnil] using hmoved.symm

/-- The FIFO is ready after an edge exactly when it has room for a word. -/
theorem Inv.readyO_step (h : Inv 0 s) (hr : i.reset = false) :
    readyO (step 0 s i) = true ↔ (sramWords (step 0 s i)).length < 2 ^ ABITS := by
  obtain ⟨-, words, r, hh⟩ := h
  have hnext := hh.step 0 hr
  have hle := hnext.mem.length_le
  have hread := hnext.read_le
  have hfull := hh.wready_next 0 hr
  have hready : readyO (step 0 s i) = true ↔ ¬ (step 0 s i).wready = false := by simp [readyO]
  rw [hready, hfull, hnext.sramWords_eq, List.length_drop]
  omega

end MiscVerilogCores.SyncFifo
