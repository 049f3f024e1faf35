import MiscVerilogCores.Library.Clocked
import MiscVerilogCores.Verification.AxiPath.Chunks

/-! # Bursts that are cut into all of their chunks

Six bits say how many chunks a burst has, and four of them reach the counter. Bursts of up to
sixteen chunks are cut whole, longer ones are cut short. -/

namespace MiscVerilogCores.AxiChunks

open Clocked

variable {ADDRS REQID : ℕ}

/-- The `k` chunks of a burst: consecutive addresses, and `seq` low on the last. -/
def numbered (addr : BitVec ADDRS) (id : BitVec REQID) (k : ℕ) : List (Chunk ADDRS REQID) :=
  (List.range k).map fun n => ⟨addr + BitVec.ofNat _ (n * chunkSize), id, decide (n + 1 < k)⟩

/-- The number of cycles in which the consumer is ready. -/
def readies (is : List (Inputs ADDRS REQID)) : ℕ :=
  is.countP Inputs.xreadyI

/-- A request for `k` chunks, accepted in this cycle, is covered whatever the later cycles are. -/
structure Covers (s : State ADDRS REQID) (i : Inputs ADDRS REQID) (k : ℕ) : Prop where
  /-- The consumer gets one chunk in each cycle in which it is ready, until it has all `k`. -/
  chunks : ∀ js, (∀ j ∈ js, j.reset = false) → readies js < k →
    emitted step handed s (i :: js) = (numbered i.aaddrI i.aidI k).take (readies js + 1)
  /-- No request is accepted before the last chunk has been transferred. -/
  busy : ∀ js, (∀ j ∈ js, j.reset = false) → readies js + 1 < k →
    ∀ j, areadyO (run step s (i :: js)) j = false
  /-- Then nothing is emitted until the next request. -/
  quiet : ∀ js, (∀ j ∈ js, j.reset = false) → readies js + 1 = k →
    ∀ ks, (∀ j ∈ ks, j.reset = false ∧ j.avalidI = false) →
      ∀ j, j.avalidI = false → xvalidO (run step s (i :: js ++ ks)) j = false

/-! ## The list of chunks -/

theorem numbered_succ (addr : BitVec ADDRS) (id : BitVec REQID) (k : ℕ) :
    numbered addr id (k + 2) =
      ⟨addr, id, true⟩ :: numbered (addr + BitVec.ofNat _ chunkSize) id (k + 1) := by
  rw [numbered, List.range_succ_eq_map, List.map_cons, List.map_map, numbered]
  congr 1
  · simp
  · apply List.map_congr_left
    intro n _
    have haddr : BitVec.ofNat ADDRS ((n + 1) * chunkSize) =
        BitVec.ofNat ADDRS chunkSize + BitVec.ofNat ADDRS (n * chunkSize) := by
      rw [← BitVec.ofNat_add, Nat.add_mul, Nat.one_mul, Nat.add_comm]
    simp [haddr, BitVec.add_assoc]

theorem train_eq_numbered (id : BitVec REQID) (addr : BitVec ADDRS) (k : ℕ) :
    train id addr k = numbered addr id (k + 1) := by
  induction k generalizing addr with
  | zero => simp [train, numbered]
  | succ k ih => rw [train, ih, numbered_succ]

theorem length_numbered (addr : BitVec ADDRS) (id : BitVec REQID) (k : ℕ) :
    (numbered addr id k).length = k := by
  simp [numbered]

/-! ## One clock edge -/

section Step

variable {s : State ADDRS REQID} {i : Inputs ADDRS REQID}

/-- While a burst is cut, its next chunk leaves as soon as the consumer is ready. -/
theorem busy_step (hb : s.busyQ = true) (hr : i.reset = false) :
    handed s i = (remaining s).take i.xreadyI.toNat ∧
      remaining (step s i) = (remaining s).drop i.xreadyI.toNat := by
  have hno : starts s i = false := by simp [starts, hb]
  have hchunk : chunk s i = ⟨s.addrQ, s.tridQ, cnext s != 0⟩ := by
    simp [chunk, addrW, tridW, xseqO, hno, hb]
  cases hx : i.xreadyI
  · simp [handed, remaining, step, hr, hno, hb, hx]
  · simp [handed, remaining, step, xvalidO, busyW, hr, hno, hb, hx, hchunk, train_cnext s]

theorem busyQ_iff (s : State ADDRS REQID) : s.busyQ = true ↔ remaining s ≠ [] := by
  rw [remaining]
  cases s.busyQ
  · simp
  · cases s.count.toNat - 1 <;> simp [train]

/-- The cycle in which a request is accepted. -/
theorem start_step (hcount : s.busyQ = false → s.count = 0) (hs : starts s i = true)
    (hr : i.reset = false) : handed s i ++ remaining (step s i) = burst i ∧ handed s i ≠ [] := by
  obtain ⟨⟨hb, hv⟩, hx⟩ : (s.busyQ = false ∧ i.avalidI = true) ∧ i.xreadyI = true := by
    simpa [starts, Bool.and_eq_true] using hs
  have hcut := (⟨hcount, fun _ => ⟨hb, hx⟩⟩ : Free s i).step hr
  constructor
  · rw [← hcut, remaining, hb, accepted, hv]
    rfl
  · simp [handed, xvalidO, busyW, hv, hx]

theorem length_handed_le (s : State ADDRS REQID) (i : Inputs ADDRS REQID) :
    (handed s i).length ≤ 1 := by
  rw [handed]
  split <;> simp

/-- A burst has as many chunks as the request says if the counter can hold the number. -/
theorem burst_eq {k : ℕ} (hlen : i.alenI.toNat + 1 = 4 * k) (hk : k ≤ 16) :
    burst i = numbered i.aaddrI i.aidI k := by
  have hfirst : (firstCount i).toNat = k - 1 := by
    simp [firstCount, BitVec.extractLsb'_toNat, Nat.shiftRight_eq_div_pow]
    omega
  have hseveral : several i = decide (1 < k) := by
    have hval : (i.alenI.extractLsb' 2 6).toNat = k - 1 := by
      simp [BitVec.extractLsb'_toNat, Nat.shiftRight_eq_div_pow]
      omega
    rw [several, Bool.eq_iff_iff, bne_iff_ne, decide_eq_true_iff, ne_eq, ← BitVec.toNat_inj, hval]
    simp
    omega
  rw [burst, hseveral, hfirst]
  obtain rfl | ⟨k, rfl⟩ : k = 1 ∨ ∃ n, k = n + 2 := by
    cases k with
    | zero => omega
    | succ k =>
        cases k with
        | zero => exact Or.inl rfl
        | succ k => exact Or.inr ⟨k, rfl⟩
  · simp [numbered]
  · simp [numbered_succ, train_eq_numbered]

/-- No burst is cut into more chunks than the counter can tell. -/
theorem length_burst_le (i : Inputs ADDRS REQID) : (burst i).length ≤ 16 := by
  have hfirst : (firstCount i).toNat < 16 := by
    simp only [firstCount, BitVec.toNat_setWidth]
    have := (i.alenI.extractLsb' 2 4).isLt
    omega
  rw [burst]
  split
  · rw [train_eq_numbered, List.length_cons, length_numbered]
    omega
  · simp

end Step

/-! ## Runs -/

section Runs

variable {s : State ADDRS REQID} {i : Inputs ADDRS REQID} {js : List (Inputs ADDRS REQID)}

/-- What is left of a burst is handed on as the consumer becomes ready. -/
theorem remaining_run (hr : ∀ j ∈ js, j.reset = false) (hle : readies js ≤ (remaining s).length) :
    emitted step handed s js = (remaining s).take (readies js) ∧
      remaining (run step s js) = (remaining s).drop (readies js) := by
  induction js generalizing s with
  | nil => simp [readies]
  | cons j js ih =>
      have hj : j.reset = false := hr j (by simp)
      have hjs : ∀ j ∈ js, j.reset = false := fun j h => hr j (List.mem_cons_of_mem _ h)
      have hcount : readies (j :: js) = j.xreadyI.toNat + readies js := by
        rw [readies, List.countP_cons, readies, Nat.add_comm]
        cases j.xreadyI <;> rfl
      by_cases hb : s.busyQ = true
      · obtain ⟨hhanded, hleft⟩ := busy_step hb hj
        obtain ⟨hout, hrest⟩ := ih (s := step s j) hjs (by rw [hleft, List.length_drop]; omega)
        rw [emitted_cons, hhanded, hout, run_cons, hrest, hleft, hcount, List.take_add,
          List.drop_drop]
        exact ⟨rfl, rfl⟩
      · -- nothing is left and nobody is ready
        have hnil : remaining s = [] := by
          by_contra hne
          exact hb ((busyQ_iff s).mpr hne)
        have hx : j.xreadyI = false ∧ readies js = 0 := by
          rw [hcount, hnil] at hle
          cases hx : j.xreadyI <;> simp [hx] at hle ⊢
          exact hle
        have hstep : step s j = s := by simp [step, starts, hj, hx.1]
        obtain ⟨hout, hrest⟩ := ih (s := s) hjs (by omega)
        rw [emitted_cons, run_cons, hstep, hout, hrest, hcount]
        simp [handed, hx]

/-- Nothing is emitted while nothing is requested. -/
theorem quiet_run (hb : s.busyQ = false)
    (hjs : ∀ j ∈ js, j.reset = false ∧ j.avalidI = false) : (run step s js).busyQ = false := by
  induction js generalizing s with
  | nil => exact hb
  | cons j js ih =>
      obtain ⟨hr, hv⟩ := hjs j (by simp)
      exact ih (idle_step hr hb hv).2 fun j h => hjs j (List.mem_cons_of_mem _ h)

/-- Without a new request no more is handed on than what is left. -/
theorem length_emitted_le (hjs : ∀ j ∈ js, j.reset = false ∧ j.avalidI = false) :
    (emitted step handed s js).length ≤ (remaining s).length := by
  induction js generalizing s with
  | nil => simp
  | cons j js ih =>
      obtain ⟨hr, hv⟩ := hjs j (by simp)
      have hrest := ih (s := step s j) fun j h => hjs j (List.mem_cons_of_mem _ h)
      rw [emitted_cons, List.length_append]
      by_cases hb : s.busyQ = true
      · obtain ⟨hhanded, hleft⟩ := busy_step hb hr
        have hsum := congrArg List.length (List.take_append_drop j.xreadyI.toNat (remaining s))
        rw [List.length_append, ← hhanded, ← hleft] at hsum
        omega
      · have hidle := idle_step hr (Bool.eq_false_iff.mpr hb) hv
        have hnil : remaining (step s j) = [] := by simp [remaining, hidle.2]
        rw [hnil, List.length_nil] at hrest
        simp [handed, hidle.1]
        omega

theorem count_run (h : s.busyQ = false → s.count = 0) (is : List (Inputs ADDRS REQID)) :
    (run step s is).busyQ = false → (run step s is).count = 0 :=
  run_always (fun t : State ADDRS REQID => t.busyQ = false → t.count = 0) (fun _ i h => count_step h i) h is

theorem covers_of_burst {k : ℕ} (hcount : s.busyQ = false → s.count = 0)
    (hs : starts s i = true) (hr : i.reset = false)
    (hburst : burst i = numbered i.aaddrI i.aidI k) : Covers s i k := by
  obtain ⟨hcut, hne⟩ := start_step hcount hs hr
  have hone : (handed s i).length = 1 :=
    Nat.le_antisymm (length_handed_le s i) (List.length_pos_iff.mpr hne)
  have hlen := congrArg List.length (hcut.trans hburst)
  rw [List.length_append, hone, length_numbered] at hlen
  have hrun : ∀ js, (∀ j ∈ js, j.reset = false) → readies js < k →
      emitted step handed (step s i) js = (remaining (step s i)).take (readies js) ∧
        remaining (run step (step s i) js) = (remaining (step s i)).drop (readies js) :=
    fun js hjs hlt => remaining_run hjs (by omega)
  refine ⟨fun js hjs hlt => ?_, fun js hjs hlt j => ?_, fun js hjs heq ks hks j hj => ?_⟩
  · rw [emitted_cons, (hrun js hjs hlt).1, ← hburst, ← hcut, Nat.add_comm, ← hone,
      List.take_length_add_append]
  · have hbusy : (run step (step s i) js).busyQ = true := by
      rw [busyQ_iff, (hrun js hjs (by omega)).2, ne_eq, List.drop_eq_nil_iff]
      omega
    simp [areadyO, hbusy]
  · have hidle : (run step (step s i) js).busyQ = false := by
      rw [Bool.eq_false_iff, ne_eq, busyQ_iff, (hrun js hjs (by omega)).2, not_not,
        List.drop_eq_nil_iff]
      omega
    have hbusy := quiet_run hidle hks
    rw [List.cons_append, run_cons, run_append]
    simp [xvalidO, busyW, hbusy, hj]

end Runs

/-- A cycle without a request, in which the consumer is ready. -/
def readyCycle : Inputs ADDRS REQID where
  reset := false
  avalidI := false
  alenI := 0
  aidI := 0
  aaddrI := 0
  xreadyI := true

/-- In every run from reset, a burst that is accepted is covered if and only if it has no more than
sixteen chunks. -/
theorem covers_iff (s : State ADDRS REQID) (i₀ : Inputs ADDRS REQID)
    (is : List (Inputs ADDRS REQID)) (i : Inputs ADDRS REQID) (k : ℕ)
    (hs : starts (run step (step s { i₀ with reset := true }) is) i = true)
    (hr : i.reset = false) (hlen : i.alenI.toNat + 1 = 4 * k) :
    Covers (run step (step s { i₀ with reset := true }) is) i k ↔ k ≤ 16 := by
  have hcount := count_run (s := step s { i₀ with reset := true }) (fun _ => rfl) is
  constructor
  · intro hcovers
    by_contra hlong
    -- a consumer that is always ready gets the chunks of the counter, and no more
    have hready : ∀ j ∈ List.replicate (k - 1) (readyCycle : Inputs ADDRS REQID),
        j.reset = false ∧ j.avalidI = false := by
      intro j hj
      rw [List.eq_of_mem_replicate hj]
      exact ⟨rfl, rfl⟩
    have hcount' : readies (List.replicate (k - 1)
        (readyCycle : Inputs ADDRS REQID)) = k - 1 := by
      simp [readies, readyCycle, List.countP_replicate]
    obtain ⟨hcut, -⟩ := start_step hcount hs hr
    have hall := hcovers.chunks _ (fun j hj => (hready j hj).1) (by omega)
    have hlength := congrArg List.length hall
    have hcutLength := congrArg List.length hcut
    have hless := length_emitted_le (s := step (run step (step s { i₀ with reset := true }) is) i)
      hready
    have hburst := length_burst_le i
    rw [emitted_cons, List.length_append, List.length_take, length_numbered, hcount'] at hlength
    rw [List.length_append] at hcutLength
    omega
  · exact fun hk => covers_of_burst hcount hs hr (burst_eq hlen hk)

/-- The first request of a run from reset: `alen` for `k` chunks, at address zero. -/
def firstRequest (alen : BitVec 8) : Inputs 32 4 :=
  { readyCycle with avalidI := true, alenI := alen }

/-- The hypotheses are met by a burst of 64 bytes, which is covered. -/
theorem covers_iff_sixteen : Covers (step (default : State 32 4) { readyCycle with reset := true })
    (firstRequest 63) 16 ↔ 16 ≤ 16 :=
  covers_iff default readyCycle [] (firstRequest 63) 16 (by decide) rfl (by decide)

/-- Of the seventeen chunks of a longer burst only two are transferred. -/
theorem not_alwaysCovers :
    ¬ ∀ (s : State 32 4) (i₀ : Inputs 32 4) (is : List (Inputs 32 4)) (i : Inputs 32 4) (k : ℕ),
      starts (run step (step s { i₀ with reset := true }) is) i = true → i.reset = false →
        i.alenI.toNat + 1 = 4 * k → Covers (run step (step s { i₀ with reset := true }) is) i k := by
  intro h
  have hcovers := h default readyCycle [] (firstRequest 67) 17 (by decide) rfl (by decide)
  have hlength := congrArg List.length
    (hcovers.chunks (List.replicate 16 readyCycle) (by decide) (by decide))
  revert hlength
  decide

end MiscVerilogCores.AxiChunks
