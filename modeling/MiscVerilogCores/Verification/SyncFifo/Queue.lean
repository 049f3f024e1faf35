import MiscVerilogCores.Library.Clocked
import MiscVerilogCores.Model.SyncFifo
import MiscVerilogCores.Verification.Skid.Contents

/-! # What a synchronous FIFO holds

The words in the memory array form a stretch of the stream of stored words; the
words in the output registers are older. One edge moves words along and keeps
their order, except that an explicit load behind a stalled skid register
overwrites the word in the SRAM output register. -/

namespace MiscVerilogCores.SyncFifo

open Clocked RingMemory

variable {WIDTH ABITS OUTREG : ℕ}

/-! ## The words held -/

/-- The words in the memory array, from `raddr` up to `waddr`. -/
def sramWords (s : State WIDTH ABITS) : List (BitVec WIDTH) :=
  window s.sram s.raddr (s.waddr - s.raddr).toNat

/-- The word in the SRAM output register. -/
def xWords (s : State WIDTH ABITS) : List (BitVec WIDTH) :=
  if s.xvalid then [s.xdata] else []

/-- The words in the valid output registers, oldest first. -/
def outputWords (OUTREG : ℕ) (s : State WIDTH ABITS) : List (BitVec WIDTH) :=
  match OUTREG with
  | 0 => []
  | 1 => xWords s
  | _ => (SkidLoader.contents s.skid).map Prod.snd ++ xWords s

theorem outputWords_eq_nil {s : State WIDTH ABITS} (hx : xWords s = [])
    (hc : SkidLoader.contents s.skid = []) : outputWords OUTREG s = [] := by
  unfold outputWords
  split
  · rfl
  · exact hx
  · simp [hx, hc]

/-! ## What one edge moves -/

/-- The word written to the memory array. -/
def stored (OUTREG : ℕ) (s : State WIDTH ABITS) (i : Inputs WIDTH) : List (BitVec WIDTH) :=
  if storeW OUTREG s i then [i.dataI] else []

/-- The word read from the memory array. -/
def fetched (OUTREG : ℕ) (s : State WIDTH ABITS) (i : Inputs WIDTH) : List (BitVec WIDTH) :=
  if fetchW OUTREG s i then [s.sram (slot s.raddr)] else []

/-- The incoming word goes to the source port of the skid register. -/
def toSkid (OUTREG : ℕ) (s : State WIDTH ABITS) (i : Inputs WIDTH) : Bool :=
  decide (1 < OUTREG) && i.validI && s.wready && !s.xvalid && !s.rvalid && s.skid.sready

/-- The incoming word goes to the loadable temporary register. -/
def toTemp (OUTREG : ℕ) (s : State WIDTH ABITS) (i : Inputs WIDTH) : Bool :=
  SkidLoader.loads (skidParams OUTREG WIDTH) s.skid (skidInputs OUTREG s i)

/-- The incoming word that does not go through the memory array. -/
def bypassed (OUTREG : ℕ) (s : State WIDTH ABITS) (i : Inputs WIDTH) : List (BitVec WIDTH) :=
  if toSkid OUTREG s i || toTemp OUTREG s i then [i.dataI] else []

/-! ## Invariant -/

/-- The memory array and its pointers hold `words` from index `r` on. -/
structure Held (s : State WIDTH ABITS) (words : List (BitVec WIDTH)) (r : ℕ) : Prop where
  mem : Holds s.sram words r
  waddr : s.waddr = ptr ABITS words.length
  raddr : s.raddr = ptr ABITS r
  read_le : r ≤ words.length
  rvalid : s.rvalid = true ↔ r < words.length
  wready : s.wready = true → words.length < r + 2 ^ ABITS

/-- The control registers of the output stage agree with those of the memory array. -/
structure Coherent (OUTREG : ℕ) (s : State WIDTH ABITS) : Prop where
  skid : SkidLoader.Valid s.skid
  unloaded : OUTREG ≤ 2 → s.skid.tready = false
  starting : s.skid.sready = false → s.skid.tvalid = false → s.xvalid = false
  busy : s.skid.sready = true → s.wready = false → s.rvalid = true

/-- The cycle is the first one after a reset. -/
def Starting (s : State WIDTH ABITS) : Prop :=
  s.skid.sready = false ∧ s.skid.tvalid = false

instance (s : State WIDTH ABITS) : Decidable (Starting s) :=
  inferInstanceAs (Decidable (_ ∧ _))

/-- An incoming word is loaded behind a word that the skid register cannot take yet. -/
def Overwrites (s : State WIDTH ABITS) (i : Inputs WIDTH) : Prop :=
  i.validI = true ∧ s.wready = true ∧ s.rvalid = false ∧ s.xvalid = true ∧
    s.skid.tready = true ∧ s.skid.mvalid = true ∧ i.readyI = false

instance (s : State WIDTH ABITS) (i : Inputs WIDTH) : Decidable (Overwrites s i) :=
  inferInstanceAs (Decidable (_ ∧ _))

/-- The edges at which a run keeps the order of its words. -/
structure Good (OUTREG : ℕ) (s : State WIDTH ABITS) (i : Inputs WIDTH) : Prop where
  reset : i.reset = false
  first : 1 < OUTREG → Starting s → i.validI = false
  kept : ¬ Overwrites s i

theorem Held.sramWords_eq {s : State WIDTH ABITS} {words : List (BitVec WIDTH)} {r : ℕ}
    (h : Held s words r) : sramWords s = words.drop r := by
  rw [sramWords, h.waddr, h.raddr]
  exact h.mem.window_eq le_rfl h.read_le

/-! ## The memory array -/

section Array

variable {s : State WIDTH ABITS} {i : Inputs WIDTH} {words : List (BitVec WIDTH)} {r : ℕ}

theorem storeW_wready (h : storeW OUTREG s i = true) : s.wready = true := by
  simp only [storeW] at h
  split at h <;> simp_all

theorem fetchW_rvalid (h : fetchW OUTREG s i = true) : s.rvalid = true := by
  simp only [fetchW] at h
  split at h <;> simp_all

theorem wfullW_eq : wfullW OUTREG s i =
    fullNext s.waddr s.raddr (storeW OUTREG s i) (fetchW OUTREG s i) := rfl

theorem emptyW_eq : emptyW OUTREG s i =
    emptyNext s.waddr s.raddr (storeW OUTREG s i) (fetchW OUTREG s i) := by
  have hptr := slot_eq_and_msb_eq s.waddr s.raddr
  rw [Bool.eq_iff_iff]
  simp only [emptyW, remptyCurr, remptyNext, matchW, raddrNext, emptyNext, Bool.or_eq_true,
    Bool.and_eq_true, beq_iff_eq, ← hptr]

theorem length_stored : (stored OUTREG s i).length = (storeW OUTREG s i).toNat := by
  rw [stored]
  cases storeW OUTREG s i <;> rfl

theorem length_fetched : (fetched OUTREG s i).length = (fetchW OUTREG s i).toNat := by
  rw [fetched]
  cases fetchW OUTREG s i <;> rfl

theorem Held.stored_le (h : Held s words r) (OUTREG : ℕ)
    (i : Inputs WIDTH) :
    words.length + (stored OUTREG s i).length ≤ r + 2 ^ ABITS := by
  rw [length_stored]
  cases hs : storeW OUTREG s i
  · exact h.mem.length_le
  · exact h.wready (storeW_wready hs)

theorem Held.fetched_le (h : Held s words r) (OUTREG : ℕ)
    (i : Inputs WIDTH) :
    r + (fetched OUTREG s i).length ≤ words.length := by
  rw [length_fetched]
  cases hf : fetchW OUTREG s i
  · exact h.read_le
  · exact h.rvalid.mp (fetchW_rvalid hf)

/-- The full flag is exact after every edge. -/
theorem Held.wready_next (h : Held s words r) (OUTREG : ℕ)
    (hr : i.reset = false) :
    (step OUTREG s i).wready = false ↔
      (words ++ stored OUTREG s i).length = r + (fetched OUTREG s i).length + 2 ^ ABITS := by
  have hfull := fullNext_ptr (storeW OUTREG s i) (fetchW OUTREG s i)
    h.read_le h.mem.length_le (fun hs => h.wready (storeW_wready hs))
    (fun hf => h.rvalid.mp (fetchW_rvalid hf))
  rw [← h.waddr, ← h.raddr, ← wfullW_eq] at hfull
  rw [List.length_append, length_stored, length_fetched, ← hfull]
  simp [SyncFifo.step, hr]

/-- The empty flag is exact after every edge. -/
theorem Held.rvalid_next (h : Held s words r) (OUTREG : ℕ)
    (hr : i.reset = false) :
    (step OUTREG s i).rvalid = true ↔
      r + (fetched OUTREG s i).length < (words ++ stored OUTREG s i).length := by
  have hempty := emptyNext_ptr (storeW OUTREG s i) (fetchW OUTREG s i)
    h.read_le h.mem.length_le (fun hf => h.rvalid.mp (fetchW_rvalid hf))
  rw [← h.waddr, ← h.raddr, ← emptyW_eq, ← length_fetched] at hempty
  have hle := h.fetched_le OUTREG i
  have hnext : (step OUTREG s i).rvalid = true ↔ ¬ emptyW OUTREG s i = true := by
    simp [SyncFifo.step, hr]
  rw [hnext, hempty, List.length_append, length_stored]
  cases storeW OUTREG s i <;> simp <;> omega

/-- After the edge the array holds what was stored too, and no longer what was fetched. -/
theorem Held.step (h : Held s words r) (OUTREG : ℕ)
    (hr : i.reset = false) :
    Held (step OUTREG s i) (words ++ stored OUTREG s i) (r + (fetched OUTREG s i).length) where
  mem := by
    simp only [SyncFifo.step, hr, Bool.not_false, Bool.true_and]
    cases hs : storeW OUTREG s i
    · simpa [stored, hs] using h.mem.mono (Nat.le_add_right r _)
    · have hroom := h.wready (storeW_wready hs)
      rw [if_pos rfl, h.waddr]
      simpa [stored, hs] using h.mem.store i.dataI (Nat.le_add_right r _) (by omega)
  waddr := by
    cases hs : storeW OUTREG s i <;> simp [SyncFifo.step, hr, hs, stored, h.waddr, waddrNext]
  raddr := by
    cases hf : fetchW OUTREG s i <;> simp [SyncFifo.step, hr, hf, fetched, h.raddr, raddrNext]
  read_le := by
    rw [List.length_append]
    exact (h.fetched_le OUTREG i).trans (Nat.le_add_right _ _)
  rvalid := h.rvalid_next OUTREG hr
  wready := by
    intro hw
    have hne : ¬ (SyncFifo.step OUTREG s i).wready = false := by simp [hw]
    have hle := h.stored_le OUTREG i
    rw [h.wready_next OUTREG hr, List.length_append] at hne
    rw [List.length_append]
    omega

/-- What the array holds, with what is stored, is what is fetched and what it holds next. -/
theorem Held.drop_append (h : Held s words r) (OUTREG : ℕ)
    (i : Inputs WIDTH) :
    words.drop r ++ stored OUTREG s i =
      fetched OUTREG s i ++
        (words ++ stored OUTREG s i).drop (r + (fetched OUTREG s i).length) := by
  by_cases hf : fetchW OUTREG s i = true
  · have hr : r < words.length := h.rvalid.mp (fetchW_rvalid hf)
    have hread := h.mem.read le_rfl hr
    rw [← h.raddr] at hread
    rw [fetched, if_pos hf, hread]
    simp only [List.length_singleton]
    rw [List.drop_append_of_le_length (by omega), ← List.append_assoc]
    congr 1
    rw [List.drop_eq_getElem_cons hr]
    rfl
  · rw [fetched, if_neg hf]
    simp [List.drop_append_of_le_length h.read_le]

end Array

/-! ## The output stage -/

section Output

variable {s : State WIDTH ABITS} {i : Inputs WIDTH}

theorem toTemp_eq_true (h : toTemp OUTREG s i = true) :
    2 < OUTREG ∧ s.rvalid = false ∧ s.xvalid = true ∧ i.validI = true ∧ s.wready = true ∧
      s.skid.tready = true := by
  simp only [toTemp, SkidLoader.loads, skidParams, skidInputs, tvalidW, Bool.and_eq_true,
    decide_eq_true_eq, Bool.not_eq_true'] at h
  obtain ⟨⟨ho, ⟨⟨hrv, hx⟩, hv⟩, hw⟩, ht⟩ := h
  exact ⟨ho, hrv, hx, hv, hw, ht⟩

theorem Coherent.offer (h : Coherent OUTREG s) (hg : Good OUTREG s i) :
    SkidLoader.Offer (skidParams OUTREG WIDTH) s.skid (skidInputs OUTREG s i) where
  started := by
    intro hs ht
    have hx := h.starting hs ht
    have hv : 1 < OUTREG → i.validI = false := fun ho => hg.first ho ⟨hs, ht⟩
    by_cases ho : 1 < OUTREG <;> simp_all [skidInputs, svalidW]
  load := by
    intro hl
    obtain ⟨-, hrv, hx, hv, hw, ht⟩ := toTemp_eq_true hl
    have hk := hg.kept
    simp only [Overwrites, hv, hw, hrv, hx, ht, true_and, not_and, Bool.not_eq_false] at hk
    cases hm : s.skid.mvalid <;> simp_all [skidInputs, svalidW]

theorem Coherent.step {words : List (BitVec WIDTH)} {r : ℕ} (h : Coherent OUTREG s)
    (hs : Held s words r) (hg : Good OUTREG s i) : Coherent OUTREG (step OUTREG s i) where
  skid := h.skid.step (h.offer hg)
  unloaded := by
    intro ho
    have : ¬ 2 < OUTREG := by omega
    simp [SyncFifo.step, SkidLoader.step, skidParams, this]
  starting := by
    intro hs' ht'
    exact absurd ⟨hs', ht'⟩ (SkidLoader.started_step _ _ _ hg.reset)
  busy := by
    intro _ hw
    rw [hs.wready_next OUTREG hg.reset] at hw
    rw [hs.rvalid_next OUTREG hg.reset]
    have := Nat.two_pow_pos ABITS
    omega

/-- Every accepted word takes exactly one way. -/
theorem Coherent.one_way (h : Coherent OUTREG s) (hacc : (i.validI && readyO s) = true) :
    [storeW OUTREG s i, toSkid OUTREG s i, toTemp OUTREG s i].count true = 1 := by
  have hl := h.skid.loadable
  have hu := h.unloaded
  obtain ⟨hv, hw⟩ : i.validI = true ∧ s.wready = true := by simpa [readyO] using hacc
  match OUTREG with
  | 0 => simp [storeW, toSkid, toTemp, SkidLoader.loads, skidParams, hv, hw]
  | 1 => simp [storeW, noregW, toSkid, toTemp, SkidLoader.loads, skidParams, hv, hw]
  | 2 =>
      have ht := hu le_rfl
      cases hrv : s.rvalid <;> cases hx : s.xvalid <;> cases hsr : s.skid.sready <;>
        simp [storeW, noregW, toSkid, toTemp, SkidLoader.loads, skidParams, tready, sready,
          SkidLoader.tTready, SkidLoader.sTready, hv, hw, hrv, hx, hsr, ht]
  | n + 3 =>
      cases hrv : s.rvalid <;> cases hx : s.xvalid <;> cases hsr : s.skid.sready <;>
        cases ht : s.skid.tready <;>
        simp_all [storeW, noregW, toSkid, toTemp, SkidLoader.loads, skidParams, skidInputs,
          tvalidW, tready, sready, SkidLoader.tTready, SkidLoader.sTready]

/-- One edge of the SRAM output register and the bypass around the memory array: what
they take in goes on to the two ports of the skid register. -/
theorem Coherent.register (h : Coherent OUTREG s) (hg : Good OUTREG s i) (ho : 1 < OUTREG) :
    xWords s ++ (fetched OUTREG s i ++ bypassed OUTREG s i) =
      (SkidLoader.taken s.skid (skidInputs OUTREG s i) ++
        SkidLoader.loaded (skidParams OUTREG WIDTH) s.skid (skidInputs OUTREG s i)).map Prod.snd ++
      xWords (SyncFifo.step OUTREG s i) := by
  have hl := h.skid.loadable
  have hb := h.busy
  have hr := hg.reset
  have ho' : ¬ OUTREG < 2 := by omega
  have ho0 : OUTREG ≠ 0 := by omega
  cases hrv : s.rvalid <;> cases hx : s.xvalid <;> cases hsr : s.skid.sready <;>
    cases hv : i.validI <;> cases hw : s.wready <;>
    simp_all [xWords, fetched, bypassed, toSkid, toTemp, SkidLoader.taken, SkidLoader.loaded,
      SkidLoader.loads, skidInputs, svalidW, sdataW, tvalidW, fetchW, SyncFifo.step, sready,
      SkidLoader.sTready, skidParams, apply_ite (List.map Prod.snd)]

theorem map_given (ho : 1 < OUTREG) :
    (SkidLoader.given s.skid (skidInputs OUTREG s i)).map Prod.snd = delivered OUTREG s i := by
  have ho0 : OUTREG ≠ 0 := by omega
  simp [SkidLoader.given, delivered, validO, dataO, SkidLoader.mTvalid, SkidLoader.mTdata,
    skidParams, skidInputs, ho, ho0, apply_ite (List.map Prod.snd)]

/-- One edge of the output stage. -/
theorem Coherent.output (h : Coherent OUTREG s) (hg : Good OUTREG s i) :
    outputWords OUTREG s ++ (fetched OUTREG s i ++ bypassed OUTREG s i) =
      delivered OUTREG s i ++ outputWords OUTREG (SyncFifo.step OUTREG s i) := by
  match OUTREG with
  | 0 =>
      cases hrv : s.rvalid <;> cases hri : i.readyI <;>
        simp [outputWords, fetched, bypassed, toSkid, toTemp, SkidLoader.loads, skidParams,
          delivered, fetchW, validO, dataO, hrv, hri]
  | 1 =>
      cases hrv : s.rvalid <;> cases hx : s.xvalid <;> cases hri : i.readyI <;>
        simp [outputWords, xWords, fetched, bypassed, toSkid, toTemp, SkidLoader.loads,
          skidParams, skidInputs, delivered, fetchW, validO, dataO, sready, svalidW, sdataW,
          SkidLoader.sTready, SkidLoader.mTvalid, SkidLoader.mTdata, SyncFifo.step, hg.reset,
          hrv, hx, hri]
  | n + 2 =>
      have hskid := SkidLoader.step_contents h.skid (h.offer hg) hg.reset
      have hreg := h.register hg (by omega)
      simp only [outputWords]
      rw [List.append_assoc, hreg, ← List.append_assoc, ← List.map_append, hskid,
        List.map_append, map_given (by omega), List.append_assoc]
      rfl

/-- A word on offer stays on offer, unchanged, until it is taken. -/
theorem Held.offer_stays {words : List (BitVec WIDTH)} {r : ℕ} (hs : Held s words r)
    (hr : i.reset = false) (hv : validO OUTREG s i = true) (hri : i.readyI = false)
    (j : Inputs WIDTH) :
    validO OUTREG (SyncFifo.step OUTREG s i) j = true ∧
      dataO OUTREG (SyncFifo.step OUTREG s i) j = dataO OUTREG s i := by
  match OUTREG with
  | 0 =>
      have hrv : s.rvalid = true := hv
      have hf : fetched 0 s i = [] := by simp [fetched, fetchW, hri]
      have hlt := hs.rvalid.mp hrv
      have hs' := hs.step 0 hr
      rw [hf] at hs'
      have hlt' : r < (words ++ stored 0 s i).length := by
        rw [List.length_append]
        omega
      refine ⟨hs'.rvalid.mpr hlt', ?_⟩
      calc dataO 0 (SyncFifo.step 0 s i) j
          = (words ++ stored 0 s i)[r] := by
            rw [dataO, if_pos rfl, hs'.raddr]
            exact hs'.mem.read le_rfl hlt'
        _ = words[r] := List.getElem_append_left hlt
        _ = dataO 0 s i := by
            rw [dataO, if_pos rfl, hs.raddr]
            exact (hs.mem.read le_rfl hlt).symm
  | 1 =>
      have hx : s.xvalid = true := by
        simpa [validO, SkidLoader.mTvalid, skidParams, skidInputs, svalidW] using hv
      simp [validO, dataO, SkidLoader.mTvalid, SkidLoader.mTdata, skidParams, skidInputs, svalidW,
        sdataW, SyncFifo.step, fetchW, sready, SkidLoader.sTready, hx, hri, hr]
  | n + 2 =>
      have hm : s.skid.mvalid = true := by
        simpa [validO, SkidLoader.mTvalid, skidParams] using hv
      obtain ⟨hm', -, hd'⟩ := SkidLoader.step_stalled (skidParams (n + 2) WIDTH) s.skid
        (skidInputs (n + 2) s i) hr hm hri
      exact ⟨by simpa [validO, SkidLoader.mTvalid, skidParams, SyncFifo.step] using hm',
        by simpa [dataO, SkidLoader.mTdata, skidParams, SyncFifo.step] using hd'⟩

end Output

end MiscVerilogCores.SyncFifo
