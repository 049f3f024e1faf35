import MiscVerilogCores.Library.Clocked
import MiscVerilogCores.Model.AxisAfifo

/-! # Words that cross between two clocks

Each domain sees where the pointer of the other was at some earlier moment. An old read pointer
makes the memory look fuller than it is, and an old write pointer emptier. -/

namespace MiscVerilogCores.AxisAfifo

open RingMemory GrayCode Clocked

open AfifoGray (State Edge initial)

variable {WIDTH ABITS : ℕ}

/-! ## Invariant -/

/-- `words` were accepted and the first `rd` of them delivered. The read domain knows of `sw`
accepted words, and the write domain of `sr` delivered ones. -/
structure Crossing (s : State (WIDTH + 1) ABITS) (words : List (BitVec (WIDTH + 1)))
    (rd sw sr : ℕ) : Prop where
  mem : Holds s.sram words rd
  wpBin : s.wpBin = ptr ABITS words.length
  wpGray : s.wpGray = gray (ptr ABITS words.length)
  rpBin : s.rpBin = ptr ABITS rd
  rpGray : s.rpGray = gray (ptr ABITS rd)
  wpS : s.wpS = gray (ptr ABITS sw)
  rpS : s.rpS = gray (ptr ABITS sr)
  sr_le : sr ≤ rd
  rd_le : rd ≤ sw
  sw_le : sw ≤ words.length
  room : words.length ≤ sr + 2 ^ ABITS
  ready : s.wfullQ = false → words.length < sr + 2 ^ ABITS
  valid : s.remptyQ = false → rd < sw
  released : Released s

section Next

variable (s : State (WIDTH + 1) ABITS) (e : Edge × Inputs WIDTH)
  (words : List (BitVec (WIDTH + 1))) (rd sw sr : ℕ)

def wordsNext : List (BitVec (WIDTH + 1)) := words ++ accepted s e

def rdNext : ℕ := rd + (delivered s e).length

/-- How many accepted words the read domain knows of after an edge. -/
def swNext : ℕ :=
  if e.1.rdClk then (if e.1.wrClk && e.1.rdSeesNew then (wordsNext s e words).length
    else words.length)
  else sw

/-- How many delivered words the write domain knows of after an edge. -/
def srNext : ℕ :=
  if e.1.wrClk then (if e.1.rdClk && e.1.wrSeesNew then rdNext s e rd else rd) else sr

end Next

section Edges

variable {s : State (WIDTH + 1) ABITS} {e : Edge × Inputs WIDTH}
  {words : List (BitVec (WIDTH + 1))} {rd sw sr : ℕ}

theorem accepted_eq : accepted s e = if e.1.wrClk && storeW s e.2 then [wdataW e.2] else [] := by
  rw [accepted, storeW, sTready, Bool.and_assoc]

theorem delivered_eq : delivered s e = if e.1.rdClk && fetchW s e.2 then [rdataW s] else [] := by
  rw [delivered, fetchW, mTvalid, Bool.and_assoc, Bool.and_comm e.2.mTready]

theorem length_accepted : (accepted s e).length = (e.1.wrClk && storeW s e.2).toNat := by
  rw [accepted_eq]
  cases e.1.wrClk && storeW s e.2 <;> rfl

theorem length_delivered : (delivered s e).length = (e.1.rdClk && fetchW s e.2).toNat := by
  rw [delivered_eq]
  cases e.1.rdClk && fetchW s e.2 <;> rfl

namespace Crossing

theorem length_wordsNext_le (h : Crossing s words rd sw sr) :
    (wordsNext s e words).length ≤ sr + 2 ^ ABITS := by
  have hroom := h.room
  rw [wordsNext, List.length_append, length_accepted]
  cases hstore : e.1.wrClk && storeW s e.2
  · exact hroom
  · exact h.ready (by simp_all [storeW, AfifoGray.wfullO])

theorem rdNext_le (h : Crossing s words rd sw sr) : rdNext s e rd ≤ sw := by
  have hle := h.rd_le
  rw [rdNext, length_delivered]
  cases hfetch : e.1.rdClk && fetchW s e.2
  · exact hle
  · exact h.valid (by simp_all [fetchW, AfifoGray.remptyO])

theorem le_srNext (h : Crossing s words rd sw sr) : sr ≤ srNext s e rd sr := by
  have hle := h.sr_le
  simp only [srNext, rdNext]
  split
  · split <;> omega
  · exact le_rfl

theorem wpBinNext_eq (h : Crossing s words rd sw sr) :
    AfifoGray.wpBinNext s = ptr ABITS (words.length + 1) := by
  rw [AfifoGray.wpBinNext, h.wpBin]
  exact ptr_add_one _

theorem rpBinNext_eq (h : Crossing s words rd sw sr) :
    AfifoGray.rpBinNext s = ptr ABITS (rd + 1) := by
  rw [AfifoGray.rpBinNext, h.rpBin]
  exact ptr_add_one _

theorem wpNext_eq (h : Crossing s words rd sw sr) (hw : e.1.wrClk = true) :
    AfifoGray.wpNext s (fifoInputs s e.2) =
      (ptr ABITS (wordsNext s e words).length, gray (ptr ABITS (wordsNext s e words).length)) := by
  rw [wordsNext, List.length_append, length_accepted, hw, Bool.true_and, AfifoGray.wpNext,
    h.released.2]
  cases hstore : storeW s e.2
  · simp [fifoInputs, hstore, h.wpBin, h.wpGray]
  · simp [fifoInputs, hstore, AfifoGray.wpGrayNext, h.wpBinNext_eq, gray]

theorem rpNext_eq (h : Crossing s words rd sw sr) (hr : e.1.rdClk = true) :
    AfifoGray.rpNext s (fifoInputs s e.2) =
      (ptr ABITS (rdNext s e rd), gray (ptr ABITS (rdNext s e rd))) := by
  rw [rdNext, length_delivered, hr, Bool.true_and, AfifoGray.rpNext, h.released.1]
  cases hfetch : fetchW s e.2
  · simp [fifoInputs, hfetch, h.rpBin, h.rpGray]
  · simp [fifoInputs, hfetch, AfifoGray.rpGrayNext, h.rpBinNext_eq, gray]

/-- The memory block after an edge. -/
theorem mem_next (h : Crossing s words rd sw sr) :
    Holds (step s e).sram (wordsNext s e words) (rdNext s e rd) := by
  have hlen := h.length_wordsNext_le (e := e)
  have hsr := h.sr_le
  rw [wordsNext, List.length_append, length_accepted] at hlen
  have hmono : rd ≤ rdNext s e rd := Nat.le_add_right _ _
  cases hstore : e.1.wrClk && storeW s e.2
  · have hsram : (step s e).sram = s.sram := by
      simp [step, AfifoGray.step, fifoInputs, hstore]
    have hnone : accepted s e = [] := by
      rw [← List.length_eq_zero_iff, length_accepted, hstore]
      rfl
    rw [hsram, wordsNext, hnone, List.append_nil]
    exact h.mem.mono hmono
  · have hsram : (step s e).sram =
        Function.update s.sram (slot (ptr ABITS words.length)) (wdataW e.2) := by
      simp [step, AfifoGray.step, fifoInputs, hstore, h.released.2, h.wpBin]
    have hone : accepted s e = [wdataW e.2] := by
      rw [accepted_eq, if_pos hstore]
    rw [hstore] at hlen
    rw [hsram, wordsNext, hone]
    exact h.mem.store _ hmono (by simp at hlen; omega)

/-- The full flag compares with a read pointer that is not newer than the true one. -/
theorem ready_next (h : Crossing s words rd sw sr) (hreset : e.2.aresetn = true)
    (hfull : (step s e).wfullQ = false) :
    (wordsNext s e words).length < srNext s e rd sr + 2 ^ ABITS := by
  have hle := h.length_wordsNext_le (e := e)
  have hsr := h.le_srNext (e := e)
  have hrd := h.sr_le.trans (h.rd_le.trans h.sw_le)
  have hx : AfifoGray.rpBinX s = ptr ABITS sr := by rw [AfifoGray.rpBinX, h.rpS, ungray_gray]
  cases hw : e.1.wrClk
  · have hsame : (step s e).wfullQ = s.wfullQ := by simp [step, AfifoGray.step, hw]
    have hready := h.ready (hsame ▸ hfull)
    rw [wordsNext, List.length_append, length_accepted, hw, Bool.false_and, Bool.toNat_false]
    omega
  · have hflags : AfifoGray.fullCurr s = false ∧ AfifoGray.fullNext s (fifoInputs s e.2) = false := by
      simpa [step, AfifoGray.step, hw, fifoInputs, hreset] using hfull
    have hne : (wordsNext s e words).length ≠ sr + 2 ^ ABITS := by
      intro heq
      rw [wordsNext, List.length_append, length_accepted, hw, Bool.true_and] at heq hle
      cases hstore : storeW s e.2
      · rw [hstore] at heq
        have hlap := (slot_eq_and_msb_ne_iff hrd h.room).mpr (by simpa using heq)
        rw [← hx, ← h.wpBin] at hlap
        simp [AfifoGray.fullCurr, hlap] at hflags
      · rw [hstore] at heq hle
        have hlap := (slot_eq_and_msb_ne_iff (A := ABITS) (hrd.trans (Nat.le_succ _)) hle).mpr heq
        rw [← hx, ← h.wpBinNext_eq] at hlap
        simp [AfifoGray.fullNext, fifoInputs, hstore, hlap] at hflags
    omega

/-- The empty flag compares with a write pointer that is not newer than the true one. -/
theorem valid_next (h : Crossing s words rd sw sr) (hempty : (step s e).remptyQ = false) :
    rdNext s e rd < swNext s e words sw := by
  have hle := h.rdNext_le (e := e)
  have hsw := h.sw_le
  have hrd := h.rd_le
  have hroom := h.room
  have hsr := h.sr_le
  cases hr : e.1.rdClk
  · have hsame : (step s e).remptyQ = s.remptyQ := by simp [step, AfifoGray.step, hr]
    have hvalid := h.valid (hsame ▸ hempty)
    simp only [swNext, hr, rdNext, length_delivered]
    simpa using hvalid
  · have hflags : s.wpS ≠ s.rpGray ∧
        (fetchW s e.2 = true → s.wpS ≠ AfifoGray.rpGrayNext s) := by
      have := hempty
      simp [step, AfifoGray.step, hr, fifoInputs] at this
      exact ⟨this.1.2, this.2⟩
    have hne : rdNext s e rd ≠ sw := by
      intro heq
      rw [rdNext, length_delivered, hr, Bool.true_and] at heq
      cases hfetch : fetchW s e.2
      · rw [hfetch] at heq
        apply hflags.1
        rw [h.wpS, h.rpGray, ← heq]
        rfl
      · rw [hfetch] at heq
        apply hflags.2 hfetch
        rw [h.wpS, AfifoGray.rpGrayNext, h.rpBinNext_eq, ← heq]
        rfl
    simp only [swNext, hr, if_true]
    split
    · rw [wordsNext, List.length_append]
      omega
    · omega

theorem next (h : Crossing s words rd sw sr) (hreset : e.2.aresetn = true) :
    Crossing (step s e) (wordsNext s e words) (rdNext s e rd) (swNext s e words sw)
      (srNext s e rd sr) where
  mem := h.mem_next
  wpBin := by
    cases hw : e.1.wrClk
    · simp [step, AfifoGray.step, hw, wordsNext, length_accepted, h.wpBin]
    · simp [step, AfifoGray.step, hw, h.wpNext_eq hw]
  wpGray := by
    cases hw : e.1.wrClk
    · simp [step, AfifoGray.step, hw, wordsNext, length_accepted, h.wpGray]
    · simp [step, AfifoGray.step, hw, h.wpNext_eq hw]
  rpBin := by
    cases hr : e.1.rdClk
    · simp [step, AfifoGray.step, hr, rdNext, length_delivered, h.rpBin]
    · simp [step, AfifoGray.step, hr, h.rpNext_eq hr]
  rpGray := by
    cases hr : e.1.rdClk
    · simp [step, AfifoGray.step, hr, rdNext, length_delivered, h.rpGray]
    · simp [step, AfifoGray.step, hr, h.rpNext_eq hr]
  wpS := by
    cases hr : e.1.rdClk
    · simp [step, AfifoGray.step, swNext, hr, h.wpS]
    · cases hw : e.1.wrClk
      · simp [step, AfifoGray.step, swNext, hr, hw, h.wpGray]
      · cases hn : e.1.rdSeesNew <;>
          simp [step, AfifoGray.step, swNext, hr, hw, hn, h.wpGray, h.wpNext_eq hw]
  rpS := by
    cases hw : e.1.wrClk
    · simp [step, AfifoGray.step, srNext, hw, h.rpS]
    · cases hr : e.1.rdClk
      · simp [step, AfifoGray.step, srNext, hr, hw, h.rpGray]
      · cases hn : e.1.wrSeesNew <;>
          simp [step, AfifoGray.step, srNext, hr, hw, hn, h.rpGray, h.rpNext_eq hr]
  sr_le := by
    have := h.sr_le
    simp only [srNext, rdNext]
    split
    · split <;> omega
    · omega
  rd_le := by
    have hle := h.rdNext_le (e := e)
    have hsw := h.sw_le
    simp only [swNext, wordsNext, List.length_append]
    split
    · split <;> omega
    · exact hle
  sw_le := by
    have hsw := h.sw_le
    simp only [swNext, wordsNext, List.length_append]
    split
    · split <;> omega
    · omega
  room := by
    have hle := h.length_wordsNext_le (e := e)
    have hsr := h.le_srNext (e := e)
    omega
  ready := h.ready_next hreset
  valid := h.valid_next
  released := by
    simp [Released, step, AfifoGray.step, fifoInputs, hreset, h.released.1, h.released.2]

/-- The word on offer is the next one to deliver. -/
theorem offered (h : Crossing s words rd sw sr) (hv : mTvalid s = true) :
    words[rd]? = some (rdataW s) := by
  have hlt : rd < words.length := by
    have := h.valid (by simpa [mTvalid, AfifoGray.remptyO] using hv)
    have := h.sw_le
    omega
  rw [List.getElem?_eq_getElem hlt, rdataW, AfifoGray.rdDataO, h.rpBin, h.mem.read le_rfl hlt]

theorem take_rdNext (h : Crossing s words rd sw sr) :
    (wordsNext s e words).take (rdNext s e rd) = words.take rd ++ delivered s e := by
  have hle := h.rd_le.trans h.sw_le
  rw [wordsNext, rdNext, delivered_eq]
  cases hd : e.1.rdClk && fetchW s e.2
  · simpa using List.take_append_of_le_length hle
  · have hv : mTvalid s = true := by simp_all [fetchW, mTvalid]
    obtain ⟨hlt, hword⟩ := List.getElem?_eq_some_iff.mp (h.offered hv)
    rw [if_pos rfl, List.length_singleton, List.take_append_of_le_length hlt,
      List.take_succ_eq_append_getElem hlt, hword]

/-! ## Runs -/

theorem run (h : Crossing s words rd sw sr) {es : List (Edge × Inputs WIDTH)}
    (hes : ∀ e ∈ es, e.2.aresetn = true) :
    ∃ sw' sr', Crossing (Clocked.run step s es) (words ++ emitted step accepted s es)
      (rd + (emitted step delivered s es).length) sw' sr' ∧
      (words ++ emitted step accepted s es).take (rd + (emitted step delivered s es).length) =
        words.take rd ++ emitted step delivered s es := by
  induction es generalizing s words rd sw sr with
  | nil => exact ⟨sw, sr, by simpa using h, by simp⟩
  | cons e es ih =>
      obtain ⟨sw', sr', hend, htake⟩ := ih (h.next (hes e (by simp)))
        fun e' he' => hes e' (List.mem_cons_of_mem e he')
      rw [h.take_rdNext] at htake
      simp only [wordsNext, rdNext, List.append_assoc, Nat.add_assoc, ← List.length_append] at hend htake
      exact ⟨sw', sr', hend, htake⟩

end Crossing

end Edges

/-! ## After the resets have been released -/

/-- Nothing has passed through the FIFO. -/
structure Unused (s : State (WIDTH + 1) ABITS) : Prop where
  wpBin : s.wpBin = 0
  wpGray : s.wpGray = 0
  rpBin : s.rpBin = 0
  rpGray : s.rpGray = 0
  wpS : s.wpS = 0
  rpS : s.rpS = 0
  wfullQ : s.wfullQ = false
  remptyQ : s.remptyQ = true

section Reset

variable {s : State (WIDTH + 1) ABITS} {e : Edge × Inputs WIDTH}

theorem Unused.next (h : Unused s) (he : e.2.sTvalid = false) : Unused (step s e) := by
  have hstore : storeW s e.2 = false := by simp [storeW, he]
  have hfetch : fetchW s e.2 = false := by simp [fetchW, AfifoGray.remptyO, h.remptyQ]
  have hwp : AfifoGray.wpNext s (fifoInputs s e.2) = (0, 0) := by
    simp [AfifoGray.wpNext, fifoInputs, hstore, h.wpBin, h.wpGray]
  have hrp : AfifoGray.rpNext s (fifoInputs s e.2) = (0, 0) := by
    simp [AfifoGray.rpNext, fifoInputs, hfetch, h.rpBin, h.rpGray]
  have hx : AfifoGray.rpBinX s = 0 := by
    rw [AfifoGray.rpBinX, h.rpS]
    exact (congrArg ungray gray_zero).symm.trans (ungray_gray _)
  refine ⟨?_, ?_, ?_, ?_, ?_, ?_, ?_, ?_⟩
  · simp [step, AfifoGray.step, hwp, h.wpBin]
  · simp [step, AfifoGray.step, hwp, h.wpGray]
  · simp [step, AfifoGray.step, hrp, h.rpBin]
  · simp [step, AfifoGray.step, hrp, h.rpGray]
  · simp [step, AfifoGray.step, hwp, h.wpGray, h.wpS]
  · simp [step, AfifoGray.step, hrp, h.rpGray, h.rpS]
  · simp [step, AfifoGray.step, AfifoGray.fullCurr, AfifoGray.fullNext, fifoInputs, hstore, hx,
      h.wpBin, h.wfullQ]
  · simp [step, AfifoGray.step, h.wpS, h.rpGray, h.remptyQ]

theorem unused_initial (sram : BitVec ABITS → BitVec (WIDTH + 1)) : Unused (initial sram) :=
  ⟨rfl, rfl, rfl, rfl, rfl, rfl, rfl, rfl⟩

theorem Unused.run (h : Unused s) {es : List (Edge × Inputs WIDTH)}
    (hes : ∀ e ∈ es, e.2.sTvalid = false) : Unused (Clocked.run step s es) :=
  run_invariant Unused (fun _ _ h he => h.next he) h (along_of_inputs step s hes)

theorem Unused.crossing (h : Unused s) (hr : Released s) : Crossing s [] 0 0 0 := by
  have hptr : ptr ABITS 0 = 0 := rfl
  refine ⟨holds_nil _ _, ?_, ?_, ?_, ?_, ?_, ?_, le_rfl, le_rfl, le_rfl, ?_, fun _ => ?_, ?_, hr⟩
  · simp [hptr, h.wpBin]
  · simp [hptr, h.wpGray]
  · simp [hptr, h.rpBin]
  · simp [hptr, h.rpGray]
  · simp [hptr, h.wpS]
  · simp [hptr, h.rpS]
  · simp
  · simp
  · simp [h.remptyQ]

end Reset

/-! ## Words cross in order -/

/-- What has been accepted and delivered in the moments `es`, and what the next moment may do. -/
structure Crossed (s : State (WIDTH + 1) ABITS) (es : List (Edge × Inputs WIDTH)) : Prop where
  order : emitted step delivered s es <+: emitted step accepted s es
  unread : ∀ e, Writes (run step s es) e →
    (emitted step accepted s es).length < (emitted step delivered s es).length + 2 ^ ABITS
  presented : mTvalid (run step s es) = true →
    (emitted step accepted s es)[(emitted step delivered s es).length]? =
      some (rdataW (run step s es))

/-- Whatever the clocks do once the resets have been released, the words are delivered in the order
in which they were accepted, none is written over one that has not been read, and the one on
offer is the next to deliver. -/
theorem crossed (sram : BitVec ABITS → BitVec (WIDTH + 1)) (pre es : List (Edge × Inputs WIDTH))
    (hpre : ∀ e ∈ pre, e.2.sTvalid = false) (hreleased : Released (run step (initial sram) pre))
    (hes : ∀ e ∈ es, e.2.aresetn = true) : Crossed (run step (initial sram) pre) es := by
  have hstart := ((unused_initial sram).run hpre).crossing hreleased
  obtain ⟨sw, sr, hend, htake⟩ := hstart.run hes
  rw [List.nil_append, Nat.zero_add] at hend htake
  refine ⟨?_, fun e he => ?_, hend.offered⟩
  · rw [List.prefix_iff_eq_take]
    simpa using htake.symm
  · have hfull : (run step (run step (initial sram) pre) es).wfullQ = false := by
      have hen := he.2.1
      simp only [fifoInputs, storeW, AfifoGray.wfullO, Bool.and_eq_true, Bool.not_eq_true'] at hen
      exact hen.2
    have hready := hend.ready hfull
    have hsr := hend.sr_le
    omega

/-- Both clocks have an edge, and neither domain sees the new pointer of the other. -/
def bothEdges : Edge := ⟨true, true, false, false⟩

/-- Four words are offered to a FIFO of two. -/
theorem crossed_four :
    Crossed (run step (initial fun _ : BitVec 1 => (0 : BitVec 9))
        (List.replicate 2 (bothEdges, ⟨true, false, false, 0, true⟩)))
      (List.replicate 4 (bothEdges, ⟨true, true, false, 0x5a, true⟩)) :=
  crossed (fun _ => 0) (List.replicate 2 (bothEdges, ⟨true, false, false, 0, true⟩))
    (List.replicate 4 (bothEdges, ⟨true, true, false, 0x5a, true⟩)) (by decide) ⟨by decide, by decide⟩ (by decide)

end MiscVerilogCores.AxisAfifo
