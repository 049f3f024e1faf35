import Mathlib.Data.List.DropRight
import MiscVerilogCores.Verification.AxisFifo.Writing

/-! # A queue

Without a mode that drops frames, every beat that is accepted is delivered. In frame mode that is when
its frame is complete, or if it does not fit into the memory. -/

namespace MiscVerilogCores.AxisFifo

open Clocked RingMemory

variable {u d k : ℕ} {V : Type} {p : Params u}

/-- No frame is dropped, and none is cut off. -/
structure Lossless (p : Params u) : Prop where
  oversize : p.dropOversizeFrame = false
  mark : p.markWhenFull = false

/-- The beats of the frames that are complete. -/
def complete (beats : List (Word d k u V)) : List (Word d k u V) :=
  beats.rdropWhile fun w => !w.tlast

/-- The beats that are passed on without waiting for others. -/
def passed (p : Params u) (beats : List (Word d k u V)) : List (Word d k u V) :=
  if p.frameFifo then complete beats else beats

/-- No frame has filled the memory. -/
def Fit (p : Params u) (beats : List (Word d k u V)) : Prop :=
  ∀ pre, pre <+: beats → pre.length < (complete pre).length + 2 ^ p.addrWidth

/-- The accepted beats are delivered in order: `capacity` bounds those that are under way. -/
structure Queues (s : State p d k V) (is : List (Inputs d k u V)) : Prop where
  order : delivered s is <+: (accepted s is).map (visible p)
  underway : (accepted s is).length ≤ (delivered s is).length + (2 ^ p.addrWidth + p.ramPipeline + 1)
  waits : p.frameFifo = true → Fit p (accepted s is) →
    delivered s is <+: (complete (accepted s is)).map (visible p)
  drains : ∀ js : List (Inputs d k u V), (∀ j ∈ js, j.rst = false) →
    2 ^ p.addrWidth + p.ramPipeline + 1 ≤ js.countP Inputs.mAxisTready →
    (passed p (accepted s is)).map (visible p) <+: delivered s (is ++ js)
  held : Along step Held s is

/-! ## States -/

section Edges

variable {s : State p d k V} {i : Inputs d k u V} {words out : List (Word d k u V)} {c r : ℕ}

/-- What is passed on is committed; while all frames fit, nothing else is. -/
structure Passing (s : State p d k V) (words : List (Word d k u V)) (c : ℕ) : Prop where
  keeping : s.dropFrame = false
  unmarked : s.markFrame = false
  passed : (passed p words).length ≤ c
  waits : p.frameFifo = true → Fit p words → c = (complete words).length ∧ s.sendFrame = false

theorem Lossless.bad (hp : Lossless p) : p.dropBadFrame = false := by
  by_contra h
  have hboth := p.bad_oversize (Bool.eq_true_of_not_eq_false h)
  exact Bool.false_ne_true (hp.oversize.symm.trans hboth.2)

theorem Lossless.whenFull (hp : Lossless p) : p.dropWhenFull = false := by
  by_contra h
  have hboth := p.full_oversize (Bool.eq_true_of_not_eq_false h)
  exact Bool.false_ne_true (hp.oversize.symm.trans hboth.2)

theorem Lossless.not_drops (hp : Lossless p) (h : s.dropFrame = false) : ¬Drops s := by
  simp [Drops, hp.oversize, hp.whenFull, h]

theorem Lossless.not_bad (hp : Lossless p) : ¬Bad p i := by
  simp [Bad, hp.bad]

/-- Without a mark, the word that is written is the beat. -/
theorem sAxis_eq (h : s.markFrame = false) : sAxis s i = i.sAxis := by
  rw [sAxis, h, Bool.or_false, if_neg Bool.false_ne_true]

theorem complete_concat (words : List (Word d k u V)) (w : Word d k u V) :
    complete (words ++ [w]) = if w.tlast then words ++ [w] else complete words := by
  rw [complete, List.rdropWhile_concat]
  cases w.tlast <;> rfl

theorem passed_prefix_words (words : List (Word d k u V)) : passed p words <+: words := by
  rw [passed]
  split
  · exact List.rdropWhile_prefix _ _
  · exact List.prefix_rfl

theorem length_passed_le (words : List (Word d k u V)) : (passed p words).length ≤ words.length :=
  (passed_prefix_words words).length_le

theorem Fit.of_concat {w : Word d k u V} (h : Fit p (words ++ [w])) : Fit p words :=
  fun pre hpre => h pre (hpre.trans (List.prefix_append _ _))

/-- The memory is not full of one frame while all frames fit. -/
theorem Passing.not_fullWr (h : Passing s words c) (hstored : Stored s words c r)
    (hmode : p.frameFifo = true) (hfit : Fit p words) : ¬fullWr s = true := by
  intro hfull
  have hless := hfit words List.prefix_rfl
  rw [hstored.fullWr_iff] at hfull
  rw [(h.waits hmode hfit).1] at hfull
  omega

theorem passed_concat_of_not_last (hmode : p.frameFifo = true) (hlast : i.sAxis.tlast = false) :
    complete (words ++ [i.sAxis]) = complete words ∧ passed p (words ++ [i.sAxis]) = passed p words := by
  have hsame : complete (words ++ [i.sAxis]) = complete words := by
    rw [complete_concat, hlast, if_neg Bool.false_ne_true]
  exact ⟨hsame, by rw [passed, passed, if_pos hmode, if_pos hmode, hsame]⟩

theorem frameWrite_passing (hp : Lossless p) (hmode : p.frameFifo = true) (h : Passing s words c)
    (hstored : Stored s words c r) {s' : State p d k V} (hw : FrameWrite s i s') :
    ∃ c', Stored s' (words ++ acceptedAt s i) c' r ∧ c ≤ c' ∧ Passing s' (words ++ acceptedAt s i) c' := by
  have hword : sAxis s i = i.sAxis := sAxis_eq h.unmarked
  cases hw with
  | dropped _ hdrops | dropping _ hdrops => exact absurd hdrops (hp.not_drops h.keeping)
  | bad _ _ hbad => exact absurd hbad hp.not_bad
  | committed haccepts hstores hcommits =>
      have hall := hstored.pushedCommitted i (not_full hmode haccepts hstores)
      rw [hword] at hall
      rw [acceptedAt, if_pos haccepts]
      refine ⟨_, hall.congr rfl rfl rfl rfl, hstored.commit_le.trans (Nat.le_succ _), h.keeping,
        h.unmarked, ?_, fun _ hfit => ?_⟩
      · have hle := length_passed_le (p := p) (words ++ [i.sAxis])
        rwa [List.length_append, List.length_singleton] at hle
      · have hlast : i.sAxis.tlast = true := by
          obtain hlast | ⟨-, hfull | hsend⟩ := hcommits
          · exact hlast
          · exact absurd hfull (h.not_fullWr hstored hmode hfit.of_concat)
          · exact absurd ((h.waits hmode hfit.of_concat).2.symm.trans hsend) Bool.false_ne_true
        refine ⟨?_, by simp [hlast]⟩
        rw [complete_concat, if_pos hlast, List.length_append, List.length_singleton]
  | stored haccepts hstores hopen =>
      have hlast : i.sAxis.tlast = false := Bool.eq_false_iff.mpr fun hlast => hopen (Or.inl hlast)
      obtain ⟨hcomplete, hpassed⟩ : complete (words ++ [i.sAxis]) = complete words ∧ _ :=
        passed_concat_of_not_last hmode hlast
      have hpushed := hstored.pushed i (not_full hmode haccepts hstores)
      rw [hword] at hpushed
      rw [acceptedAt, if_pos haccepts]
      refine ⟨c, hpushed, Nat.le_refl c, h.keeping, h.unmarked, hpassed ▸ h.passed, fun _ hfit => ?_⟩
      rw [hcomplete]
      exact h.waits hmode hfit.of_concat
  | released hidle _ hfull =>
      rw [acceptedAt, if_neg (Bool.eq_false_iff.mp hidle), List.append_nil]
      refine ⟨_, (hstored.quieted i).committed.congr rfl rfl rfl rfl, hstored.commit_le, h.keeping,
        h.unmarked, length_passed_le words, fun _ hfit => ?_⟩
      exact absurd hfull (h.not_fullWr hstored hmode hfit)
  | idle hidle =>
      rw [acceptedAt, if_neg (Bool.eq_false_iff.mp hidle), List.append_nil]
      exact ⟨c, hstored.quieted i, Nat.le_refl c, h.keeping, h.unmarked, h.passed, h.waits⟩

theorem normalWrite_passing (hp : Lossless p) (hmode : p.frameFifo = false) (h : Passing s words c)
    (hstored : Stored s words c r) {s' : State p d k V} (hw : NormalWrite s i s') :
    ∃ c', Stored s' (words ++ acceptedAt s i) c' r ∧ c ≤ c' ∧ Passing s' (words ++ acceptedAt s i) c' := by
  have hno : ¬p.markWhenFull = true := Bool.eq_false_iff.mp hp.mark
  have hwaits {P : Prop} (hframe : p.frameFifo = true) : P :=
    absurd (hmode.symm.trans hframe) Bool.false_ne_true
  cases hw with
  | skipped _ hmark | skippedLast _ hmark | skippedMarked _ hmark | cut _ hmark | marked _ hmark =>
      exact absurd hmark hno
  | stored haccepts _ hroom =>
      have hall := hstored.pushedCommitted i hroom
      rw [sAxis_eq h.unmarked] at hall
      rw [acceptedAt, if_pos haccepts]
      refine ⟨_, hall, hstored.commit_le.trans (Nat.le_succ _), h.keeping, h.unmarked, ?_,
        fun hframe => hwaits hframe⟩
      have hle := length_passed_le (p := p) (words ++ [i.sAxis])
      rwa [List.length_append, List.length_singleton] at hle
  | idle hidle =>
      rw [acceptedAt, if_neg (Bool.eq_false_iff.mp hidle), List.append_nil]
      exact ⟨c, hstored.quieted i, Nat.le_refl c, h.keeping, h.unmarked, h.passed,
        fun hframe => hwaits hframe⟩

theorem write_passing (hp : Lossless p) (h : Passing s words c) (hstored : Stored s words c r) :
    ∃ c', Stored (write s i) (words ++ acceptedAt s i) c' r ∧ c ≤ c' ∧
      Passing (write s i) (words ++ acceptedAt s i) c' := by
  rw [write]
  split
  next hmode => exact frameWrite_passing hp hmode h hstored (frameWrite s i)
  next hmode =>
    have hnormal := Bool.eq_false_iff.mpr hmode
    exact normalWrite_passing hp hnormal h hstored (normalWrite s i hnormal)

/-- The ledgers of what was accepted and what was taken. -/
def Ledger (s : State p d k V) (words out : List (Word d k u V)) : Prop :=
  ∃ c, Passing s words c ∧ Book s words c out

theorem Ledger.next (hp : Lossless p) (h : Ledger s words out) (hr : i.rst = false) :
    Ledger (step s i) (words ++ acceptedAt s i) (out ++ takenAt s i) := by
  obtain ⟨c, hpassing, r, hstored, hout⟩ := h
  obtain ⟨c', hwrite, hc, hnext⟩ := write_passing (i := i) hp hpassing hstored
  refine ⟨c', ?_, hstored.read hout hr hwrite hc ((List.take_prefix c words).trans (List.prefix_append _ _))⟩
  rw [step_eq hr]
  exact ⟨hnext.keeping, hnext.unmarked, hnext.passed, hnext.waits⟩

theorem ledger_reset (hr : i.rst = true) : Ledger (step s i) [] [] := by
  refine ⟨0, ?_, book_reset hr⟩
  rw [step, if_pos hr]
  refine ⟨rfl, rfl, ?_, fun _ _ => ⟨rfl, rfl⟩⟩
  rw [passed]
  split <;> exact Nat.le_refl 0

/-- What was taken and what can be read is what was committed. -/
theorem Book.readable_eq {c : ℕ} (h : Book s words c out) : out ++ readable s = words.take c := by
  obtain ⟨r, hstored, hout⟩ := h
  rw [readable, ← List.append_assoc, hout, hstored.window_eq]
  have htake : words.take r = (words.take c).take r := by
    rw [List.take_take, Nat.min_eq_left hstored.read_le]
  rw [htake, List.take_append_drop]

/-- In normal mode, everything that was accepted can be read. -/
theorem Ledger.readable_eq (h : Ledger s words out) (hmode : p.frameFifo = false) :
    out ++ readable s = words := by
  obtain ⟨c, hpassing, hbook⟩ := h
  have hall : words.length ≤ c := by
    have hpassed := hpassing.passed
    rwa [passed, if_neg (Bool.eq_false_iff.mp hmode)] at hpassed
  rw [hbook.readable_eq, List.take_of_length_le hall]

/-- In normal mode, a beat that is accepted goes behind what can be read. -/
theorem Ledger.readable_step (h : Ledger s words out) (hp : Lossless p) (hmode : p.frameFifo = false)
    (hr : i.rst = false) : takenAt s i ++ readable (step s i) = readable s ++ acceptedAt s i := by
  have hafter := (h.next hp hr).readable_eq hmode
  rw [← h.readable_eq hmode, List.append_assoc, List.append_assoc] at hafter
  exact List.append_cancel_left hafter

end Edges

/-! ## Runs -/

section Runs

variable {s : State p d k V} {is : List (Inputs d k u V)} {words out : List (Word d k u V)}

/-- What has been taken is a prefix of what was committed. -/
theorem Book.prefix_take {c : ℕ} (h : Book s words c out) : out <+: words.take c := by
  obtain ⟨r, hstored, hout⟩ := h
  have hfront : out <+: words.take r := ⟨_, hout⟩
  exact hfront.trans (List.take_prefix_take_left hstored.read_le)

theorem Book.length_le {c : ℕ} (h : Book s words c out) :
    words.length ≤ out.length + (2 ^ p.addrWidth + p.ramPipeline + 1) := by
  obtain ⟨r, hstored, hout⟩ := h
  have hlen := hstored.length_le
  have hread := hstored.read_le.trans hstored.commit_le
  have hpipe := length_contents_le s.pipe.1
  have hsum := congrArg List.length hout
  rw [List.length_append, List.length_take] at hsum
  rw [s.pipe.2] at hpipe
  omega

theorem ledger_run (hp : Lossless p) (s₀ : State p d k V) {r : Inputs d k u V} (hr : r.rst = true)
    (hi : ∀ i ∈ is, i.rst = false) :
    Ledger (run step (step s₀ r) is) (accepted (step s₀ r) is) (taken (step s₀ r) is) :=
  run_ledger Ledger (fun _ _ _ _ h hr => h.next hp hr) (ledger_reset hr) (along_of_inputs step _ hi)

end Runs

/-- Four words in frame mode, with one register behind the memory; frames are not dropped. -/
def fourWords : Params 1 where
  addrWidth := 2
  ramPipeline := 1
  keepEnable := false
  lastEnable := true
  userEnable := false
  frameFifo := true
  userBadFrameValue := 0#1
  userBadFrameMask := 0#1
  dropOversizeFrame := false
  dropBadFrame := false
  dropWhenFull := false
  markWhenFull := false
  frame_last := fun _ => rfl
  oversize_frame := fun _ => rfl
  bad_oversize := fun h => absurd h Bool.false_ne_true
  full_oversize := fun h => absurd h Bool.false_ne_true
  mask_pos := fun h => h.elim (absurd · Bool.false_ne_true) (absurd · Bool.false_ne_true)
  mark_frame := fun h => absurd h Bool.false_ne_true
  mark_last := fun _ => rfl

def cycleInputs (rst valid last : Bool) (data : BitVec 8) : Inputs 8 1 1 Unit :=
  ⟨rst, ⟨data, 1, last, ((), 0)⟩, valid, true⟩

/-- A frame of two beats with a pause in it. -/
def pausedFrame : List (Inputs 8 1 1 Unit) :=
  [cycleInputs false true false 0x10, cycleInputs false false false 0, cycleInputs false true true 0x11,
    cycleInputs false true false 0x12, cycleInputs false false false 0, cycleInputs false false false 0,
    cycleInputs false false false 0]

end MiscVerilogCores.AxisFifo
