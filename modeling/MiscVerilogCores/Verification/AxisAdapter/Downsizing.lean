import MiscVerilogCores.Library.Clocked
import MiscVerilogCores.Model.AxisAdapter

/-! # Taking a wide word apart

A wide word is sent as its segments, up to the last one that has `tkeep` bits; a word without any is
sent as one beat. -/

namespace MiscVerilogCores.AxisAdapter.Downsize

open Clocked Segments

variable {n w k : ℕ} {U : Type}

/-- The first beats that a word is sent as, at most `m` of them. -/
def unpackTo : ℕ → Beat (n * w) (n * k) U → List (Beat w k U)
  | 0, _ => []
  | m + 1, b => lowest b :: if b.tkeep >>> k == 0 then [] else unpackTo m (shifted b)

/-- The beats that a word is sent as. -/
def unpack (b : Beat (n * w) (n * k) U) : List (Beat w k U) := unpackTo n b

/-- The words that are accepted on the wide port. -/
def accepted (s : State n w k U) (is : List (Inputs n w k U)) : List (Beat (n * w) (n * k) U) :=
  emitted step (fun s i => if i.sAxisTvalid && sAxisTready s then [i.sAxis] else []) s is

/-- The beats that are delivered on the narrow port. -/
def delivered (s : State n w k U) (is : List (Inputs n w k U)) : List (Beat w k U) :=
  emitted step (fun s i => if s.mAxisTvalid && i.mAxisTready then [s.mAxis] else []) s is

/-! ## The beats of a word -/

section Words

variable {b : Beat (n * w) (n * k) U}

/-- Enough is enough. -/
theorem unpackTo_succ (hk : 0 < k) {m : ℕ} (hm : 0 < m)
    (hrest : ∀ j, m ≤ j → segment k b.tkeep j = 0) : unpackTo (m + 1) b = unpackTo m b := by
  induction m generalizing b with
  | zero => exact absurd hm (Nat.lt_irrefl 0)
  | succ m ih =>
      show lowest b :: (if b.tkeep >>> k == 0 then [] else unpackTo (m + 1) (shifted b)) =
        lowest b :: if b.tkeep >>> k == 0 then [] else unpackTo m (shifted b)
      by_cases hzero : b.tkeep >>> k = 0
      · simp [hzero]
      · have hpos : 0 < m := by
          refine Nat.pos_of_ne_zero fun hm => hzero ?_
          rw [shiftRight_eq_zero_iff _ hk]
          exact fun j => hrest (j + 1) (by omega)
        have hnext : unpackTo (m + 1) (shifted b) = unpackTo m (shifted b) :=
          ih hpos fun j hj => by
            rw [show (shifted b).tkeep = b.tkeep >>> k from rfl, segment_shiftRight]
            exact hrest (j + 1) (by omega)
        rw [hnext]

/-- A word has no more than `n` segments. -/
theorem segment_of_le (x : BitVec (n * k)) {j : ℕ} (hj : n ≤ j) : segment k x j = 0 := by
  refine BitVec.eq_of_getLsbD_eq fun i hi => ?_
  have hmul : n * k ≤ j * k := Nat.mul_le_mul_right k hj
  rw [getLsbD_segment, BitVec.getLsbD_of_ge x _ (by omega)]
  simp

/-- A word is sent as its lowest segment, and what is left of it. -/
theorem unpack_eq (hn : 0 < n) (hk : 0 < k) (b : Beat (n * w) (n * k) U) :
    unpack b = lowest b :: if b.tkeep >>> k == 0 then [] else unpack (shifted b) := by
  obtain ⟨m, rfl⟩ : ∃ m, n = m + 1 := ⟨n - 1, by omega⟩
  by_cases hzero : b.tkeep >>> k = 0
  · simp [unpack, unpackTo, hzero]
  · have hseg (j : ℕ) (hj : m ≤ j) : segment k (shifted b).tkeep j = 0 := by
      rw [show (shifted b).tkeep = b.tkeep >>> k from rfl, segment_shiftRight]
      exact segment_of_le _ (Nat.succ_le_succ hj)
    have hpos : 0 < m := by
      refine Nat.pos_of_ne_zero fun hm => hzero ?_
      rw [shiftRight_eq_zero_iff _ hk]
      exact fun j => segment_of_le _ (by omega)
    rw [unpack, unpackTo, unpack, unpackTo_succ hk hpos hseg]

theorem length_unpackTo (m : ℕ) (b : Beat (n * w) (n * k) U) : (unpackTo m b).length ≤ m := by
  induction m generalizing b with
  | zero => exact Nat.le_refl 0
  | succ m ih =>
      rw [unpackTo, List.length_cons]
      split
      · exact Nat.succ_le_succ (Nat.zero_le m)
      · exact Nat.succ_le_succ (ih _)

end Words

/-! ## Edges -/

section Edges

variable {s : State n w k U} {i : Inputs n w k U}

/-- The beats that the registers hold. -/
def left (s : State n w k U) : List (Beat w k U) :=
  (if s.mAxisTvalid then [s.mAxis] else []) ++ if s.sAxisTvalid then unpack s.sAxis else []

/-- What an accepted word adds to the beats that are held, and what a delivered beat takes off. -/
theorem left_step (hn : 0 < n) (hk : 0 < k) (hr : i.rst = false) :
    left s ++ (if i.sAxisTvalid && sAxisTready s then unpack i.sAxis else []) =
      (if s.mAxisTvalid && i.mAxisTready then [s.mAxis] else []) ++ left (step s i) := by
  by_cases hfree : (!s.mAxisTvalid || i.mAxisTready) = true
  · have hgiven : (if s.mAxisTvalid then [s.mAxis] else []) =
        if s.mAxisTvalid && i.mAxisTready then [s.mAxis] else [] := by
      cases hm : s.mAxisTvalid <;> simp_all
    cases hs : s.sAxisTvalid with
    | true =>
        have hstep : step s i =
            ⟨shifted s.sAxis, s.sAxis.tkeep >>> k != 0, lowest s.sAxis, true⟩ := by
          simp [step, hr, hfree, hs]
        rw [hstep, left, left, hgiven, unpack_eq hn hk s.sAxis]
        by_cases hzero : s.sAxis.tkeep >>> k = 0 <;> simp [sAxisTready, hs, hzero]
    | false =>
        cases hi : i.sAxisTvalid with
        | true =>
            have hstep : step s i =
                ⟨shifted i.sAxis, i.sAxis.tkeep >>> k != 0, lowest i.sAxis, true⟩ := by
              simp [step, hr, hfree, hs, hi, sAxisTready]
            rw [hstep, left, left, hgiven, unpack_eq hn hk i.sAxis]
            by_cases hzero : i.sAxis.tkeep >>> k = 0 <;> simp [sAxisTready, hs, hzero]
        | false =>
            have hstep : step s i =
                { s with mAxis := { lowest i.sAxis with tlast := false }, mAxisTvalid := false } := by
              simp [step, hr, hfree, hs, hi]
            rw [hstep, left, left, hgiven]
            simp [hs]
  · rw [Bool.not_eq_true, Bool.or_eq_false_iff, Bool.not_eq_false'] at hfree
    obtain ⟨hm, hready⟩ := hfree
    by_cases hi : i.sAxisTvalid && sAxisTready s
    · have hs : s.sAxisTvalid = false := by
        rw [Bool.and_eq_true] at hi
        simpa [sAxisTready] using hi.2
      have hstep : step s i = { s with sAxis := i.sAxis, sAxisTvalid := true } := by
        simp [step, hr, hm, hready, hi]
      rw [hstep, left, left]
      simp [hm, hready, hs, hi]
    · have hstep : step s i = s := by
        simp [step, hr, hm, hready, hi]
      rw [hstep]
      simp [hready, hi]

end Edges

/-! ## Runs -/

/-- A beat that is offered and not taken is offered again. -/
def Held (s : State n w k U) (i : Inputs n w k U) : Prop :=
  s.mAxisTvalid = true → i.mAxisTready = false →
    (step s i).mAxisTvalid = true ∧ (step s i).mAxis = s.mAxis

/-- The words are delivered as their beats, in order; at most one beat and one word are under way. -/
structure Downsizes (s : State n w k U) (is : List (Inputs n w k U)) : Prop where
  beats : delivered s is <+: (accepted s is).flatMap unpack
  underway : ((accepted s is).flatMap unpack).length ≤ (delivered s is).length + (n + 1)
  held : Along step Held s is

theorem held {s : State n w k U} {i : Inputs n w k U} (hr : i.rst = false) : Held s i := by
  intro hm hready
  by_cases hi : i.sAxisTvalid && sAxisTready s
  · simp [step, hr, hm, hready, hi]
  · simp [step, hr, hm, hready, hi]

theorem length_left (s : State n w k U) : (left s).length ≤ n + 1 := by
  have hword := length_unpackTo n s.sAxis
  rw [left, List.length_append]
  cases s.mAxisTvalid <;> cases s.sAxisTvalid <;> simp [unpack] <;> omega

/-- What has been accepted is what has been delivered, and what the registers hold. -/
theorem conserved (s₀ : State n w k U) {r : Inputs n w k U} {is : List (Inputs n w k U)}
    (hn : 0 < n) (hk : 0 < k) (hr : r.rst = true) (hi : ∀ i ∈ is, i.rst = false) :
    (accepted (step s₀ r) is).flatMap unpack =
      delivered (step s₀ r) is ++ left (run step (step s₀ r) is) := by
  let Inv (s : State n w k U) (words : List (Beat (n * w) (n * k) U)) (beats : List (Beat w k U)) :=
    words.flatMap unpack = beats ++ left s
  have hstart : Inv (step s₀ r) [] [] := by simp [Inv, left, step, hr]
  refine run_ledger Inv (fun s i words beats h hr => ?_) hstart (along_of_inputs step _ hi)
  have htaken : (if i.sAxisTvalid && sAxisTready s then [i.sAxis] else []).flatMap unpack =
      if i.sAxisTvalid && sAxisTready s then unpack i.sAxis else [] := by
    split <;> simp
  calc (words ++ if i.sAxisTvalid && sAxisTready s then [i.sAxis] else []).flatMap unpack
      = beats ++ (left s ++ if i.sAxisTvalid && sAxisTready s then unpack i.sAxis else []) := by
        rw [List.flatMap_append, htaken, ← List.append_assoc]
        exact congrArg (· ++ _) h
    _ = _ := by rw [left_step hn hk hr, List.append_assoc]

/-- From reset, words are taken apart, however the ports are stalled. -/
theorem downsizes (s₀ : State n w k U) {r : Inputs n w k U} {is : List (Inputs n w k U)}
    (hn : 0 < n) (hk : 0 < k) (hr : r.rst = true) (hi : ∀ i ∈ is, i.rst = false) :
    Downsizes (step s₀ r) is := by
  have hall := conserved s₀ hn hk hr hi
  have hlen := length_left (run step (step s₀ r) is)
  refine ⟨⟨_, hall.symm⟩, ?_, (along_of_inputs step _ hi).mono fun _ _ hr => held hr⟩
  rw [hall, List.length_append]
  omega

/-- A cycle in which the other side is ready. -/
def cycleInputs (rst valid last : Bool) (keep : BitVec 2) (data : BitVec 16) :
    Inputs 2 8 1 Unit :=
  ⟨rst, ⟨data, keep, last, ()⟩, valid, true⟩

/-- A full word, and one with a single byte. -/
def twoWords : List (Inputs 2 8 1 Unit) :=
  [cycleInputs false true false 3 0x2211, cycleInputs false false false 0 0,
    cycleInputs false true true 1 0x2233, cycleInputs false false false 0 0,
    cycleInputs false false false 0 0]

theorem downsizes_three :
    let s : State 2 8 1 Unit := step default (cycleInputs true false false 0 0)
    delivered s twoWords = [⟨0x11, 1, false, ()⟩, ⟨0x22, 1, false, ()⟩, ⟨0x33, 1, true, ()⟩] ∧
      Downsizes s twoWords :=
  ⟨by decide, downsizes default (by decide) (by decide) rfl (by decide)⟩

end MiscVerilogCores.AxisAdapter.Downsize
