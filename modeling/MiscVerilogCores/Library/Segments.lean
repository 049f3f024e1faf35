import Mathlib.Data.BitVec
import Mathlib.Data.List.Induction

/-! # Segments of a word

A wide word is made of segments of `w` bits, the lowest first. A stream of items in which some end a
frame is cut into groups of at most `n` items. -/

namespace MiscVerilogCores.Segments

variable {v w : ℕ}

/-! ## Words -/

def segment (w : ℕ) (x : BitVec v) (k : ℕ) : BitVec w := x.extractLsb' (k * w) w

/-- The word with one segment replaced. -/
def setSegment (x : BitVec v) (k : ℕ) (y : BitVec w) : BitVec v :=
  (x &&& ~~~((BitVec.allOnes w).setWidth v <<< (k * w))) ||| (y.setWidth v <<< (k * w))

theorem getLsbD_segment (x : BitVec v) (k i : ℕ) :
    (segment w x k).getLsbD i = (decide (i < w) && x.getLsbD (k * w + i)) := by
  simp [segment, BitVec.getLsbD_extractLsb']

theorem getLsbD_setSegment (x : BitVec v) (k : ℕ) (y : BitVec w) {i : ℕ} (hi : i < v) :
    (setSegment x k y).getLsbD i =
      if k * w ≤ i ∧ i < k * w + w then y.getLsbD (i - k * w) else x.getLsbD i := by
  simp only [setSegment, BitVec.getLsbD_or, BitVec.getLsbD_and, BitVec.getLsbD_not,
    BitVec.getLsbD_shiftLeft, BitVec.getLsbD_setWidth, BitVec.getLsbD_allOnes, hi, decide_true,
    Bool.true_and]
  by_cases hlow : i < k * w
  · have hnot : ¬(k * w ≤ i ∧ i < k * w + w) := by omega
    simp [hlow, hnot]
  · have hin : i - k * w < v := by omega
    by_cases hhigh : i - k * w < w
    · have hmem : k * w ≤ i ∧ i < k * w + w := by omega
      simp [hlow, hhigh, hmem, hin]
    · have hnot : ¬(k * w ≤ i ∧ i < k * w + w) := by omega
      have hzero : y.getLsbD (i - k * w) = false := BitVec.getLsbD_of_ge y _ (by omega)
      simp [hlow, hhigh, hnot, hzero]

/-- The segment that was replaced. -/
theorem segment_setSegment (x : BitVec v) {k : ℕ} (y : BitVec w) (hk : k * w + w ≤ v) :
    segment w (setSegment x k y) k = y := by
  refine BitVec.eq_of_getLsbD_eq fun i hi => ?_
  have hmem : k * w ≤ k * w + i ∧ k * w + i < k * w + w := by omega
  rw [getLsbD_segment, getLsbD_setSegment x k y (by omega), if_pos hmem]
  simp [hi]

/-- The other segments stay. -/
theorem segment_setSegment_of_ne (x : BitVec v) {j k : ℕ} (y : BitVec w) (hne : j ≠ k) :
    segment w (setSegment x k y) j = segment w x j := by
  refine BitVec.eq_of_getLsbD_eq fun i hi => ?_
  rw [getLsbD_segment, getLsbD_segment]
  by_cases hin : j * w + i < v
  · have hnot : ¬(k * w ≤ j * w + i ∧ j * w + i < k * w + w) := by
      rcases Nat.lt_or_gt_of_ne hne with hlt | hgt
      · have hmul : (j + 1) * w ≤ k * w := Nat.mul_le_mul_right w hlt
        rw [Nat.succ_mul] at hmul
        omega
      · have hmul : (k + 1) * w ≤ j * w := Nat.mul_le_mul_right w hgt
        rw [Nat.succ_mul] at hmul
        omega
    rw [getLsbD_setSegment x k y hin, if_neg hnot]
  · rw [BitVec.getLsbD_of_ge _ _ (by omega), BitVec.getLsbD_of_ge _ _ (by omega)]

/-- A shift by a segment moves every segment down. -/
theorem segment_shiftRight (x : BitVec v) (k : ℕ) :
    segment w (x >>> w) k = segment w x (k + 1) := by
  refine BitVec.eq_of_getLsbD_eq fun i hi => ?_
  rw [getLsbD_segment, getLsbD_segment, BitVec.getLsbD_ushiftRight, Nat.succ_mul]
  congr 2
  omega

/-- Of a narrow word that is made wide, the lowest segment is the word itself. -/
theorem segment_setWidth_zero (y : BitVec w) (hv : w ≤ v) : segment w (y.setWidth v) 0 = y := by
  refine BitVec.eq_of_getLsbD_eq fun i hi => ?_
  have hin : i < v := by omega
  rw [getLsbD_segment, BitVec.getLsbD_setWidth, Nat.zero_mul, Nat.zero_add]
  simp only [hi, hin, decide_true, Bool.true_and]

theorem segment_setWidth_succ (y : BitVec w) (k : ℕ) : segment w (y.setWidth v) (k + 1) = 0 := by
  refine BitVec.eq_of_getLsbD_eq fun i hi => ?_
  have hge : w ≤ (k + 1) * w + i := by
    rw [Nat.succ_mul]
    omega
  rw [getLsbD_segment, BitVec.getLsbD_setWidth, BitVec.getLsbD_of_ge y _ hge]
  simp

/-- The narrow word at the bottom. -/
theorem setWidth_eq_segment (x : BitVec v) : x.setWidth w = segment w x 0 := by
  refine BitVec.eq_of_getLsbD_eq fun i hi => ?_
  rw [getLsbD_segment, BitVec.getLsbD_setWidth, Nat.zero_mul, Nat.zero_add]

/-- Nothing is left of a word if its segments from the second on are zero. -/
theorem shiftRight_eq_zero_iff (x : BitVec v) (hw : 0 < w) :
    x >>> w = 0 ↔ ∀ k, segment w x (k + 1) = 0 := by
  constructor
  · intro h k
    rw [← segment_shiftRight, h]
    refine BitVec.eq_of_getLsbD_eq fun i hi => ?_
    simp [getLsbD_segment]
  · intro h
    refine BitVec.eq_of_getLsbD_eq fun i hi => ?_
    have hbit := congrArg (fun y : BitVec w => y.getLsbD (i % w)) (h (i / w))
    have hplace : (i / w + 1) * w + i % w = w + i := by
      rw [Nat.succ_mul, Nat.mul_comm]
      have := Nat.div_add_mod i w
      omega
    simp only [getLsbD_segment, Nat.mod_lt i hw, decide_true, Bool.true_and, hplace] at hbit
    rw [BitVec.getLsbD_ushiftRight, hbit]
    simp

/-! ## Groups -/

section Groups

variable {α : Type*}

/-- The groups that are complete, and the items of the next one. -/
structure Groups (α : Type*) where
  done : List (List α)
  current : List α

variable (n : ℕ) (last : α → Bool)

/-- The next item fills the group, or ends the frame. -/
def Groups.push (g : Groups α) (x : α) : Groups α :=
  if last x || g.current.length + 1 == n then ⟨g.done ++ [g.current ++ [x]], []⟩
  else ⟨g.done, g.current ++ [x]⟩

def groups (xs : List α) : Groups α := xs.foldl (Groups.push n last) ⟨[], []⟩

@[simp] theorem groups_nil : groups n last [] = ⟨[], []⟩ := rfl

@[simp] theorem groups_concat (xs : List α) (x : α) :
    groups n last (xs ++ [x]) = (groups n last xs).push n last x := by
  simp [groups]

/-- A group has at most `n` items, and only its last one ends a frame. -/
structure IsGroup (g : List α) : Prop where
  nonempty : g ≠ []
  length : g.length ≤ n
  inner : ∀ x ∈ g.dropLast, last x = false

/-- The groups make up the stream. -/
structure Cuts (xs : List α) (g : Groups α) : Prop where
  flatten : g.done.flatten ++ g.current = xs
  done : ∀ group ∈ g.done, IsGroup n last group
  room : g.current.length < n
  inner : ∀ x ∈ g.current, last x = false

variable {n last}

theorem Cuts.push {xs : List α} {g : Groups α} (h : Cuts n last xs g) (x : α) :
    Cuts n last (xs ++ [x]) (g.push n last x) := by
  have hroom := h.room
  by_cases hfull : last x || g.current.length + 1 == n
  · rw [Groups.push, if_pos hfull]
    refine ⟨?_, fun group hgroup => ?_, Nat.zero_lt_of_lt hroom, by simp⟩
    · rw [← h.flatten]
      simp
    · rcases List.mem_append.mp hgroup with hgroup | hgroup
      · exact h.done group hgroup
      · rw [List.mem_singleton.mp hgroup]
        refine ⟨by simp, ?_, ?_⟩
        · rw [List.length_append, List.length_singleton]
          exact hroom
        · rw [List.dropLast_concat]
          exact h.inner
  · have hopen := hfull
    rw [Bool.or_eq_true, beq_iff_eq, not_or] at hopen
    rw [Groups.push, if_neg hfull]
    refine ⟨?_, h.done, ?_, fun y hy => ?_⟩
    · rw [← h.flatten, List.append_assoc]
    · rw [List.length_append, List.length_singleton]
      omega
    · rcases List.mem_append.mp hy with hy | hy
      · exact h.inner y hy
      · rw [List.mem_singleton.mp hy]
        exact Bool.eq_false_iff.mpr hopen.1

theorem cuts_groups (hn : 0 < n) (xs : List α) : Cuts n last xs (groups n last xs) := by
  induction xs using List.reverseRecOn with
  | nil => exact ⟨rfl, by simp, hn, by simp⟩
  | append_singleton xs x ih =>
      rw [groups_concat]
      exact ih.push x

end Groups

end MiscVerilogCores.Segments
