import MiscVerilogCores.Library.Clocked
import MiscVerilogCores.Verification.AxisFifo.Pipeline

/-! # The memory and its pointers

The words that were written, of which the first `c` are committed and the first `r` have been read, with
one lemma for what each operation does to them. -/

namespace MiscVerilogCores.AxisFifo

open Clocked RingMemory

/-! ## Pointers that are a lap apart -/

section Laps

variable {u : ℕ} {p : Params u}

theorem slot_xor_twoPow (y : BitVec (p.addrWidth + 1)) :
    slot (y ^^^ BitVec.twoPow _ p.addrWidth) = slot y := by
  refine BitVec.eq_of_getLsbD_eq fun j hj => ?_
  simp [slot, BitVec.getLsbD_twoPow, hj, Nat.ne_of_gt hj]

theorem msb_xor_twoPow (y : BitVec (p.addrWidth + 1)) :
    (y ^^^ BitVec.twoPow _ p.addrWidth).msb = !y.msb := by
  simp [BitVec.msb_xor, BitVec.msb_twoPow]

theorem lapped_iff {r w : ℕ} (hrw : r ≤ w) (hw : w ≤ r + 2 ^ p.addrWidth) :
    lapped (p := p) (ptr _ w) (ptr _ r) = true ↔ w = r + 2 ^ p.addrWidth := by
  rw [← slot_eq_and_msb_ne_iff hrw hw, lapped, beq_iff_eq, ← slot_eq_and_msb_eq, slot_xor_twoPow,
    msb_xor_twoPow, Bool.eq_not]

end Laps

/-! ## What is stored -/

variable {u d k : ℕ} {V : Type} {p : Params u}

/-- The words are in the memory from the first one that has not been read on. -/
structure Stored (s : State p d k V) (words : List (Word d k u V)) (c r : ℕ) : Prop where
  wrPtr_eq : s.wrPtr = ptr _ words.length
  commit_eq : s.wrPtrCommit = ptr _ c
  rdPtr_eq : s.rdPtr = ptr _ r
  holds : Holds s.mem words r
  read_le : r ≤ c
  commit_le : c ≤ words.length

namespace Stored

variable {s : State p d k V} {i : Inputs d k u V} {words : List (Word d k u V)} {c r : ℕ}

theorem length_le (h : Stored s words c r) : words.length ≤ r + 2 ^ p.addrWidth := h.holds.1

theorem full_iff (h : Stored s words c r) : full s = true ↔ words.length = r + 2 ^ p.addrWidth := by
  rw [full, h.wrPtr_eq, h.rdPtr_eq, lapped_iff (h.read_le.trans h.commit_le) h.length_le]

theorem fullWr_iff (h : Stored s words c r) :
    fullWr s = true ↔ words.length = c + 2 ^ p.addrWidth := by
  have hle := h.length_le
  have hread := h.read_le
  rw [fullWr, h.wrPtr_eq, h.commit_eq, lapped_iff h.commit_le (by omega)]

theorem empty_iff (h : Stored s words c r) : empty s = true ↔ c = r := by
  have hle := h.length_le
  have hcommit := h.commit_le
  rw [empty, h.commit_eq, h.rdPtr_eq, beq_iff_eq, ptr_eq_iff h.read_le (by omega)]

/-- The memory can be full of one frame only if everything before it has been read. -/
theorem full_of_fullWr (h : Stored s words c r) (hfull : fullWr s = true) : full s = true := by
  rw [h.fullWr_iff] at hfull
  have hle := h.length_le
  have hread := h.read_le
  rw [h.full_iff]
  omega

/-- Only the pointers and the memory matter. -/
theorem congr {s' : State p d k V} (h : Stored s words c r) (hwr : s'.wrPtr = s.wrPtr)
    (hcommit : s'.wrPtrCommit = s.wrPtrCommit) (hrd : s'.rdPtr = s.rdPtr) (hmem : s'.mem = s.mem) :
    Stored s' words c r :=
  ⟨hwr.trans h.wrPtr_eq, hcommit.trans h.commit_eq, hrd.trans h.rdPtr_eq, hmem ▸ h.holds, h.read_le,
    h.commit_le⟩

theorem push (h : Stored s words c r) (hroom : full s = false) :
    Stored (store s i) (words ++ [sAxis s i]) c r := by
  have hlt : words.length < r + 2 ^ p.addrWidth := by
    refine lt_of_le_of_ne h.length_le fun heq => ?_
    rw [h.full_iff.mpr heq] at hroom
    exact Bool.false_ne_true hroom.symm
  refine ⟨?_, h.commit_eq, h.rdPtr_eq, ?_, h.read_le, ?_⟩
  · show s.wrPtr + 1 = _
    rw [h.wrPtr_eq, List.length_append]
    exact ptr_add_one _
  · show Holds (Function.update s.mem (slot s.wrPtr) (sAxis s i)) _ _
    rw [h.wrPtr_eq]
    exact h.holds.store _ (Nat.le_refl r) hlt
  · rw [List.length_append]
    exact h.commit_le.trans (Nat.le_add_right _ _)

theorem committed (h : Stored s words c r) : Stored (commit s) words words.length r :=
  ⟨h.wrPtr_eq, h.wrPtr_eq, h.rdPtr_eq, h.holds, h.read_le.trans h.commit_le, Nat.le_refl _⟩

theorem rolledBack (h : Stored s words c r) : Stored (rollback s) (words.take c) c r := by
  have hlen : (words.take c).length = c := by rw [List.length_take, Nat.min_eq_left h.commit_le]
  exact ⟨h.commit_eq.trans (congrArg _ hlen.symm), h.commit_eq, h.rdPtr_eq, h.holds.take c, h.read_le, hlen.ge⟩

/-- Pushing and forgetting it again. -/
theorem take_push (h : Stored s words c r) (w : Word d k u V) : (words ++ [w]).take c = words.take c :=
  List.take_append_of_le_length h.commit_le

end Stored

/-! ## Reading -/

/-- The word that is taken from the output. -/
def takenAt (s : State p d k V) (i : Inputs d k u V) : List (Word d k u V) :=
  if mAxisTvalid s && i.mAxisTready then [(top s).data] else []

/-- The words that are taken from the output. -/
def taken (s : State p d k V) (is : List (Inputs d k u V)) : List (Word d k u V) :=
  emitted step takenAt s is

/-- The beats that are accepted. -/
def acceptedAt (s : State p d k V) (i : Inputs d k u V) : List (Word d k u V) :=
  if accepts s i then [i.sAxis] else []

def accepted (s : State p d k V) (is : List (Inputs d k u V)) : List (Word d k u V) :=
  emitted step acceptedAt s is

/-- The beats that are delivered. -/
def delivered (s : State p d k V) (is : List (Inputs d k u V)) : List (Word d k u V) :=
  emitted step (fun s i => if mAxisTvalid s && i.mAxisTready then [mAxis s] else []) s is

theorem delivered_eq (s : State p d k V) (is : List (Inputs d k u V)) :
    delivered s is = (taken s is).map (visible p) := by
  induction is generalizing s with
  | nil => rfl
  | cons i is ih =>
      rw [delivered, taken, emitted_cons, emitted_cons, List.map_append, ← taken, ← ih, takenAt]
      cases mAxisTvalid s && i.mAxisTready <;> rfl

/-- What was read is what was taken, and what the pipeline holds. -/
def Book (s : State p d k V) (words : List (Word d k u V)) (c : ℕ) (out : List (Word d k u V)) : Prop :=
  ∃ r, Stored s words c r ∧ out ++ contents s.pipe.1 = words.take r

section Reading

variable {s : State p d k V} {i : Inputs d k u V} {words words' out : List (Word d k u V)} {c c' r : ℕ}

theorem pipe_eq (s : State p d k V) : s.pipe.1 = top s :: s.pipe.1.tail :=
  (List.cons_head_tail _).symm

theorem step_pipe (hr : i.rst = false) :
    (step s i).pipe.1 = advance i.mAxisTready s.pipe.1 ⟨!empty s, s.mem (slot s.rdPtr)⟩ := by
  rw [step, if_neg (Bool.eq_false_iff.mp hr)]

theorem takenAt_eq (s : State p d k V) (i : Inputs d k u V) :
    takenAt s i = if i.mAxisTready then (top s).item.toList else [] := by
  cases hvalid : (top s).valid <;> cases hready : i.mAxisTready <;>
    simp [takenAt, mAxisTvalid, Stage.item, hvalid, hready]

theorem contents_step (hr : i.rst = false) :
    contents s.pipe.1 ++ (if fetches s i then [s.mem (slot s.rdPtr)] else []) =
      takenAt s i ++ contents (step s i).pipe.1 := by
  let new : Stage (Word d k u V) := ⟨!empty s, s.mem (slot s.rdPtr)⟩
  have hall : contents s.pipe.1 ++ (if loads s i then new.item.toList else []) =
      (if i.mAxisTready then (top s).item.toList else []) ++ contents (step s i).pipe.1 := by
    rw [step_pipe hr, loads, pipe_eq s]
    exact contents_advance i.mAxisTready (top s)
  have hnew : (if fetches s i then [s.mem (slot s.rdPtr)] else []) =
      if loads s i then new.item.toList else [] := by
    cases hloads : loads s i <;> cases hempty : empty s <;>
      simp [fetches, new, Stage.item, hloads, hempty]
  rw [hnew, hall, takenAt_eq]

theorem step_eq (hr : i.rst = false) : step s i = { write s i with
    rdPtr := if fetches s i then s.rdPtr + 1 else s.rdPtr
    pipe := (step s i).pipe
    depth := s.wrPtr - s.rdPtr
    depthCommit := s.wrPtrCommit - s.rdPtr } := by
  rw [step, if_neg (Bool.eq_false_iff.mp hr)]

theorem Stored.lt_of_fetches (h : Stored s words c r) (hfetch : fetches s i = true) : r < c := by
  rw [fetches, Bool.and_eq_true, Bool.not_eq_true'] at hfetch
  refine lt_of_le_of_ne h.read_le fun heq => ?_
  exact Bool.false_ne_true (hfetch.2.symm.trans (h.empty_iff.mpr heq.symm))

theorem Stored.mem_rdPtr (h : Stored s words c r) (hlen : r < words.length) :
    s.mem (slot s.rdPtr) = words[r] := by
  rw [h.rdPtr_eq]
  exact h.holds.read (Nat.le_refl r) hlen

/-- The read side goes on with what is committed, whatever is written. -/
theorem Stored.next (h : Stored s words c r) (hr : i.rst = false)
    (hwrite : Stored (write s i) words' c' r) (hc : c ≤ c') :
    Stored (step s i) words' c' (if fetches s i then r + 1 else r) := by
  rw [step_eq hr]
  cases hfetch : fetches s i with
  | true =>
      refine ⟨hwrite.wrPtr_eq, hwrite.commit_eq, ?_, hwrite.holds.mono (Nat.le_succ r),
        (h.lt_of_fetches hfetch).trans_le hc, hwrite.commit_le⟩
      show s.rdPtr + 1 = _
      rw [h.rdPtr_eq]
      exact ptr_add_one _
  | false =>
      exact ⟨hwrite.wrPtr_eq, hwrite.commit_eq, h.rdPtr_eq, hwrite.holds, hwrite.read_le,
        hwrite.commit_le⟩

theorem Stored.take_eq (h : Stored s words c r) (hkeep : words.take c <+: words') {m : ℕ}
    (hm : m ≤ c) : words'.take m = words.take m := by
  have hlen : (words.take c).length = c := by rw [List.length_take, Nat.min_eq_left h.commit_le]
  have hsame : words'.take c = words.take c := by
    rw [List.prefix_iff_eq_take.mp hkeep, hlen]
  calc words'.take m = (words'.take c).take m := by rw [List.take_take, Nat.min_eq_left hm]
    _ = words.take m := by rw [hsame, List.take_take, Nat.min_eq_left hm]

theorem Stored.read (h : Stored s words c r) (hout : out ++ contents s.pipe.1 = words.take r)
    (hr : i.rst = false) (hwrite : Stored (write s i) words' c' r) (hc : c ≤ c')
    (hkeep : words.take c <+: words') : Book (step s i) words' c' (out ++ takenAt s i) := by
  refine ⟨_, h.next hr hwrite hc, ?_⟩
  rw [List.append_assoc, ← contents_step hr, ← List.append_assoc, hout]
  cases hfetch : fetches s i with
  | true =>
      have hlt := h.lt_of_fetches hfetch
      have hlen : r < words.length := hlt.trans_le h.commit_le
      rw [if_pos rfl, if_pos rfl, h.mem_rdPtr hlen, h.take_eq hkeep hlt]
      exact (List.take_succ_eq_append_getElem hlen).symm
  | false =>
      rw [if_neg Bool.false_ne_true, if_neg Bool.false_ne_true, List.append_nil,
        h.take_eq hkeep h.read_le]

/-- A beat that is offered and not taken is offered again. -/
def Held (s : State p d k V) (i : Inputs d k u V) : Prop :=
  mAxisTvalid s = true → i.mAxisTready = false →
    mAxisTvalid (step s i) = true ∧ mAxis (step s i) = mAxis s

theorem held (hr : i.rst = false) : Held s i := by
  intro hvalid hready
  have htop : top (step s i) = top s := by
    have hpipe := step_pipe (s := s) hr
    rw [hready, pipe_eq s, pipe_eq (step s i), advance, Bool.false_or,
      show (top s).valid = true from hvalid, Bool.not_true, if_neg Bool.false_ne_true] at hpipe
    exact (List.cons.inj hpipe).1
  rw [mAxisTvalid, mAxis, htop]
  exact ⟨hvalid, rfl⟩

theorem stored_reset (hr : i.rst = true) : Stored (step s i) [] 0 0 := by
  rw [step, if_pos hr]
  exact ⟨rfl, rfl, rfl, holds_nil _ 0, Nat.le_refl 0, Nat.le_refl 0⟩

theorem contents_reset (hr : i.rst = true) : contents (step s i).pipe.1 = [] := by
  rw [step, if_pos hr]
  show contents (List.map _ _) = []
  rw [contents, List.filterMap_map]
  exact List.filterMap_eq_nil_iff.mpr fun _ _ => rfl

theorem book_reset (hr : i.rst = true) : Book (step s i) [] 0 [] :=
  ⟨0, stored_reset hr, by rw [contents_reset hr]; rfl⟩

end Reading

end MiscVerilogCores.AxisFifo
