import Mathlib.Data.BitVec
import MiscVerilogCores.Library.Clocked
import MiscVerilogCores.Model.AxisChop

/-! # A transfer is chopped at its length

While `active_i` is high the words of a frame are passed on until there are as many of them as asked
for, or the frame has ended. The counter starts one below the length and is only looked at once
it has been lowered, so that it misses a length of one. -/

namespace MiscVerilogCores.AxisChop

open Clocked

variable {WIDTH LBITS : ℕ}

/-! ## What is to come out -/

section Specification

variable {α : Type*} (L : ℕ) (frame : List α)

/-- The words of a frame up to a length, with a flag on the last of them. -/
def chopped : List (Bool × α) :=
  (frame.take L).mapIdx fun k a => (k + 1 == min L frame.length, a)

@[simp] theorem length_chopped : (chopped L frame).length = min L frame.length := by
  simp [chopped]

variable {L frame} {k : ℕ} {a : α}

theorem chopped_getElem? (hk : k < min L frame.length) (ha : frame[k]? = some a) :
    (chopped L frame)[k]? = some (k + 1 == min L frame.length, a) := by
  have hget : (frame.take L)[k]? = some a := by rw [List.getElem?_take_of_lt (by omega), ha]
  simp [chopped, hget]

theorem take_chopped (hk : k < min L frame.length) (ha : frame[k]? = some a) :
    (chopped L frame).take (k + 1) =
      (chopped L frame).take k ++ [(k + 1 == min L frame.length, a)] := by
  rw [List.take_add_one, chopped_getElem? hk ha]
  rfl

/-- Only the last word is flagged. -/
theorem eq_of_flagged (h : (chopped L frame)[k]? = some (true, a)) :
    k + 1 = min L frame.length := by
  have hlt : k < (chopped L frame).length := (List.getElem?_eq_some_iff.mp h).1
  simp only [chopped, List.getElem?_mapIdx, Option.map_eq_some_iff, Prod.mk.injEq] at h
  obtain ⟨b, -, hflag, -⟩ := h
  simpa using hflag

end Specification

/-! ## The books -/

/-- The words taken and delivered since `active_i` was raised; whether the source waits with a word;
and how often the destination was ready while a word was offered, or none was wanted. -/
structure Ledger (WIDTH : ℕ) where
  taken : List (BitVec WIDTH)
  given : List (Bool × BitVec WIDTH)
  waiting : Bool
  ticks : ℕ

namespace Ledger

def empty : Ledger WIDTH := ⟨[], [], false, 0⟩

def watch (wanted : ℕ) (m : Ledger WIDTH) (s : State WIDTH LBITS) (i : Inputs WIDTH LBITS) :
    Ledger WIDTH where
  taken := m.taken ++ accepted s i
  given := m.given ++ delivered s i
  waiting := i.sTvalid && !s.sready
  ticks := m.ticks + (i.mTready && (i.sTvalid || decide (wanted ≤ m.taken.length))).toNat

end Ledger

/-- While `active_i` is high, the next word of the frame is offered, and offered again until it is
taken. -/
structure Offers (frame : List (BitVec WIDTH)) (m : Ledger WIDTH) (i : Inputs WIDTH LBITS) : Prop where
  reset : i.reset = false
  active : i.activeI = true
  word : i.sTvalid = true → m.taken.length < frame.length →
    frame[m.taken.length]? = some i.sTdata ∧
      i.sTlast = decide (m.taken.length + 1 = frame.length)
  hold : m.waiting = true → i.sTvalid = true

/-- As many words as asked for are taken and delivered, or those of the frame, and then no more;
and they are once the destination has been ready often enough. -/
structure Chops (L : ℕ) (frame : List (BitVec WIDTH)) (s : State WIDTH LBITS) (m : Ledger WIDTH) :
    Prop where
  taken : m.taken <+: frame.take L
  given : m.given <+: chopped L frame
  stops : m.taken = frame.take L → finalO s = true ∧ sTready s = false
  done : 3 * min L frame.length + 2 ≤ m.ticks →
    m.taken = frame.take L ∧ m.given = chopped L frame

/-! ## The invariant -/

/-- The words in the two registers, oldest first. -/
def contents (s : State WIDTH LBITS) : List (Bool × BitVec WIDTH) :=
  (if s.mvalid then [(s.mlast, s.mdata)] else []) ++ if s.tvalid then [(s.tlast, s.tdata)] else []

/-- The word that goes into them, with its flag. -/
def pushed (s : State WIDTH LBITS) (i : Inputs WIDTH LBITS) : List (Bool × BitVec WIDTH) :=
  if i.sTvalid && s.sready then [(tlastW s i, i.sTdata)] else []

/-- Where the chopper is in a frame of `n` words, after `k` of them. -/
inductive Stage (L n k : ℕ) (s : State WIDTH LBITS) : Prop
  | starting (frame : s.frameQ = false) (active : s.activeQ = false) (ready : s.sready = false)
      (final : s.finalQ = false) (count : k = 0) (remain : s.remainQ = BitVec.ofNat LBITS (L - 1))
  | running (frame : s.frameQ = true) (active : s.activeQ = true) (count : k < min L n)
      (remain : s.finalQ = false →
        s.remainQ = BitVec.ofNat LBITS (L - 1 - k) ∧ (k + 1 < L ∨ k + 1 = n))
      (final : s.finalQ = true → k + 1 = L)
  | done (frame : s.frameQ = false) (active : s.activeQ = true) (ready : s.sready = false)
      (final : s.finalQ = true) (count : k = min L n)

/-- The edges that are still needed, at most. -/
def rank (L n : ℕ) (s : State WIDTH LBITS) (m : Ledger WIDTH) : ℕ :=
  3 * (min L n - m.taken.length) + (contents s).length +
    if s.activeQ then (s.frameQ && !(s.sready && m.waiting)).toNat else 2

structure Chopping (L : ℕ) (frame : List (BitVec WIDTH)) (s : State WIDTH LBITS) (m : Ledger WIDTH) :
    Prop where
  stage : Stage L frame.length m.taken.length s
  taken : m.taken = frame.take m.taken.length
  given : m.given ++ contents s = (chopped L frame).take m.taken.length
  behind : s.tvalid = true → s.mvalid = true
  ready : s.sready = true → s.tvalid = false
  ticks : rank L frame.length s m = 0 ∨
    m.ticks + rank L frame.length s m ≤ 3 * min L frame.length + 2

section Step

variable {s : State WIDTH LBITS} {i : Inputs WIDTH LBITS} {m : Ledger WIDTH} {L : ℕ}
  {frame : List (BitVec WIDTH)}

/-! ### The registers -/

/-- What comes in goes behind what is held, and what is given was in front. -/
theorem contents_step (hr : i.reset = false) (ha : i.activeI = true)
    (hbehind : s.tvalid = true → s.mvalid = true) (hready : s.sready = true → s.tvalid = false)
    (hlast : s.mvalid = true → s.mlast = true → s.sready = false ∧ s.tvalid = false) :
    contents s ++ pushed s i = delivered s i ++ contents (step s i) := by
  cases hv : i.sTvalid <;> cases hd : i.mTready <;> cases hsr : s.sready <;>
    cases htv : s.tvalid <;> cases hmv : s.mvalid <;> cases hml : s.mlast <;>
    simp_all [contents, pushed, delivered, step, clears, mvalidNext, tvalidNext, srcToDst, srcToTmp,
      tmpToDst, mTvalid, mTlast, mTdata]

theorem behind_step (hr : i.reset = false) (ha : i.activeI = true)
    (hbehind : s.tvalid = true → s.mvalid = true) :
    (step s i).tvalid = true → (step s i).mvalid = true := by
  cases hmv : s.mvalid <;> simp_all [step, mvalidNext, tvalidNext]

theorem ready_step (hr : i.reset = false) (ha : i.activeI = true)
    (hready : s.sready = true → s.tvalid = false) :
    (step s i).sready = true → (step s i).tvalid = false := by
  cases hv : i.sTvalid <;> cases hd : i.mTready <;> cases hsr : s.sready <;>
    cases hmv : s.mvalid <;> simp_all [step, sreadyNext, tvalidNext]

/-! ### The control -/

/-- A word is taken at an edge. -/
def Takes (s : State WIDTH LBITS) (i : Inputs WIDTH LBITS) : Prop :=
  i.sTvalid = true ∧ s.sready = true

theorem Takes.accepted (h : Takes s i) : accepted s i = [i.sTdata] := by
  simp [AxisChop.accepted, sTready, h.1, h.2]

theorem accepted_of_not_takes (h : ¬ Takes s i) : accepted s i = [] := by
  simp only [Takes, ← Bool.and_eq_true] at h
  simp [accepted, sTready, h]

theorem Takes.pushed (h : Takes s i) : pushed s i = [(tlastW s i, i.sTdata)] := by
  simp [AxisChop.pushed, h.1, h.2]

theorem pushed_of_not_takes (h : ¬ Takes s i) : pushed s i = [] := by
  simp only [Takes, ← Bool.and_eq_true] at h
  simp [pushed, h]

namespace Stage

variable {n k : ℕ}

/-- The source is only asked for a word while one is wanted. -/
theorem running_of_ready (h : Stage L n k s) (hready : s.sready = true) :
    s.frameQ = true ∧ s.activeQ = true ∧ k < min L n ∧
      (s.finalQ = false → s.remainQ = BitVec.ofNat LBITS (L - 1 - k) ∧ (k + 1 < L ∨ k + 1 = n)) ∧
      (s.finalQ = true → k + 1 = L) := by
  cases h with
  | starting frame active ready => simp [hready] at ready
  | running frame active count remain final => exact ⟨frame, active, count, remain, final⟩
  | done frame active ready => simp [hready] at ready

/-- The word that is taken is flagged if it is the last one. -/
theorem tlastW_eq (h : Stage L n k s) (ht : Takes s i) (hlast : i.sTlast = decide (k + 1 = n)) :
    tlastW s i = (k + 1 == min L n) := by
  obtain ⟨-, -, hcount, hremain, hfinal⟩ := h.running_of_ready ht.2
  cases hf : s.finalQ
  · have hmore := (hremain hf).2
    have hiff : k + 1 = n ↔ k + 1 = min L n := by omega
    rw [Bool.eq_iff_iff, beq_iff_eq]
    simp [tlastW, hf, hlast, hiff]
  · have heq := hfinal hf
    have hmin : k + 1 = min L n := by omega
    simp [tlastW, hf, ht.1, ht.2, ← hmin]

/-- Without a word taken, the chopper goes on, or begins. -/
theorem stays (h : Stage L n k s) (hr : i.reset = false) (ha : i.activeI = true)
    (hL : 1 ≤ L) (hn : 1 ≤ n) (hone : 2 ≤ L ∨ n = 1) (ht : ¬ Takes s i) :
    Stage L n k (step s i) := by
  have hno : (i.sTvalid && s.sready) = false := by
    simpa [Takes] using ht
  have hremain' : (step s i).remainQ = s.remainQ := by simp [step, ha, hno]
  have hfinal' : (step s i).finalQ = s.finalQ := by simp [step, hr, ha, hno]
  have hend : ∀ b : Bool, (b && i.sTvalid && s.sready) = false := by
    intro b
    rw [Bool.and_assoc, hno, Bool.and_false]
  cases h with
  | starting frame active ready final count remain =>
    refine .running (by simp [step, hr, ha, frame, active]) (by simp [step, hr, ha, frame, active])
      (by omega) (fun _ => ?_) (fun hf => ?_)
    · rw [hremain', remain, count]
      exact ⟨rfl, by omega⟩
    · rw [hfinal', final] at hf
      simp at hf
  | running frame active count remain final =>
    refine .running (by simp [step, hr, ha, frame, hend]) (by simp [step, hr, ha, active, hend])
      count ?_ ?_
    · rwa [hfinal', hremain']
    · rwa [hfinal']
  | done frame active ready final count =>
    exact .done (by simp [step, hr, ha, frame, active]) (by simp [step, hr, ha, active, hend])
      (by simp [step, sreadyNext, frame]) (hfinal'.trans final) count

/-- A word is taken. -/
theorem takes (h : Stage L n k s) (hr : i.reset = false) (ha : i.activeI = true)
    (hL : L < 2 ^ LBITS) (ht : Takes s i) (hlast : i.sTlast = decide (k + 1 = n)) :
    Stage L n (k + 1) (step s i) := by
  obtain ⟨hframe, hactive, hcount, hremain, hfinal⟩ := h.running_of_ready ht.2
  obtain ⟨hv, hs⟩ := ht
  by_cases hstop : s.finalQ = true ∨ i.sTlast = true
  · have hend : (s.finalQ || i.sTlast) = true := by simpa using hstop
    have hdone : k + 1 = min L n := by
      rcases hstop with hf | hl
      · have := hfinal hf
        omega
      · have : k + 1 = n := by simpa [hlast] using hl
        omega
    refine .done ?_ ?_ ?_ ?_ hdone
    · simp [step, hr, hframe, hend, hv, hs]
    · simp [step, hr, ha, hframe, hend, hv, hs]
    · rcases hstop with hf | hl
      · simp [step, sreadyNext, hf, hs]
      · simp [step, sreadyNext, hl, hv, hs]
    · cases hf : s.finalQ
      · have hl : i.sTlast = true := by simpa [hf] using hstop
        simp [step, hr, ha, hv, hs, hf, hl]
      · simp [step, hr, ha, hv, hs, hf]
  · have hf : s.finalQ = false := by simpa using fun h => hstop (Or.inl h)
    have hl : i.sTlast = false := by simpa using fun h => hstop (Or.inr h)
    obtain ⟨hrem, hmore⟩ := hremain hf
    have hne : k + 1 ≠ n := by simpa [hlast] using hl
    have hlt : k + 1 < L := by omega
    -- the counter is lowered, and looked at then
    have hlower : remainW s i = BitVec.ofNat LBITS (L - 1 - (k + 1)) := by
      rw [remainW, sourceW, if_pos ha, hrem, BitVec.sub_eq_iff_eq_add]
      have hone : (1 : BitVec LBITS) = BitVec.ofNat LBITS 1 := rfl
      rw [hone, ← BitVec.ofNat_add]
      congr 1
      omega
    have hfinal' : (step s i).finalQ = (remainW s i == 0) := by
      simp [step, hr, ha, hv, hs, hf, hl]
    refine .running (by simp [step, hr, ha, hframe, hf, hl]) (by simp [step, hr, ha, hactive, hf, hl])
      (by omega) (fun hf' => ?_) (fun hf' => ?_)
    · rw [hfinal', hlower] at hf'
      have hpos : L - 1 - (k + 1) ≠ 0 := by
        intro hzero
        simp [hzero] at hf'
      refine ⟨?_, Or.inl (by omega)⟩
      rw [← hlower]
      simp [step, ha, hv, hs, hf]
    · rw [hfinal', hlower, beq_iff_eq] at hf'
      have hzero := congrArg BitVec.toNat hf'
      rw [BitVec.toNat_ofNat, Nat.mod_eq_of_lt (by omega)] at hzero
      simp at hzero
      omega

end Stage

theorem Stage.count_le {n k : ℕ} (h : Stage L n k s) : k ≤ min L n := by
  cases h with
  | starting frame active ready final count => omega
  | running frame active count => exact count.le
  | done frame active ready final count => exact count.le

/-! ### Both together -/

namespace Chopping

/-- A flagged word is the last one that is wanted. -/
theorem last_alone (h : Chopping L frame s m) (hv : s.mvalid = true) (hl : s.mlast = true) :
    s.sready = false ∧ s.tvalid = false := by
  have hcount := h.stage.count_le
  have hlen := congrArg List.length h.given
  rw [List.length_append, List.length_take, length_chopped] at hlen
  have hfront : contents s = (true, s.mdata) :: if s.tvalid then [(s.tlast, s.tdata)] else [] := by
    simp [contents, hv, hl]
  have hget := congrArg (fun ws => ws[m.given.length]?) h.given
  simp only [hfront, List.getElem?_append_right le_rfl, Nat.sub_self, List.getElem?_cons_zero]
    at hget
  rw [hfront, List.length_cons] at hlen
  rw [List.getElem?_take_of_lt (by omega)] at hget
  have hlast := eq_of_flagged hget.symm
  constructor
  · by_contra hready
    have := (h.stage.running_of_ready (by simpa using hready)).2.2.1
    omega
  · by_contra htv
    rw [Bool.not_eq_false] at htv
    rw [htv, if_pos rfl, List.length_singleton] at hlen
    omega

theorem contents_next (h : Chopping L frame s m) (hi : Offers frame m i) :
    contents s ++ pushed s i = delivered s i ++ contents (step s i) :=
  contents_step hi.reset hi.active h.behind h.ready h.last_alone

/-- A stage is left at the first edge, and the frame is never begun again. -/
theorem activeQ_next (h : Chopping L frame s m) (hi : Offers frame m i) :
    (step s i).activeQ = true ∧ (s.activeQ = true → s.frameQ = false → (step s i).frameQ = false) := by
  have hactive := hi.active
  have hr := hi.reset
  cases h.stage with
  | starting frame active ready final count => simp [step, hr, hactive, frame, active]
  | running frame active count => simp [step, hr, hactive, frame, active]
  | done frame active ready final count => simp [step, hr, hactive, frame, active]

/-- A source that is asked for a word while it waits is served at once. -/
theorem asked_next (hi : Offers frame m i) (hframe : s.frameQ = true) (ht : ¬ Takes s i)
    (hready : i.mTready = true) (hv : i.sTvalid = true) :
    (step s i).sready = true ∧ (m.watch (min L frame.length) s i).waiting = true := by
  have hs : s.sready = false := by
    by_contra hs
    exact ht ⟨hv, by simpa using hs⟩
  constructor
  · have hgo : sreadyNext s i = true := by
      rw [sreadyNext, hi.active, hframe, hready, hs]
      cases s.finalQ <;> simp
    simp [step, hi.reset, hi.active, hgo]
  · simp [Ledger.watch, hv, hs]

/-- Each edge at which the destination is ready and the source does its part makes for less to do. -/
theorem rank_next (h : Chopping L frame s m) (hi : Offers frame m i) :
    rank L frame.length (step s i) (m.watch (min L frame.length) s i) ≤
      rank L frame.length s m -
        (i.mTready && (i.sTvalid || decide (min L frame.length ≤ m.taken.length))).toNat := by
  obtain ⟨hactive', hframe'⟩ := h.activeQ_next hi
  have hlen := congrArg List.length (h.contents_next hi)
  rw [List.length_append, List.length_append] at hlen
  have hcount := h.stage.count_le
  have hflag := Bool.toNat_le ((step s i).frameQ && !((step s i).sready &&
    (m.watch (min L frame.length) s i).waiting))
  have htick := Bool.toNat_le
    (i.mTready && (i.sTvalid || decide (min L frame.length ≤ m.taken.length)))
  simp only [rank, hactive', if_true]
  by_cases ht : Takes s i
  · obtain ⟨-, hactive, hlt, -⟩ := h.stage.running_of_ready ht.2
    have htaken : (m.watch (min L frame.length) s i).taken.length = m.taken.length + 1 := by
      simp [Ledger.watch, ht.accepted]
    rw [ht.pushed, List.length_singleton] at hlen
    rw [htaken]
    omega
  · have htaken : (m.watch (min L frame.length) s i).taken = m.taken := by
      simp [Ledger.watch, accepted_of_not_takes ht]
    rw [pushed_of_not_takes ht, List.length_nil] at hlen
    rw [htaken]
    cases h.stage with
    | starting frame active ready final count =>
      simp only [active, Bool.false_eq_true, if_false]
      omega
    | running hframe active count =>
      have hnot : (s.sready && m.waiting) = false := by
        by_contra hboth
        rw [Bool.not_eq_false, Bool.and_eq_true] at hboth
        exact ht ⟨hi.hold hboth.2, hboth.1⟩
      have hmore : decide (min L frame.length ≤ m.taken.length) = false := by simpa using count
      rw [hmore, Bool.or_false]
      simp only [active, if_true, hframe, hnot, Bool.not_false, Bool.and_true, Bool.toNat_true]
      by_cases htick : i.mTready = true ∧ i.sTvalid = true
      · obtain ⟨hs, hw⟩ := asked_next (L := L) hi hframe ht htick.1 htick.2
        rw [hs, hw, htick.1, htick.2]
        simp
        omega
      · have hno : (i.mTready && i.sTvalid) = false := by simpa using htick
        rw [hno]
        simp only [Bool.toNat_false]
        omega
    | done hframe active ready final count =>
      have hnone : (contents s).length ≠ 0 → i.mTready = true → (delivered s i).length = 1 := by
        intro hne hd
        have hmv : s.mvalid = true := by
          by_contra hmv
          have htv : s.tvalid = false := by
            by_contra htv
            exact hmv (h.behind (by simpa using htv))
          simp [contents, hmv, htv] at hne
        simp [delivered, mTvalid, hmv, hd]
      rw [hframe' active hframe, hframe]
      simp only [active, Bool.false_and, Bool.toNat_false, if_true]
      cases hd : i.mTready
      · simp
        omega
      · rw [hd] at htick
        by_cases hne : (contents s).length = 0
        · omega
        · have hone := hnone hne hd
          omega

theorem next (h : Chopping L frame s m) (hi : Offers frame m i) (hL : 1 ≤ L)
    (hmax : L < 2 ^ LBITS) (hn : 1 ≤ frame.length) (hone : 2 ≤ L ∨ frame.length = 1) :
    Chopping L frame (step s i) (m.watch (min L frame.length) s i) := by
  have hcontents := h.contents_next hi
  have hrank := h.rank_next hi
  have hgiven : (m.watch (min L frame.length) s i).given ++ contents (step s i) =
      (chopped L frame).take m.taken.length ++ pushed s i := by
    simp only [Ledger.watch]
    rw [List.append_assoc, ← hcontents, ← List.append_assoc, h.given]
  have hticks : rank L frame.length (step s i) (m.watch (min L frame.length) s i) = 0 ∨
      (m.watch (min L frame.length) s i).ticks +
        rank L frame.length (step s i) (m.watch (min L frame.length) s i) ≤
          3 * min L frame.length + 2 := by
    have hold := h.ticks
    simp only [Ledger.watch] at hrank ⊢
    omega
  have hbehind := behind_step hi.reset hi.active h.behind
  have hready := ready_step hi.reset hi.active h.ready
  by_cases ht : Takes s i
  · have hcount := (h.stage.running_of_ready ht.2).2.2.1
    obtain ⟨hword, hlast⟩ := hi.word ht.1 (by omega)
    have htaken : (m.watch (min L frame.length) s i).taken = m.taken ++ [i.sTdata] := by
      simp [Ledger.watch, ht.accepted]
    have hlen : (m.watch (min L frame.length) s i).taken.length = m.taken.length + 1 := by
      simp [htaken]
    refine ⟨?_, ?_, ?_, hbehind, hready, hticks⟩
    · rw [hlen]
      exact h.stage.takes hi.reset hi.active hmax ht hlast
    · rw [hlen, htaken, List.take_add_one, hword, ← h.taken]
      rfl
    · rw [hgiven, hlen, take_chopped hcount hword, ht.pushed, h.stage.tlastW_eq ht hlast]
  · have htaken : (m.watch (min L frame.length) s i).taken = m.taken := by
      simp [Ledger.watch, accepted_of_not_takes ht]
    refine ⟨?_, ?_, ?_, hbehind, hready, hticks⟩
    · rw [htaken]
      exact h.stage.stays hi.reset hi.active hL hn hone ht
    · rw [htaken]
      exact h.taken
    · rw [hgiven, htaken, pushed_of_not_takes ht, List.append_nil]

theorem chops (h : Chopping L frame s m) (hL : 1 ≤ L) (hn : 1 ≤ frame.length) :
    Chops L frame s m := by
  have hcount := h.stage.count_le
  refine ⟨?_, ?_, fun hall => ?_, fun hticks => ?_⟩
  · rw [h.taken]
    exact List.take_prefix_take_left (by omega)
  · exact (List.prefix_append m.given (contents s)).trans (h.given ▸ List.take_prefix _ _)
  · have hlen := congrArg List.length hall
    rw [List.length_take] at hlen
    cases h.stage with
    | starting frame active ready final count => omega
    | running frame active count => omega
    | done frame active ready final count => exact ⟨final, ready⟩
  · have hzero : rank L frame.length s m = 0 := by
      rcases h.ticks with hzero | hle <;> omega
    rw [rank] at hzero
    have hlen : m.taken.length = min L frame.length := by omega
    have hempty : contents s = [] := List.length_eq_zero_iff.mp (by omega)
    have hgiven := h.given
    rw [hempty, List.append_nil, hlen, ← length_chopped, List.take_length] at hgiven
    refine ⟨?_, hgiven⟩
    rw [h.taken, hlen, List.take_eq_take_iff]
    omega

end Chopping

end Step

/-! ## Runs -/

/-- The chopper in a run in which `active_i` is high, after a cycle in which it was low, whatever came
before. -/
def watchedChop (wanted : ℕ) (s₀ : State WIDTH LBITS) (i₀ : Inputs WIDTH LBITS)
    (is : List (Inputs WIDTH LBITS)) : State WIDTH LBITS × Ledger WIDTH :=
  run (watched step (Ledger.watch wanted)) (step s₀ i₀, Ledger.empty) is

/-- In every run that follows a cycle with that length, the frame is chopped. -/
def AlwaysChops (MAXLEN L : ℕ) (frame : List (BitVec WIDTH)) : Prop :=
  ∀ (s₀ : State WIDTH (lbits MAXLEN)) (i₀ : Inputs WIDTH (lbits MAXLEN))
    (is : List (Inputs WIDTH (lbits MAXLEN))), i₀.activeI = false → i₀.lengthI = BitVec.ofNat _ L →
    Along (watched step (Ledger.watch (min L frame.length))) (fun q i => Offers frame q.2 i)
      (step s₀ i₀, Ledger.empty) is →
    Chops L frame (watchedChop (min L frame.length) s₀ i₀ is).1
      (watchedChop (min L frame.length) s₀ i₀ is).2

theorem lt_two_pow_lbits {MAXLEN L : ℕ} (h : L ≤ MAXLEN) : L < 2 ^ lbits MAXLEN :=
  (Nat.lt_succ_of_le h).trans_le (Nat.le_pow_clog (by omega) _)

/-- A cycle without `active_i` makes everything ready for a frame. -/
theorem chopping_start {L : ℕ} {frame : List (BitVec WIDTH)} (s₀ : State WIDTH LBITS)
    {i₀ : Inputs WIDTH LBITS} (ha : i₀.activeI = false) (hlen : i₀.lengthI = BitVec.ofNat _ L)
    (hL : 1 ≤ L) : Chopping L frame (step s₀ i₀) Ledger.empty := by
  have hframe : (step s₀ i₀).frameQ = false := by simp [step, ha]
  have hactive : (step s₀ i₀).activeQ = false := by simp [step, ha]
  have hremain : (step s₀ i₀).remainQ = BitVec.ofNat LBITS (L - 1) := by
    have hone : (1 : BitVec LBITS) = BitVec.ofNat LBITS 1 := rfl
    have hstep : (step s₀ i₀).remainQ = i₀.lengthI - 1 := by simp [step, ha, remainW, sourceW]
    rw [hstep, hlen, BitVec.sub_eq_iff_eq_add, hone, ← BitVec.ofNat_add]
    congr 1
    omega
  have hempty : contents (step s₀ i₀) = [] := by simp [contents, step, ha]
  refine ⟨.starting hframe hactive (by simp [step, ha]) (by simp [step, ha]) rfl hremain, rfl, ?_,
    by simp [step, ha], by simp [step, ha], Or.inr ?_⟩
  · simp [hempty, Ledger.empty]
  · simp [rank, hempty, hactive, Ledger.empty]

theorem alwaysChops_of_long {MAXLEN L : ℕ} {frame : List (BitVec WIDTH)} (hL : 1 ≤ L)
    (hmax : L ≤ MAXLEN) (hframe : 1 ≤ frame.length) (hone : 2 ≤ L ∨ frame.length = 1) :
    AlwaysChops MAXLEN L frame := by
  intro s₀ i₀ is ha hlen h
  let Inv (q : State WIDTH (lbits MAXLEN) × Ledger WIDTH) : Prop := Chopping L frame q.1 q.2
  have hinv : Inv (watchedChop (min L frame.length) s₀ i₀ is) :=
    run_invariant Inv
      (fun q i hq hi => Chopping.next hq hi hL (lt_two_pow_lbits hmax) hframe hone)
      (chopping_start s₀ ha hlen hL) h
  exact Chopping.chops hinv hL hframe

/-! ### A length of one -/

/-- A cycle with `active_i`, in which a word may be offered, and the destination is ready. -/
def activeInputs (valid last : Bool) (data : BitVec WIDTH) : Inputs WIDTH LBITS where
  reset := false
  activeI := true
  lengthI := 0
  sTvalid := valid
  sTkeep := true
  sTlast := last
  sTdata := data
  mTready := true

/-- A cycle without `active_i`, in which the length is set. -/
def lengthInputs (length : BitVec LBITS) : Inputs WIDTH LBITS :=
  { (activeInputs false false 0 : Inputs WIDTH LBITS) with activeI := false, lengthI := length }

/-- Words are taken, and the counter has not run out. -/
structure Asking (r : BitVec LBITS) (s : State WIDTH LBITS) : Prop where
  ready : s.sready = true
  frame : s.frameQ = true
  active : s.activeQ = true
  final : s.finalQ = false
  remain : s.remainQ = r

theorem asking_of_length (s₀ : State WIDTH LBITS) (length : BitVec LBITS) :
    Asking (length - 1) (step (step (step s₀ (lengthInputs length)) (activeInputs false false 0))
      (activeInputs false false 0)) := by
  constructor <;> simp [step, lengthInputs, activeInputs, sreadyNext, remainW, sourceW]

/-- A word is taken, and another one is asked for, unless the counter runs out. -/
theorem Asking.take {r : BitVec LBITS} {s : State WIDTH LBITS} (h : Asking r s) (hr : r - 1 ≠ 0)
    (a : BitVec WIDTH) : Asking (r - 1) (step s (activeInputs true false a)) := by
  obtain ⟨hs, hf, ha, hfin, hrem⟩ := h
  constructor <;>
    simp [step, activeInputs, sreadyNext, remainW, sourceW, hs, hf, ha, hfin, hrem]
  exact hr

theorem Asking.accepted {r : BitVec LBITS} {s : State WIDTH LBITS} (h : Asking r s) (last : Bool)
    (a : BitVec WIDTH) : accepted s (activeInputs true last a) = [a] :=
  Takes.accepted ⟨rfl, h.ready⟩

theorem accepted_of_none (s : State WIDTH LBITS) (last : Bool) (a : BitVec WIDTH) :
    accepted s (activeInputs false last a) = [] := by
  simp [accepted, activeInputs]

/-- With a length of one the counter starts at zero and is lowered once more, and a second word is
taken. -/
theorem takes_two {MAXLEN : ℕ} (hmax : 1 ≤ MAXLEN) (a b : BitVec WIDTH)
    (rest : List (BitVec WIDTH)) : ¬ AlwaysChops MAXLEN 1 (a :: b :: rest) := by
  intro h
  have hlt := lt_two_pow_lbits hmax
  have hwrap : BitVec.ofNat (lbits MAXLEN) 1 - 1 - 1 ≠ 0 := by
    intro hzero
    rw [BitVec.sub_eq_iff_eq_add] at hzero
    have hval := congrArg BitVec.toNat hzero
    simp [Nat.mod_eq_of_lt hlt] at hval
  have hfirst := asking_of_length (default : State WIDTH (lbits MAXLEN)) (BitVec.ofNat _ 1)
  have hsecond := hfirst.take hwrap a
  have hrun := h default (lengthInputs (BitVec.ofNat _ 1)) [activeInputs false false 0,
    activeInputs false false 0, activeInputs true false a, activeInputs true (decide (rest = [])) b]
    rfl rfl ?_
  · have htaken := hrun.taken.length_le
    simp only [watchedChop, run_cons, run_nil, watched_snd, watched_fst, Ledger.watch, Ledger.empty,
      accepted_of_none, hfirst.accepted, hsecond.accepted] at htaken
    simp at htaken
  · refine ⟨⟨rfl, rfl, by simp [activeInputs], by simp [Ledger.empty]⟩,
      ⟨rfl, rfl, by simp [activeInputs], by simp [Ledger.watch, activeInputs]⟩,
      ⟨rfl, rfl, fun _ _ => ?_, fun _ => rfl⟩, ⟨rfl, rfl, fun _ _ => ?_, fun _ => rfl⟩, trivial⟩
    · simp only [watched_snd, watched_fst, Ledger.watch, Ledger.empty, accepted_of_none]
      simp [activeInputs]
    · simp only [watched_snd, watched_fst, Ledger.watch, Ledger.empty, accepted_of_none,
        hfirst.accepted]
      simp [activeInputs]

/-- A frame is chopped at every length but one, and at that if it has only one word. -/
theorem alwaysChops_iff {MAXLEN L : ℕ} {frame : List (BitVec WIDTH)} (hL : 1 ≤ L)
    (hmax : L ≤ MAXLEN) (hframe : 1 ≤ frame.length) :
    AlwaysChops MAXLEN L frame ↔ 2 ≤ L ∨ frame.length = 1 := by
  constructor
  · intro h
    by_contra hno
    have hone : L = 1 := by omega
    subst hone
    match frame with
    | [] => simp at hframe
    | [a] => simp at hno
    | a :: b :: rest => exact takes_two hmax a b rest h
  · exact alwaysChops_of_long hL hmax hframe

/-- The hypotheses are met by a length of two, for a frame of three words. -/
theorem alwaysChops_two : AlwaysChops 4 2 [1, 2, (3 : BitVec 8)] :=
  (alwaysChops_iff (by decide) (by decide) (by decide)).mpr (by decide)

/-- A frame of two words is not chopped at a length of one: in a run that offers both of them, both
are taken. -/
theorem not_alwaysChops :
    ¬ ∀ (MAXLEN L : ℕ) (frame : List (BitVec 8)), 1 ≤ L → L ≤ MAXLEN → 1 ≤ frame.length →
      AlwaysChops MAXLEN L frame := by
  intro h
  have hchops := h 4 1 [1, 2] (by decide) (by decide) (by decide)
  exact takes_two (by decide) 1 2 [] hchops

end MiscVerilogCores.AxisChop
