import MiscVerilogCores.Library.Handshake
import MiscVerilogCores.Model.Uart
import MiscVerilogCores.Verification.Uart.Line

/-! # Transmission of bytes

The registers of the transmitter say what the line will carry until it is idle again; a byte that is
loaded adds its frame. -/

namespace MiscVerilogCores.UartTx

open Clocked Handshake Uart

variable {W : ℕ}

/-- The transmitter works, with bits of `8 * p` cycles. -/
structure Driven (p : BitVec 16) (i : Inputs W) : Prop where
  rst : i.rst = false
  prescale : i.prescale = p

instance (p : BitVec 16) (i : Inputs W) : Decidable (Driven p i) :=
  decidable_of_iff (i.rst = false ∧ i.prescale = p)
    ⟨fun h => ⟨h.1, h.2⟩, fun h => ⟨h.rst, h.prescale⟩⟩

/-- The transmitter can load a byte. -/
def vacant (s : State W) : Bool := s.prescale == 0 && s.bitCnt == 0

/-- The byte that is loaded at an edge. -/
def loads (s : State W) (i : Inputs W) : List (BitVec W) :=
  if !i.rst && vacant s && i.sAxisTvalid then [i.sAxisTdata] else []

/-- The bytes that are loaded in a run. -/
def loaded (s : State W) (is : List (Inputs W)) : List (BitVec W) := emitted step loads s is

/-- The levels of the line from the first cycle of a run to the cycle behind it. -/
def wire (s : State W) (is : List (Inputs W)) : List Bool :=
  s.txd :: emitted step (fun s i => [(step s i).txd]) s is

/-- What `n` bits are sent as, the last of them being the stop bit. -/
def bitsLeft (N : ℕ) : ℕ → BitVec (W + 1) → List Bool
  | 0, _ => []
  | 1, _ => List.replicate (N + 1) true
  | n + 2, data => List.replicate N (data.getLsbD 0) ++ bitsLeft N (n + 1) (data >>> 1)

/-- What the line will carry until the transmitter is vacant. -/
def left (p : BitVec 16) (s : State W) : List Bool :=
  List.replicate s.prescale.toNat s.txd ++ bitsLeft (8 * p.toNat) s.bitCnt.toNat s.data

theorem bitsLeft_succ (N n : ℕ) (data : BitVec (W + 1)) :
    bitsLeft N (n + 1) data =
      ((List.range n).flatMap fun k => List.replicate N (data.getLsbD k)) ++
        List.replicate (N + 1) true := by
  induction n generalizing data with
  | zero => rfl
  | succ n ih =>
      rw [bitsLeft, ih, List.range_succ_eq_map, List.flatMap_cons, List.append_assoc,
        List.flatMap_map]
      simp [Nat.add_comm]

/-- A byte is sent as its frame, and one more cycle. -/
theorem frame_eq (N : ℕ) (byte : BitVec W) :
    List.replicate N false ++ bitsLeft N (W + 1) (BitVec.cons true byte) =
      frame N byte ++ [true] := by
  have hbits : ∀ k ∈ List.range W,
      List.replicate N ((BitVec.cons true byte).getLsbD k) =
        List.replicate N (frameBit byte (k + 1)) := by
    intro k hk
    have hlt : k < W := List.mem_range.mp hk
    simp [frameBit, BitVec.getLsbD_cons, hlt, hlt.ne]
  rw [bitsLeft_succ, List.flatMap_congr hbits, frame, List.range_succ_eq_map, List.flatMap_cons,
    List.range_succ, List.map_append, List.flatMap_append, List.flatMap_map]
  simp [frameBit, List.replicate_succ']

/-! ## Edges -/

section Edges

variable {p : BitVec 16} {s : State W} {i : Inputs W}

/-- The line is high while nothing is sent. -/
def Rests (s : State W) : Prop := s.bitCnt = 0 → s.txd = true

theorem vacant_iff : vacant s = true ↔ s.prescale = 0 ∧ s.bitCnt = 0 := by
  simp [vacant]

theorem left_eq_nil (h : vacant s = true) : left p s = [] := by
  obtain ⟨hprescale, hbit⟩ := vacant_iff.mp h
  simp [left, hprescale, hbit, bitsLeft]

theorem toNat_bit (p : BitVec 16) (hp : p ≠ 0) :
    ((p.setWidth 19 <<< 3) - 1 : BitVec 19).toNat = 8 * p.toNat - 1 := by
  have hpos : p.toNat ≠ 0 := fun h => hp (BitVec.eq_of_toNat_eq h)
  bv_omega

theorem toNat_stop (p : BitVec 16) : (p.setWidth 19 <<< 3 : BitVec 19).toNat = 8 * p.toNat := by
  bv_omega

theorem replicate_bit (hp : p ≠ 0) (level : Bool) :
    List.replicate (8 * p.toNat) level = level :: List.replicate (8 * p.toNat - 1) level := by
  have hpos : p.toNat ≠ 0 := fun h => hp (BitVec.eq_of_toNat_eq h)
  rw [← List.replicate_succ, Nat.sub_add_cancel (by omega)]

/-- While a byte is sent, the line takes on the next level. -/
theorem left_step (hp : p ≠ 0) (hi : Driven p i) (h : vacant s = false) :
    left p s = (step s i).txd :: left p (step s i) ∧ loads s i = [] ∧
      (Rests s → Rests (step s i)) := by
  have hload : loads s i = [] := by simp [loads, h]
  by_cases hwait : 0 < s.prescale
  · have hstep : step s i = { s with sAxisTready := false, prescale := s.prescale - 1 } := by
      simp only [step, hi.rst, Bool.false_eq_true, if_false, if_pos hwait]
    have hcount : s.prescale.toNat = (s.prescale - 1).toNat + 1 := by bv_omega
    rw [hstep]
    refine ⟨?_, hload, fun hrest => hrest⟩
    rw [left, hcount, List.replicate_succ]
    rfl
  · have hprescale : s.prescale = 0 := by bv_omega
    have hbit : ¬s.bitCnt = 0 := fun hbit => by simp [vacant, hprescale, hbit] at h
    have hnow : left p s = bitsLeft (8 * p.toNat) s.bitCnt.toNat s.data := by
      simp [left, hprescale]
    by_cases hmore : 1 < s.bitCnt
    · have hstep : step s i = { s with
          bitCnt := s.bitCnt - 1, prescale := (p.setWidth 19 <<< 3) - 1, data := s.data >>> 1,
          txd := s.data.getLsbD 0 } := by
        simp only [step, hi.rst, hi.prescale, Bool.false_eq_true, if_false, if_neg hwait,
          if_neg hbit, if_pos hmore]
      obtain ⟨n, hn⟩ : ∃ n, s.bitCnt.toNat = n + 2 := ⟨s.bitCnt.toNat - 2, by bv_omega⟩
      have hnext : (s.bitCnt - 1).toNat = n + 1 := by bv_omega
      refine ⟨?_, hload, fun _ hzero => ?_⟩
      · rw [hstep, hnow, hn, left, hnext, toNat_bit p hp, bitsLeft, replicate_bit hp,
          List.cons_append]
      · have hzero' : s.bitCnt - 1 = 0 := by
          rw [hstep] at hzero
          exact hzero
        rw [hzero'] at hnext
        simp at hnext
    · have hone : s.bitCnt = 1 := by bv_omega
      have hstep : step s i = { s with
          bitCnt := s.bitCnt - 1, prescale := p.setWidth 19 <<< 3, txd := true } := by
        simp only [step, hi.rst, hi.prescale, Bool.false_eq_true, if_false, if_neg hwait,
          if_neg hbit, if_neg hmore]
      rw [hstep]
      refine ⟨?_, hload, fun _ _ => rfl⟩
      rw [hnow, hone, left, toNat_stop]
      simp [bitsLeft, List.replicate_succ]

/-- A vacant transmitter loads the byte that is offered. -/
theorem left_load (hp : p ≠ 0) (hW : W + 2 < 16) (hi : Driven p i) (h : vacant s = true)
    (hvalid : i.sAxisTvalid = true) :
    (step s i).txd :: left p (step s i) = frame (8 * p.toNat) i.sAxisTdata ++ [true] ∧
      loads s i = [i.sAxisTdata] ∧ Rests (step s i) := by
  obtain ⟨hprescale, hbit⟩ := vacant_iff.mp h
  have hcount : (BitVec.ofNat 4 (W + 1)).toNat = W + 1 := by
    rw [BitVec.toNat_ofNat]
    exact Nat.mod_eq_of_lt (by omega)
  have hstep : step s i =
      { sAxisTready := !s.sAxisTready
        prescale := (p.setWidth 19 <<< 3) - 1
        bitCnt := BitVec.ofNat 4 (W + 1)
        data := BitVec.cons true i.sAxisTdata
        txd := false
        busy := true } := by
    simp [step, hi.rst, hi.prescale, hprescale, hbit, hvalid]
  rw [hstep]
  refine ⟨?_, by simp [loads, h, hi.rst, hvalid], fun hzero => ?_⟩
  · rw [left, hcount, toNat_bit p hp, ← List.cons_append, ← replicate_bit hp, frame_eq]
  · have hzero' : (BitVec.ofNat 4 (W + 1)).toNat = 0 := congrArg BitVec.toNat hzero
    omega

theorem length_left_load {level : Bool} {back : List Bool} {byte : BitVec W}
    (h : level :: back = frame (8 * p.toNat) byte ++ [true]) :
    back.length = 8 * p.toNat * (W + 2) := by
  have hlen := congrArg List.length h
  rwa [List.length_cons, List.length_append, List.length_singleton, length_frame,
    Nat.add_right_cancel_iff] at hlen

/-- A vacant transmitter waits for a byte. -/
theorem step_vacant (hr : i.rst = false) (h : vacant s = true) (hvalid : i.sAxisTvalid = false) :
    step s i = { s with sAxisTready := true, busy := false } := by
  obtain ⟨hprescale, hbit⟩ := vacant_iff.mp h
  simp [step, hr, hprescale, hbit, hvalid]

/-- While a byte is sent, the transmitter stays as busy as it was. -/
theorem step_busy (hr : i.rst = false) (h : vacant s = false) : (step s i).busy = s.busy := by
  by_cases hwait : 0 < s.prescale
  · simp only [step, hr, Bool.false_eq_true, if_false, if_pos hwait]
  · have hbit : ¬s.bitCnt = 0 := fun hbit => by
      have hprescale : s.prescale = 0 := by bv_omega
      simp [vacant, hprescale, hbit] at h
    simp only [step, hr, Bool.false_eq_true, if_false, if_neg hwait, if_neg hbit]
    split <;> rfl

theorem step_rest (hi : Driven p i) (h : vacant s = true) (hrest : Rests s)
    (hvalid : i.sAxisTvalid = false) :
    (step s i).txd = true ∧ vacant (step s i) = true ∧ loads s i = [] ∧ Rests (step s i) := by
  have hhigh : s.txd = true := hrest (vacant_iff.mp h).2
  rw [step_vacant hi.rst h hvalid]
  exact ⟨hhigh, h, by simp [loads, hvalid], fun _ => hhigh⟩

end Edges

/-! ## Runs -/

/-- What the line has carried, up to the level of this cycle, what it will carry, and what has been
loaded. -/
inductive Sending (N : ℕ) : List Bool → List Bool → List (BitVec W) → Prop
  | rest {line : List Bool} {bytes : List (BitVec W)} :
      Carries N line bytes → Sending N (line ++ [true]) [] bytes
  | byte {line : List Bool} {bytes : List (BitVec W)} {b : BitVec W} {front back : List Bool} :
      Carries N line bytes → front ++ back = frame N b ++ [true] → front ≠ [] → back ≠ [] →
        Sending N (line ++ front) back (bytes ++ [b])

theorem Sending.next {N : ℕ} {line back : List Bool} {bytes : List (BitVec W)} {level : Bool}
    (h : Sending N line (level :: back) bytes) : Sending N (line ++ [level]) back bytes := by
  cases h with
  | @byte line bytes b front _ hline hsplit _ _ =>
      rw [List.append_assoc]
      by_cases hback : back = []
      · subst hback
        rw [hsplit, ← List.append_assoc]
        exact .rest (hline.append (Carries.single N b))
      · exact .byte hline (by rw [List.append_assoc]; exact hsplit) (by simp) hback

theorem Sending.high {N : ℕ} {line : List Bool} {bytes : List (BitVec W)}
    (h : Sending N line [] bytes) : Carries N line bytes := by
  cases h with
  | rest hline => simpa using hline.append (Carries.high N 1)
  | byte _ _ _ hne => exact absurd rfl hne

section Runs

variable {p : BitVec 16} {s : State W} {is : List (Inputs W)} {line : List Bool}
  {bytes : List (BitVec W)}

structure Inv (p : BitVec 16) (s : State W) (line : List Bool) (bytes : List (BitVec W)) : Prop where
  sending : Sending (8 * p.toNat) line (left p s) bytes
  rests : Rests s

theorem Inv.next {i : Inputs W} (h : Inv p s line bytes) (hp : p ≠ 0) (hW : W + 2 < 16)
    (hi : Driven p i) : Inv p (step s i) (line ++ [(step s i).txd]) (bytes ++ loads s i) := by
  cases hvacant : vacant s with
  | false =>
      obtain ⟨hleft, hload, hrests⟩ := left_step hp hi hvacant
      have hsending := h.sending
      rw [hleft] at hsending
      rw [hload, List.append_nil]
      exact ⟨hsending.next, hrests h.rests⟩
  | true =>
      have hline : Carries (8 * p.toNat) line bytes := by
        have hsending := h.sending
        rw [left_eq_nil hvacant] at hsending
        exact hsending.high
      cases hvalid : i.sAxisTvalid with
      | true =>
          obtain ⟨hframe, hload, hrests⟩ := left_load hp hW hi hvacant hvalid
          have hlen := length_left_load hframe
          have hpos : 0 < 8 * p.toNat * (W + 2) := by
            have hpz : p.toNat ≠ 0 := fun h => hp (BitVec.eq_of_toNat_eq h)
            exact Nat.mul_pos (by omega) (Nat.succ_pos _)
          rw [hload]
          refine ⟨.byte hline hframe (List.cons_ne_nil _ _) fun hnil => ?_, hrests⟩
          rw [hnil] at hlen
          exact absurd hlen hpos.ne
      | false =>
          obtain ⟨hhigh, hvacant', hload, hrests⟩ := step_rest hi hvacant h.rests hvalid
          rw [hhigh, hload, List.append_nil]
          refine ⟨?_, hrests⟩
          rw [left_eq_nil hvacant']
          exact .rest hline

theorem inv_run (h : Inv p s [s.txd] []) (hp : p ≠ 0) (hW : W + 2 < 16)
    (hi : ∀ i ∈ is, Driven p i) : Inv p (run step s is) (wire s is) (loaded s is) :=
  run_ledger (Inv p) (fun _ _ _ _ h hi => h.next hp hW hi) h (along_of_inputs step s hi)

theorem inv_of_reset (s₀ : State W) {r : Inputs W} (hr : r.rst = true) :
    Inv p (step s₀ r) [(step s₀ r).txd] [] := by
  have hstep : step s₀ r = { s₀ with
      sAxisTready := false, txd := true, prescale := 0, bitCnt := 0, busy := false } := by
    simp [step, hr]
  rw [hstep]
  exact ⟨.rest .nil, fun _ => rfl⟩

end Runs

/-! ## The input port -/

/-- The byte on the `s_axis` port. -/
def offer (_ : State W) (i : Inputs W) : Option (BitVec W) :=
  if i.sAxisTvalid then some i.sAxisTdata else none

def ready (s : State W) (_ : Inputs W) : Bool := s.sAxisTready

/-- The bytes that are handed over on the `s_axis` port. -/
def accepted (s : State W) (is : List (Inputs W)) : List (BitVec W) :=
  emitted step (taken offer ready) s is

section Port

variable {p : BitVec 16} {s : State W} {i : Inputs W} {is : List (Inputs W)}
  {waiting : Option (BitVec W)} {taken' bytes : List (BitVec W)}

/-- The bytes that were handed over have been loaded; the last one that was loaded may still have to be
handed over. -/
inductive Books (p : BitVec 16) (s : State W) (waiting : Option (BitVec W))
    (taken : List (BitVec W)) : List (BitVec W) → Prop
  | settled : (s.sAxisTready = true → vacant s = true) → Books p s waiting taken taken
  | pending (b : BitVec W) : waiting = some b → s.sAxisTready = true → vacant s = false →
      0 < s.prescale → (left p s).length = 8 * p.toNat * (W + 2) →
        Books p s waiting taken (taken ++ [b])

theorem step_waiting (hi : Driven p i) (h : 0 < s.prescale) : (step s i).sAxisTready = false := by
  simp only [step, hi.rst, Bool.false_eq_true, if_false, if_pos h]

theorem step_refuses (hi : Driven p i) (h : vacant s = false) (hready : s.sAxisTready = false) :
    (step s i).sAxisTready = false := by
  by_cases hwait : 0 < s.prescale
  · exact step_waiting hi hwait
  · have hbit : ¬s.bitCnt = 0 := fun hbit => by
      have hprescale : s.prescale = 0 := by bv_omega
      simp [vacant, hprescale, hbit] at h
    simp only [step, hi.rst, Bool.false_eq_true, if_false, if_neg hwait, if_neg hbit]
    split <;> exact hready

theorem Books.next (h : Books p s waiting taken' bytes) (hp : p ≠ 0) (hW : W + 2 < 16)
    (hi : Driven p i) (hholds : Holds offer (s, waiting) i) :
    Books p (step s i) (refused offer ready waiting s i) (taken' ++ taken offer ready s i)
      (bytes ++ loads s i) := by
  cases h with
  | settled hready =>
      cases hvacant : vacant s with
      | false =>
          have hrefuses : s.sAxisTready = false := by
            by_contra hcon
            simp [hready (by simpa using hcon)] at hvacant
          have hnext := step_refuses hi hvacant hrefuses
          have htaken : taken offer ready s i = [] := by simp [taken, ready, hrefuses]
          have hload : loads s i = [] := by simp [loads, hvacant]
          rw [htaken, hload, List.append_nil]
          exact .settled fun htrue => absurd htrue (by simp [hnext])
      | true =>
          obtain ⟨hprescale, hbit⟩ := vacant_iff.mp hvacant
          cases hvalid : i.sAxisTvalid with
          | false =>
              have htaken : taken offer ready s i = [] := by simp [taken, offer, hvalid]
              have hload : loads s i = [] := by simp [loads, hvalid]
              rw [htaken, hload, List.append_nil]
              exact .settled fun _ => by rw [step_vacant hi.rst hvacant hvalid]; exact hvacant
          | true =>
              obtain ⟨hframe, hload, -⟩ := left_load hp hW hi hvacant hvalid
              have hnext : (step s i).sAxisTready = !s.sAxisTready ∧
                  (step s i).prescale = (p.setWidth 19 <<< 3) - 1 := by
                simp [step, hi.rst, hi.prescale, hprescale, hbit, hvalid]
              rw [hload]
              cases hready' : s.sAxisTready with
              | true =>
                  have htaken : taken offer ready s i = [i.sAxisTdata] := by
                    simp [taken, offer, ready, hready', hvalid]
                  rw [htaken]
                  exact .settled fun htrue => absurd htrue (by simp [hnext.1, hready'])
              | false =>
                  have htaken : taken offer ready s i = [] := by simp [taken, ready, hready']
                  have hpos : 0 < (step s i).prescale := by
                    have hpz : p.toNat ≠ 0 := fun h => hp (BitVec.eq_of_toNat_eq h)
                    rw [BitVec.lt_def, hnext.2, toNat_bit p hp]
                    show 0 < _
                    omega
                  have hbusy : vacant (step s i) = false := by
                    by_contra hcon
                    have hzero := (vacant_iff.mp (by simpa using hcon)).1
                    rw [hzero] at hpos
                    exact absurd hpos (by decide)
                  rw [htaken, List.append_nil]
                  refine .pending _ ?_ (by simp [hnext.1, hready']) hbusy hpos
                    (length_left_load hframe)
                  simp [refused, offer, ready, hvalid, hready']
  | pending b hwaiting hready hvacant hpos _ =>
      have hoffer : offer s i = some b := hholds b hwaiting
      have htaken : taken offer ready s i = [b] := by simp [taken, ready, hready, hoffer]
      have hload : loads s i = [] := by simp [loads, hvacant]
      have hnext := step_waiting hi hpos
      rw [htaken, hload, List.append_nil]
      exact .settled fun htrue => absurd htrue (by simp [hnext])

theorem books_run (hready : s.sAxisTready = false) (hp : p ≠ 0) (hW : W + 2 < 16)
    (hi : ∀ i ∈ is, Driven p i) (hpatient : Patient step offer ready s is) :
    ∃ waiting, Books p (run step s is) waiting (accepted s is) (loaded s is) :=
  ledger_of_patient (Books p) (fun _ _ _ _ _ h hi hholds => h.next hp hW hi hholds)
    (.settled fun htrue => absurd htrue (by simp [hready])) (along_of_inputs step s hi) hpatient

theorem ready_of_reset (s₀ : State W) {r : Inputs W} (hr : r.rst = true) :
    (step s₀ r).sAxisTready = false := by
  simp [step, hr]

end Port

/-- The bytes that are handed over are sent in order: the line with at most one more frame is one that
carries the bytes, the last of which may still have to be handed over. -/
structure Sends (p : BitVec 16) (s : State W) (is : List (Inputs W)) (bytes : List (BitVec W)) :
    Prop where
  line : ∃ back, Carries (8 * p.toNat) (wire s is ++ back) bytes ∧
    back.length ≤ 8 * p.toNat * (W + 2) + 1
  whole : vacant (run step s is) = true → Carries (8 * p.toNat) (wire s is) bytes
  order : accepted s is <+: bytes
  pending : bytes.length ≤ (accepted s is).length + 1

theorem Inv.sends {p : BitVec 16} {s : State W} {is : List (Inputs W)} {waiting : Option (BitVec W)}
    (h : Inv p (run step s is) (wire s is) (loaded s is))
    (hbooks : Books p (run step s is) waiting (accepted s is) (loaded s is)) :
    Sends p s is (loaded s is) := by
  refine ⟨?_, fun hvacant => ?_, ?_, ?_⟩
  · have hsending := h.sending
    generalize wire s is = line at hsending ⊢
    generalize loaded s is = bytes at hsending ⊢
    generalize left p (run step s is) = back at hsending
    cases hsending with
    | rest hline =>
        exact ⟨[], by simpa using hline.append (Carries.high _ 1), Nat.zero_le _⟩
    | @byte line bytes b front _ hline hsplit _ _ =>
        refine ⟨back, ?_, ?_⟩
        · rw [List.append_assoc, hsplit, ← List.append_assoc]
          simpa using (hline.append (Carries.single _ b)).append (Carries.high _ 1)
        · have hlen := congrArg List.length hsplit
          rw [List.length_append, List.length_append, length_frame, List.length_singleton] at hlen
          omega
  · have hsending := h.sending
    rw [left_eq_nil hvacant] at hsending
    exact hsending.high
  · generalize loaded s is = bytes at hbooks
    cases hbooks with
    | settled _ => exact List.prefix_rfl
    | pending b _ _ _ _ _ => exact List.prefix_append _ _
  · generalize loaded s is = bytes at hbooks
    cases hbooks <;> simp

/-- From reset, the transmitter sends what a patient source hands over. -/
theorem sends_of_patient {p : BitVec 16} (s₀ : State W) {r : Inputs W} {is : List (Inputs W)}
    (hp : p ≠ 0) (hW : W + 2 < 16) (hr : r.rst = true) (hi : ∀ i ∈ is, Driven p i)
    (hpatient : Patient step offer ready (step s₀ r) is) :
    ∃ bytes, Sends p (step s₀ r) is bytes := by
  obtain ⟨_, hbooks⟩ := books_run (ready_of_reset s₀ hr) hp hW hi hpatient
  exact ⟨_, (inv_run (inv_of_reset s₀ hr) hp hW hi).sends hbooks⟩

/-- A cycle of a transmitter with bits of eight cycles. -/
def cycleInputs (rst valid : Bool) : Inputs 8 := ⟨rst, 0x5a, valid, 1⟩

/-- A byte is offered for two cycles, and sent in the cycles that follow. -/
theorem sends_of_patient_one :
    let is := List.replicate 2 (cycleInputs false true) ++
      List.replicate 80 (cycleInputs false false)
    accepted (step default (cycleInputs true false)) is = [0x5a] ∧
      ∃ bytes, Sends 1 (step default (cycleInputs true false)) is bytes :=
  ⟨by decide +kernel,
    sends_of_patient default (by decide) (by decide) rfl (by decide +kernel) (by decide +kernel)⟩

end MiscVerilogCores.UartTx
