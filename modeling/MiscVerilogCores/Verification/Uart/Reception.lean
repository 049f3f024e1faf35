import MiscVerilogCores.Library.Clocked
import MiscVerilogCores.Model.Uart
import MiscVerilogCores.Verification.Uart.Line

/-! # Reception of bytes

The receiver looks at the line once for each bit. With bits of `N` cycles it looks `N / 2` cycles into
the start bit, and then every `N` cycles; what the line does in between is ignored. -/

namespace MiscVerilogCores.UartRx

open Clocked Uart

variable {W : ℕ}

/-- The byte that is complete at an edge. -/
def arrives (s : State W) (i : Inputs W) : List (BitVec W) :=
  if !i.rst && s.prescale == 0 && s.bitCnt == 1 && s.rxd then [s.data] else []

/-- The bytes that arrive on the line. -/
def arrivals (s : State W) (is : List (Inputs W)) : List (BitVec W) := emitted step arrives s is

/-- The receiver works, with bits of `8 * p` cycles. -/
structure Driven (p : BitVec 16) (i : Inputs W) : Prop where
  rst : i.rst = false
  prescale : i.prescale = p

instance (p : BitVec 16) (i : Inputs W) : Decidable (Driven p i) :=
  decidable_of_iff (i.rst = false ∧ i.prescale = p)
    ⟨fun h => ⟨h.1, h.2⟩, fun h => ⟨h.rst, h.prescale⟩⟩

/-- The levels of the line, in the cycles of a run. -/
def levels (is : List (Inputs W)) : List Bool := is.map Inputs.rxd

/-- Nothing is received, and the line was high. -/
structure Idle (s : State W) : Prop where
  prescale : s.prescale = 0
  bitCnt : s.bitCnt = 0
  rxd : s.rxd = true

/-- The receiver is at bit `c`, which it reads after `j` more cycles. -/
structure Counting (s : State W) (c j : ℕ) : Prop where
  bitCnt : s.bitCnt.toNat = c
  prescale : s.prescale.toNat = j

/-! ## Edges -/

section Edges

variable {p : BitVec 16} {s : State W} {i : Inputs W} {c j : ℕ}

@[simp] theorem sampled_rxd : (sampled s i).rxd = i.rxd := rfl
@[simp] theorem sampled_data : (sampled s i).data = s.data := rfl
@[simp] theorem sampled_bitCnt : (sampled s i).bitCnt = s.bitCnt := rfl
@[simp] theorem sampled_frameError : (sampled s i).frameError = false := rfl

theorem arrives_eq_nil (h : Counting s c j) (hnot : 0 < j ∨ c ≠ 1) : arrives s i = [] := by
  refine if_neg fun hall => ?_
  simp only [Bool.and_eq_true, beq_iff_eq, Bool.not_eq_true'] at hall
  obtain ⟨⟨⟨-, hprescale⟩, hbit⟩, -⟩ := hall
  have hj : j = 0 := by rw [← h.prescale, hprescale]; rfl
  have hc : c = 1 := by rw [← h.bitCnt, hbit]; rfl
  omega

/-- Between the samples only the line is registered. -/
theorem step_wait (hi : Driven p i) (h : Counting s c (j + 1)) :
    Counting (step s i) c j ∧ (step s i).data = s.data ∧ (step s i).rxd = i.rxd ∧
      (step s i).frameError = false := by
  have hpos : 0 < s.prescale := by
    rw [BitVec.lt_def, h.prescale]
    exact Nat.succ_pos j
  have hstep : step s i = { sampled s i with prescale := s.prescale - 1 } := by
    simp only [step, hi.rst, Bool.false_eq_true, if_false, if_pos hpos]
  rw [hstep]
  refine ⟨⟨h.bitCnt, ?_⟩, rfl, rfl, rfl⟩
  have hone : (1 : BitVec 19).toNat = 1 := rfl
  show (s.prescale - 1).toNat = j
  rw [BitVec.toNat_sub_of_le (by rw [BitVec.le_def, h.prescale, hone]; omega), h.prescale, hone]
  omega

/-- A whole bit, less one cycle. -/
theorem toNat_bit (p : BitVec 16) (hp : p ≠ 0) :
    ((p.setWidth 19 <<< 3) - 1 : BitVec 19).toNat = 8 * p.toNat - 1 := by
  have hpos : p.toNat ≠ 0 := fun h => hp (BitVec.eq_of_toNat_eq h)
  bv_omega

/-- Half a bit, less two cycles. -/
theorem toNat_half (p : BitVec 16) (hp : p ≠ 0) :
    ((p.setWidth 19 <<< 2) - 2 : BitVec 19).toNat = 4 * p.toNat - 2 := by
  have hpos : p.toNat ≠ 0 := fun h => hp (BitVec.eq_of_toNat_eq h)
  bv_omega

end Edges

/-! ## From one sample to the next -/

section Samples

variable {p : BitVec 16} {s : State W} {is : List (Inputs W)} {c j : ℕ}

/-- No edge of a run reports a framing error. -/
def NoFrameError (s : State W) (is : List (Inputs W)) : Prop :=
  Along step (fun s i => (step s i).frameError = false) s is

/-- Some cycles without a sample. -/
theorem run_wait (hi : ∀ i ∈ is, Driven p i) (h : Counting s c (is.length + j)) :
    Counting (run step s is) c j ∧ (run step s is).data = s.data ∧
      (run step s is).rxd = (levels is).getLast?.getD s.rxd ∧ arrivals s is = [] ∧
      NoFrameError s is := by
  induction is generalizing s with
  | nil => exact ⟨by simpa using h, rfl, rfl, rfl, trivial⟩
  | cons i is ih =>
      have hcount : Counting s c (is.length + j + 1) := by
        rw [List.length_cons, Nat.add_right_comm] at h
        exact h
      obtain ⟨hnext, hdata, hrxd, herror⟩ := step_wait (hi i (by simp)) hcount
      obtain ⟨hend, hdata', hrxd', harr, herrors⟩ :=
        ih (fun k hk => hi k (List.mem_cons_of_mem i hk)) hnext
      refine ⟨hend, hdata'.trans hdata, ?_, ?_, herror, herrors⟩
      · rw [run_cons, hrxd', hrxd]
        simp [levels, List.getLast?_cons]
      · rw [arrivals, emitted_cons, arrives_eq_nil hcount (Or.inl (Nat.succ_pos _))]
        exact harr

/-- Up to the next sample, which reads the level of the last cycle but one. -/
theorem run_sample (hi : ∀ i ∈ is, Driven p i) (h : Counting s c (j + 1))
    (hlen : is.length = j + 2) {level : Bool} (hlevel : (levels is)[j]? = some level) :
    ∃ t i, is.getLast? = some i ∧ Counting t c 0 ∧ t.rxd = level ∧ t.data = s.data ∧
      run step s is = step t i ∧ arrivals s is = arrives t i ∧
      ((step t i).frameError = false → NoFrameError s is) := by
  obtain ⟨pre, i, rfl⟩ := (List.eq_nil_or_concat is).resolve_left (by rintro rfl; simp at hlen)
  rw [List.concat_eq_append] at *
  have hpre : pre.length = j + 1 := by simpa using hlen
  obtain ⟨hcount, hdata, hrxd, harr, herrors⟩ := run_wait (j := 0)
    (fun k hk => hi k (List.mem_append_left _ hk)) (by rwa [hpre, Nat.add_zero])
  refine ⟨run step s pre, i, by simp, hcount, ?_, hdata, ?_, ?_, fun herror => ?_⟩
  · have hlast : (levels pre).getLast? = some level := by
      rw [List.getLast?_eq_getElem?]
      rw [levels, List.map_append, List.getElem?_append_left (by simp [hpre])] at hlevel
      rw [← hlevel]
      simp [levels, hpre]
    rw [hrxd, hlast, Option.getD_some]
  · rw [run_append, run_cons, run_nil]
  · rw [arrivals, emitted_append, emitted_cons, emitted_nil, List.append_nil]
    exact (congrArg (· ++ _) harr).trans (List.nil_append _)
  · exact (along_append _ _ _ _ _).mpr ⟨herrors, herror, trivial⟩

end Samples

/-! ## The samples of a byte -/

section Bits

variable {p : BitVec 16} {s : State W} {i : Inputs W} {c k : ℕ} {byte : BitVec W}

/-- The start bit and `k` bits of the byte have been read. -/
structure Partial (p : BitVec 16) (byte : BitVec W) (k : ℕ) (s : State W) : Prop where
  counting : Counting s (W + 1 - k) (8 * p.toNat - 1)
  bits : ∀ m < k, s.data.getLsbD (W - k + m) = byte.getLsbD m

theorem Counting.now (h : Counting s c 0) : ¬0 < s.prescale := by
  simp [BitVec.lt_def, h.prescale]

theorem Counting.bitCnt_pos (h : Counting s c 0) (hc : 0 < c) : 0 < s.bitCnt := by
  rw [BitVec.lt_def, h.bitCnt]
  exact hc

theorem toNat_bitCnt_pred (h : Counting s (c + 1) 0) : (s.bitCnt - 1).toNat = c := by
  have hbit : s.bitCnt.toNat = c + 1 := h.bitCnt
  bv_omega

theorem step_idle (hi : Driven p i) (h : Counting s 0 0) (hrxd : s.rxd = true) :
    Counting (step s i) 0 0 ∧ (step s i).rxd = i.rxd ∧ (step s i).frameError = false := by
  have hbit : ¬0 < s.bitCnt := by simp [BitVec.lt_def, h.bitCnt]
  have hstep : step s i = { sampled s i with busy := false } := by
    simp only [step, hi.rst, Bool.false_eq_true, if_false, if_neg h.now, if_neg hbit, hrxd,
      Bool.not_true]
  rw [hstep]
  exact ⟨⟨h.bitCnt, h.prescale⟩, rfl, rfl⟩

/-- A low level is taken for a start bit, and read once more in the middle of it. -/
theorem step_detect (hp : p ≠ 0) (hW : W + 2 < 16) (hi : Driven p i) (h : Counting s 0 0)
    (hrxd : s.rxd = false) :
    Counting (step s i) (W + 2) (4 * p.toNat - 2) ∧ (step s i).rxd = i.rxd ∧
      (step s i).frameError = false := by
  have hbit : ¬0 < s.bitCnt := by simp [BitVec.lt_def, h.bitCnt]
  have hstep : step s i = { sampled s i with
      prescale := (p.setWidth 19 <<< 2) - 2, bitCnt := BitVec.ofNat 4 (W + 2), data := 0,
      busy := true } := by
    simp only [step, hi.rst, hi.prescale, Bool.false_eq_true, if_false, if_neg h.now, if_neg hbit,
      hrxd, Bool.not_false, if_true]
  rw [hstep]
  exact ⟨⟨by simpa using Nat.mod_eq_of_lt hW, toNat_half p hp⟩, rfl, rfl⟩

theorem step_start (hp : p ≠ 0) (hi : Driven p i) (h : Counting s (W + 2) 0)
    (hrxd : s.rxd = false) :
    Partial p byte 0 (step s i) ∧ (step s i).frameError = false := by
  have hpos : 0 < s.bitCnt := h.bitCnt_pos (Nat.succ_pos _)
  have hstart : W + 1 < s.bitCnt.toNat := by rw [h.bitCnt]; omega
  have hstep : step s i = { sampled s i with
      bitCnt := s.bitCnt - 1, prescale := (p.setWidth 19 <<< 3) - 1 } := by
    simp only [step, hi.rst, hi.prescale, Bool.false_eq_true, if_false, if_neg h.now, if_pos hpos,
      if_pos hstart, hrxd, Bool.not_false, if_true]
  rw [hstep]
  refine ⟨⟨⟨toNat_bitCnt_pred h, toNat_bit p hp⟩, fun m hm => absurd hm (Nat.not_lt_zero m)⟩, rfl⟩

/-- A bit is shifted in from the top. -/
theorem step_bit (hp : p ≠ 0) (hi : Driven p i) (hk : k < W) (h : Counting s (W + 1 - k) 0)
    (hbits : ∀ m < k, s.data.getLsbD (W - k + m) = byte.getLsbD m)
    (hrxd : s.rxd = byte.getLsbD k) :
    Partial p byte (k + 1) (step s i) ∧ (step s i).frameError = false := by
  have hpos : 0 < s.bitCnt := h.bitCnt_pos (by omega)
  have hstart : ¬W + 1 < s.bitCnt.toNat := by rw [h.bitCnt]; omega
  have hbit : 1 < s.bitCnt := by
    rw [BitVec.lt_def, h.bitCnt]
    show 1 < W + 1 - k
    omega
  have hstep : step s i = { sampled s i with
      bitCnt := s.bitCnt - 1, prescale := (p.setWidth 19 <<< 3) - 1,
      data := (BitVec.cons s.rxd s.data).extractLsb' 1 W } := by
    simp only [step, hi.rst, hi.prescale, Bool.false_eq_true, if_false, if_neg h.now, if_pos hpos,
      if_neg hstart, if_pos hbit]
  rw [hstep]
  have hnext : W + 1 - k = W + 1 - (k + 1) + 1 := by omega
  refine ⟨⟨⟨toNat_bitCnt_pred (hnext ▸ h), toNat_bit p hp⟩, fun m hm => ?_⟩, rfl⟩
  show ((BitVec.cons s.rxd s.data).extractLsb' 1 W).getLsbD (W - (k + 1) + m) = byte.getLsbD m
  rw [BitVec.getLsbD_extractLsb', BitVec.getLsbD_cons]
  by_cases hlast : m = k
  · subst hlast
    have htop : 1 + (W - (m + 1) + m) = W := by omega
    simp [htop, hrxd, show W - (m + 1) + m < W by omega]
  · have hold : 1 + (W - (k + 1) + m) = W - k + m := by omega
    have hin : W - (k + 1) + m < W := by omega
    rw [hold, hbits m (by omega)]
    simp [hin, show W - k + m ≠ W by omega]

/-- The stop bit completes the byte. -/
theorem step_stop (hi : Driven p i) (h : Counting s 1 0) (hrxd : s.rxd = true) :
    Counting (step s i) 0 0 ∧ (step s i).rxd = i.rxd ∧ arrives s i = [s.data] ∧
      (step s i).frameError = false := by
  have hbit : s.bitCnt = 1 := BitVec.eq_of_toNat_eq h.bitCnt
  have hprescale : s.prescale = 0 := BitVec.eq_of_toNat_eq h.prescale
  have hpos : 0 < s.bitCnt := h.bitCnt_pos Nat.one_pos
  have hstart : ¬W + 1 < s.bitCnt.toNat := by rw [h.bitCnt]; omega
  have hone : ¬1 < s.bitCnt := by simp [hbit]
  have hstep : step s i = { sampled s i with
      bitCnt := s.bitCnt - 1, mAxisTdata := s.data, mAxisTvalid := true,
      overrunError := s.mAxisTvalid } := by
    simp only [step, hi.rst, Bool.false_eq_true, if_false, if_neg h.now, if_pos hpos,
      if_neg hstart, if_neg hone, hrxd, if_true]
  rw [hstep]
  exact ⟨⟨toNat_bitCnt_pred h, h.prescale⟩, rfl,
    by simp [arrives, hi.rst, hprescale, hbit, hrxd], rfl⟩

end Bits

/-! ## A byte on the line -/

section Byte

variable {p : BitVec 16} {s : State W} {is : List (Inputs W)} {byte : BitVec W}

/-- The number of cycles up to the sample of bit `k`. -/
def sampleTime (p : BitVec 16) (k : ℕ) : ℕ := 4 * p.toNat + 1 + 8 * p.toNat * k

/-- The line goes low, and has the levels of a byte wherever they are looked at. -/
structure Samples (p : BitVec 16) (signal : List Bool) (byte : BitVec W) : Prop where
  low : signal[0]? = some false
  bits : ∀ k ≤ W + 1, signal[sampleTime p k - 2]? = some (frameBit byte k)

theorem prescale_pos (hp : p ≠ 0) : 0 < p.toNat :=
  Nat.pos_of_ne_zero fun h => hp (BitVec.eq_of_toNat_eq h)

theorem counting_of_idle (h : Idle s) : Counting s 0 0 :=
  ⟨by simp [h.bitCnt], by simp [h.prescale]⟩

theorem idle_of_counting (h : Counting s 0 0) (hrxd : s.rxd = true) : Idle s :=
  ⟨BitVec.eq_of_toNat_eq h.prescale, BitVec.eq_of_toNat_eq h.bitCnt, hrxd⟩

/-- A run receives the bytes without an error, and ends in a state of the kind. -/
structure Receives (P : State W → Prop) (bytes : List (BitVec W)) (s : State W)
    (is : List (Inputs W)) : Prop where
  ends : P (run step s is)
  arrivals : arrivals s is = bytes
  noError : NoFrameError s is

theorem Receives.append {P Q : State W → Prop} {bytes bytes' : List (BitVec W)}
    {js : List (Inputs W)} (h : Receives P bytes s is)
    (hnext : P (run step s is) → Receives Q bytes' (run step s is) js) :
    Receives Q (bytes ++ bytes') s (is ++ js) := by
  have hrest := hnext h.ends
  refine ⟨?_, ?_, (along_append _ _ _ _ _).mpr ⟨h.noError, hrest.noError⟩⟩
  · rw [run_append]
    exact hrest.ends
  · have hfirst := h.arrivals
    have hsecond := hrest.arrivals
    rw [UartRx.arrivals] at hfirst hsecond ⊢
    rw [emitted_append, hfirst, hsecond]

/-- The start bit, from the cycle in which the line goes low. -/
theorem receives_start (hp : p ≠ 0) (hW : W + 2 < 16) (h : Idle s) (hi : ∀ i ∈ is, Driven p i)
    (hlen : is.length = sampleTime p 0) (hlow : (levels is)[0]? = some false)
    (hlevel : (levels is)[sampleTime p 0 - 2]? = some false) :
    Receives (Partial p byte 0) [] s is := by
  have hpos := prescale_pos hp
  have hcount := counting_of_idle h
  have htime : sampleTime p 0 = 4 * p.toNat + 1 := rfl
  rw [htime] at hlen hlevel
  match is, hlen with
  | [], hlen => simp at hlen
  | [_], hlen =>
      simp at hlen
      omega
  | i :: i' :: is, hlen =>
      simp only [List.length_cons] at hlen
      have hirxd : i.rxd = false := by simpa [levels] using hlow
      obtain ⟨hcount', hrxd', herr⟩ := step_idle (hi i (by simp)) hcount h.rxd
      have hquiet : arrives s i = [] := arrives_eq_nil hcount (Or.inr Nat.zero_ne_one)
      obtain ⟨hcount'', -, herr'⟩ :=
        step_detect hp hW (hi i' (by simp)) hcount' (hrxd'.trans hirxd)
      have hquiet' : arrives (step s i) i' = [] :=
        arrives_eq_nil hcount' (Or.inr Nat.zero_ne_one)
      have hj : 4 * p.toNat - 2 = 4 * p.toNat - 3 + 1 := by omega
      have hrest : (levels is)[4 * p.toNat - 3]? = some false := by
        rw [show 4 * p.toNat + 1 - 2 = 4 * p.toNat - 3 + 1 + 1 by omega] at hlevel
        simpa [levels] using hlevel
      have hmem : ∀ k ∈ is, Driven p k := fun k hk => hi k (by simp [hk])
      obtain ⟨t, k, hk, ht, htrxd, -, hrun, harr, herrs⟩ :=
        run_sample hmem (hj ▸ hcount'') (by omega) hrest
      obtain ⟨hpart, herr''⟩ : Partial p byte 0 (step t k) ∧ (step t k).frameError = false :=
        step_start hp (hmem k (List.mem_of_getLast? hk)) ht htrxd
      refine ⟨?_, ?_, ⟨herr, herr', herrs herr''⟩⟩
      · rw [run_cons, run_cons, hrun]
        exact hpart
      · rw [arrivals, emitted_cons, emitted_cons, hquiet, hquiet']
        exact harr.trans (arrives_eq_nil ht (Or.inr (by omega)))

/-- One more bit. -/
theorem Partial.next {k : ℕ} (h : Partial p byte k s) (hp : p ≠ 0) (hk : k < W)
    (hi : ∀ i ∈ is, Driven p i) (hlen : is.length = 8 * p.toNat)
    (hlevel : (levels is)[8 * p.toNat - 2]? = some (byte.getLsbD k)) :
    Receives (Partial p byte (k + 1)) [] s is := by
  have hpos := prescale_pos hp
  have hj : 8 * p.toNat - 1 = 8 * p.toNat - 2 + 1 := by omega
  obtain ⟨t, i, hlast, ht, htrxd, hdata, hrun, harr, herrs⟩ :=
    run_sample hi (hj ▸ h.counting) (by omega) hlevel
  obtain ⟨hpart, herr⟩ :=
    step_bit hp (hi i (List.mem_of_getLast? hlast)) hk ht (by rw [hdata]; exact h.bits) htrxd
  refine ⟨hrun ▸ hpart, ?_, herrs herr⟩
  rw [harr]
  exact arrives_eq_nil ht (Or.inr (by omega))

theorem receives_bits (hp : p ≠ 0) (hW : W + 2 < 16) (h : Idle s) (hi : ∀ i ∈ is, Driven p i)
    (hlen : sampleTime p (W + 1) ≤ is.length) (hline : Samples p (levels is) byte) {k : ℕ}
    (hk : k ≤ W) : Receives (Partial p byte k) [] s (is.take (sampleTime p k)) := by
  have hmem (n m : ℕ) : ∀ i ∈ (is.drop n).take m, Driven p i :=
    fun i h => hi i (List.mem_of_mem_drop (List.mem_of_mem_take h))
  have hmono (k : ℕ) (hk : k ≤ W + 1) : sampleTime p k ≤ is.length :=
    (Nat.add_le_add_left (Nat.mul_le_mul_left _ hk) _).trans hlen
  have hpos := prescale_pos hp
  have hstart : 1 < sampleTime p 0 := by
    show 1 < 4 * p.toNat + 1
    omega
  induction k with
  | zero =>
      have hfirst : (levels is)[sampleTime p 0 - 2]? = some false :=
        hline.bits 0 (Nat.zero_le _)
      refine receives_start hp hW h (hmem 0 _) ?_ ?_ ?_
      · exact List.length_take_of_le (hmono 0 (Nat.zero_le _))
      · rw [levels, List.map_take, List.getElem?_take_of_lt (Nat.zero_lt_of_lt hstart)]
        exact hline.low
      · rw [levels, List.map_take,
          List.getElem?_take_of_lt (Nat.sub_lt (Nat.zero_lt_of_lt hstart) Nat.two_pos)]
        exact hfirst
  | succ k ih =>
      have htime : sampleTime p (k + 1) = sampleTime p k + 8 * p.toNat := by
        simp only [sampleTime, Nat.mul_succ, Nat.add_assoc]
      have hend := hmono (k + 1) (by omega)
      rw [htime] at hend
      rw [htime, List.take_add]
      refine (ih (by omega)).append fun hpart => hpart.next hp (by omega) (hmem _ _) ?_ ?_
      · rw [List.length_take_of_le (by rw [List.length_drop]; omega)]
      · have hbit := hline.bits (k + 1) (by omega)
        rw [htime, show frameBit byte (k + 1) = byte.getLsbD k by simp [frameBit, show k < W by omega]]
          at hbit
        rw [levels, List.map_take, List.map_drop, List.getElem?_take_of_lt (by omega),
          List.getElem?_drop, ← hbit]
        congr 1
        omega

/-- A byte is received from the levels in the middle of its bits. -/
theorem receive_byte (hp : p ≠ 0) (hW : W + 2 < 16) (h : Idle s) (hi : ∀ i ∈ is, Driven p i)
    (hlen : is.length = sampleTime p (W + 1)) (hline : Samples p (levels is) byte)
    (hhigh : (levels is).getLast? = some true) :
    Receives Idle [byte] s is := by
  have hpos := prescale_pos hp
  have htime : sampleTime p (W + 1) = sampleTime p W + 8 * p.toNat := by
    simp only [sampleTime, Nat.mul_succ, Nat.add_assoc]
  obtain ⟨hpart, harr, herr⟩ := receives_bits hp hW h hi hlen.ge hline le_rfl
  have hsplit : is = is.take (sampleTime p W) ++ is.drop (sampleTime p W) :=
    (List.take_append_drop _ _).symm
  have hlevel : (levels (is.drop (sampleTime p W)))[8 * p.toNat - 2]? = some true := by
    have hstop := hline.bits (W + 1) le_rfl
    rw [htime, show frameBit byte (W + 1) = true by simp [frameBit]] at hstop
    rw [levels, List.map_drop, List.getElem?_drop, ← hstop]
    congr 1
    omega
  have hj : 8 * p.toNat - 1 = 8 * p.toNat - 2 + 1 := by omega
  have hmem : ∀ i ∈ is.drop (sampleTime p W), Driven p i :=
    fun i h => hi i (List.mem_of_mem_drop h)
  obtain ⟨t, i, hlast, ht, htrxd, hdata, hrun, harr', herrs⟩ := run_sample hmem
    (hj ▸ hpart.counting) (by rw [List.length_drop, hlen, htime]; omega) hlevel
  have hone : Counting t 1 0 := by
    rw [Nat.add_sub_cancel_left] at ht
    exact ht
  have hbyte : t.data = byte := by
    refine BitVec.eq_of_getLsbD_eq fun m hm => ?_
    have hbit := hpart.bits m hm
    rwa [Nat.sub_self, Nat.zero_add, ← hdata] at hbit
  obtain ⟨hdone, hrxd, harrives, herror⟩ :=
    step_stop (hmem i (List.mem_of_getLast? hlast)) hone htrxd
  have hend : run step s is = step t i := by
    rw [hsplit, run_append, hrun]
  have hirxd : i.rxd = true := by
    rw [hsplit, levels, List.map_append, List.getLast?_append, List.getLast?_map, hlast] at hhigh
    simpa using hhigh
  refine ⟨hend ▸ idle_of_counting hdone (hrxd.trans hirxd), ?_, ?_⟩
  · rw [hsplit, arrivals, emitted_append]
    rw [arrivals] at harr harr'
    rw [harr, harr', harrives, hbyte, List.nil_append]
  · rw [hsplit]
    exact (along_append _ _ _ _ _).mpr ⟨herr, herrs herror⟩

end Byte

/-! ## A line -/

section Lines

variable {p : BitVec 16} {M : ℕ} {s : State W} {is : List (Inputs W)} {line : List Bool}
  {bytes : List (BitVec W)}

/-- With bits of `M` cycles on the line, the middle of each bit, as the receiver counts it, is
inside of that bit. -/
def Tolerates (p : BitVec 16) (W M : ℕ) : Prop :=
  ∀ k ≤ W + 1, M * k < 4 * p.toNat + 8 * p.toNat * k ∧ 4 * p.toNat + 8 * p.toNat * k < M * (k + 1)

/-- Equal bit times are in time. -/
theorem tolerates_self (hp : p ≠ 0) : Tolerates p W (8 * p.toNat) := by
  have hpos := prescale_pos hp
  intro k _
  rw [Nat.mul_succ]
  omega

/-- The last sample is in the stop bit. -/
theorem Tolerates.stop (h : Tolerates p W M) :
    M * (W + 1) < sampleTime p (W + 1) ∧ sampleTime p (W + 1) ≤ M * (W + 2) := by
  obtain ⟨hlow, hhigh⟩ := h (W + 1) le_rfl
  have hend : M * (W + 1 + 1) = M * (W + 2) := rfl
  unfold sampleTime
  omega

/-- The front of a byte on the line, up to the last sample. -/
theorem samples_frame (h : Tolerates p W M) (b : BitVec W) :
    Samples p ((frame M b).take (sampleTime p (W + 1))) b ∧
      ((frame M b).take (sampleTime p (W + 1))).getLast? = some true := by
  have hstop := h.stop
  have hlen : (frame M b).length = M * (W + 1 + 1) := length_frame b
  have hend : M * (W + 1 + 1) = M * (W + 2) := rfl
  have hwithin (k i : ℕ) (hk : k ≤ W + 1) (hlow : M * k ≤ i) (hhigh : i < M * (k + 1))
      (hi : i < sampleTime p (W + 1)) :
      ((frame M b).take (sampleTime p (W + 1)))[i]? = some (frameBit b k) := by
    rw [List.getElem?_take_of_lt hi, getElem?_frame b (by omega) hlow hhigh]
  have htime (k : ℕ) (hk : k ≤ W + 1) : sampleTime p k ≤ sampleTime p (W + 1) :=
    Nat.add_le_add_left (Nat.mul_le_mul_left _ hk) _
  refine ⟨⟨?_, fun k hk => ?_⟩, ?_⟩
  · have hfirst := h 0 (Nat.zero_le _)
    exact hwithin 0 0 (Nat.zero_le _) (by omega) (by omega) (by omega)
  · obtain ⟨hlow, hhigh⟩ := h k hk
    have hk' := htime k hk
    have hsample : sampleTime p k = 4 * p.toNat + 8 * p.toNat * k + 1 := by
      unfold sampleTime
      omega
    exact hwithin k _ hk (by omega) (by omega) (by omega)
  · have htrue : frameBit b (W + 1) = true := by simp [frameBit]
    rw [List.getLast?_eq_getElem?, List.length_take_of_le (by omega), ← htrue]
    exact hwithin (W + 1) _ le_rfl (by omega) (by omega) (by omega)

theorem receive_high (h : Idle s) (hi : ∀ i ∈ is, Driven p i) (hhigh : ∀ i ∈ is, i.rxd = true) :
    Receives Idle [] s is := by
  induction is generalizing s with
  | nil => exact ⟨h, rfl, trivial⟩
  | cons i is ih =>
      have hcount := counting_of_idle h
      obtain ⟨hcount', hrxd, herr⟩ := step_idle (hi i (by simp)) hcount h.rxd
      have hidle := idle_of_counting hcount' (hrxd.trans (hhigh i (by simp)))
      have hfirst : Receives Idle [] s [i] := by
        refine ⟨hidle, ?_, herr, trivial⟩
        rw [arrivals, emitted_cons, arrives_eq_nil hcount (Or.inr Nat.zero_ne_one)]
        rfl
      have hboth : Receives Idle ([] ++ []) s ([i] ++ is) := hfirst.append fun h =>
        ih h (fun k hk => hi k (by simp [hk])) fun k hk => hhigh k (by simp [hk])
      exact hboth

/-- The bytes of a line are received, one after the other. -/
theorem receive_line (hp : p ≠ 0) (hW : W + 2 < 16) (htol : Tolerates p W M) (h : Idle s)
    (hi : ∀ i ∈ is, Driven p i) (hline : Carries M (levels is) bytes) :
    Receives Idle bytes s is := by
  generalize hlevels : levels is = line at hline
  induction hline generalizing s is with
  | nil =>
      have hnil : is = [] := by simpa [levels] using hlevels
      subst hnil
      exact ⟨h, rfl, trivial⟩
  | idle _ ih =>
      obtain ⟨i, is, rfl, hrxd, hrest⟩ := List.map_eq_cons_iff.mp hlevels
      have hfirst : Receives Idle [] s [i] :=
        receive_high h (fun k hk => hi k (by simp_all)) (fun k hk => by simp_all)
      have hboth : Receives Idle ([] ++ _) s ([i] ++ is) := hfirst.append fun h =>
        ih h (fun k hk => hi k (by simp [hk])) hrest
      exact hboth
  | @byte line _ b _ ih =>
      -- the receiver is done with the byte within its stop bit
      obtain ⟨hstart, hend⟩ := htol.stop
      have hframe : (frame M b).length = M * (W + 2) := length_frame b
      have hlen : is.length = M * (W + 2) + line.length := by
        rw [← hframe, ← List.length_append, ← hlevels, levels, List.length_map]
      have htake : levels (is.take (sampleTime p (W + 1))) =
          (frame M b).take (sampleTime p (W + 1)) := by
        rw [levels, List.map_take]
        rw [levels] at hlevels
        rw [hlevels, List.take_append_of_le_length (by omega)]
      have hdrop : levels (is.drop (sampleTime p (W + 1))) =
          List.replicate (M * (W + 2) - sampleTime p (W + 1)) true ++ line := by
        rw [levels, List.map_drop]
        rw [levels] at hlevels
        rw [hlevels, List.drop_append_of_le_length (by omega), drop_frame b (by omega)]
      obtain ⟨hsamples, hlast⟩ := samples_frame htol b
      rw [← htake] at hsamples hlast
      have hbyte : Receives Idle [b] s (is.take (sampleTime p (W + 1))) :=
        receive_byte hp hW h (fun i h => hi i (List.mem_of_mem_take h))
          (List.length_take_of_le (by omega)) hsamples hlast
      rw [← List.take_append_drop (sampleTime p (W + 1)) is]
      refine hbyte.append fun h => ?_
      generalize run step s (is.take (sampleTime p (W + 1))) = s at h
      obtain ⟨pause, rest, hsplit, hpause, hrest⟩ := List.map_eq_append_iff.mp hdrop
      have hmem : ∀ i ∈ pause ++ rest, Driven p i := fun i hmem =>
        hi i (List.mem_of_mem_drop (hsplit ▸ hmem))
      rw [hsplit]
      have hquiet : Receives Idle [] s pause :=
        receive_high h (fun i hi => hmem i (List.mem_append_left _ hi)) fun i hi =>
          List.eq_of_mem_replicate (hpause ▸ List.mem_map_of_mem hi)
      exact hquiet.append fun h => ih h (fun i hi => hmem i (List.mem_append_right _ hi)) hrest

/-- While a line is still coming in, the bytes at its front have been received. -/
theorem receive_prefix (hp : p ≠ 0) (hW : W + 2 < 16) (htol : Tolerates p W M) (h : Idle s)
    (hi : ∀ i ∈ is, Driven p i) (hline : Carries M line bytes) (hpre : levels is <+: line) :
    arrivals s is <+: bytes ∧ NoFrameError s is := by
  obtain ⟨rest, hrest⟩ := hpre
  have hwhole : levels (is ++ rest.map fun level => ⟨false, false, level, p⟩) = line := by
    rw [← hrest, levels, List.map_append, List.map_map]
    exact congrArg _ (List.map_id' rest)
  have hdriven : ∀ i ∈ is ++ rest.map fun level => ⟨false, false, level, p⟩, Driven p i := by
    intro i hmem
    rcases List.mem_append.mp hmem with hmem | hmem
    · exact hi i hmem
    · obtain ⟨level, -, rfl⟩ := List.mem_map.mp hmem
      exact ⟨rfl, rfl⟩
  have hall : Receives Idle bytes s (is ++ rest.map fun level => ⟨false, false, level, p⟩) :=
    receive_line hp hW htol h hdriven (hwhole ▸ hline)
  refine ⟨?_, ((along_append _ _ _ _ _).mp hall.noError).1⟩
  rw [← hall.arrivals, arrivals, arrivals, emitted_append]
  exact List.prefix_append _ _

end Lines

/-! ## The output register -/

section Reads

variable (s : State W) (is : List (Inputs W))

/-- The bytes that the reader takes from the `m_axis` port. -/
def reads : List (BitVec W) :=
  emitted step (fun s i => if s.mAxisTvalid && i.mAxisTready then [s.mAxisTdata] else []) s is

/-- The byte that is offered to the reader. -/
def offered : List (BitVec W) := if s.mAxisTvalid then [s.mAxisTdata] else []

/-- The cycles in which an overrun is reported. -/
def overruns : ℕ :=
  (emitted step (fun s i => if (step s i).overrunError then [()] else []) s is).length

/-- The bytes that arrived are read or offered, in order; each one that is missing has been reported. -/
structure Kept (arrived : List (BitVec W)) : Prop where
  order : List.Sublist (reads s is ++ offered (run step s is)) arrived
  missing : arrived.length ≤ (reads s is ++ offered (run step s is)).length + overruns s is

end Reads

section Output

variable {p : BitVec 16} {s : State W} {i : Inputs W} {is : List (Inputs W)}

theorem step_arrival (hi : Driven p i) (harr : s.prescale = 0 ∧ s.bitCnt = 1 ∧ s.rxd = true) :
    arrives s i = [s.data] ∧ (step s i).mAxisTdata = s.data ∧ (step s i).mAxisTvalid = true ∧
      (step s i).overrunError = s.mAxisTvalid := by
  obtain ⟨hprescale, hbit, hrxd⟩ := harr
  simp [arrives, step, hi.rst, hprescale, hbit, hrxd]

theorem step_no_arrival (hi : Driven p i)
    (harr : ¬(s.prescale = 0 ∧ s.bitCnt = 1 ∧ s.rxd = true)) :
    arrives s i = [] ∧ (step s i).mAxisTdata = s.mAxisTdata ∧
      (step s i).mAxisTvalid = (s.mAxisTvalid && !i.mAxisTready) ∧
      (step s i).overrunError = false := by
  have hnone : arrives s i = [] := by
    refine if_neg fun hall => harr ?_
    simp only [Bool.and_eq_true, beq_iff_eq] at hall
    exact ⟨hall.1.1.2, hall.1.2, hall.2⟩
  have hclear : (s.mAxisTvalid && !(s.mAxisTvalid && i.mAxisTready)) =
      (s.mAxisTvalid && !i.mAxisTready) := by cases s.mAxisTvalid <;> simp
  have hrest : (step s i).mAxisTdata = s.mAxisTdata ∧
      (step s i).mAxisTvalid = (sampled s i).mAxisTvalid ∧ (step s i).overrunError = false := by
    simp only [step, hi.rst, Bool.false_eq_true, if_false]
    by_cases hwait : 0 < s.prescale
    · rw [if_pos hwait]
      exact ⟨rfl, rfl, rfl⟩
    · rw [if_neg hwait]
      by_cases hbit : 0 < s.bitCnt
      · rw [if_pos hbit]
        by_cases hstart : W + 1 < s.bitCnt.toNat
        · rw [if_pos hstart]
          cases s.rxd <;> exact ⟨rfl, rfl, rfl⟩
        · rw [if_neg hstart]
          by_cases hone : 1 < s.bitCnt
          · rw [if_pos hone]
            exact ⟨rfl, rfl, rfl⟩
          · have hrxd : ¬s.rxd = true := fun h => harr ⟨by bv_omega, by bv_omega, h⟩
            rw [if_neg hone, if_neg hrxd]
            exact ⟨rfl, rfl, rfl⟩
      · rw [if_neg hbit]
        cases s.rxd <;> exact ⟨rfl, rfl, rfl⟩
  exact ⟨hnone, hrest.1, hrest.2.1.trans hclear, hrest.2.2⟩

/-- At an edge, the byte that is offered is read, kept, or lost with a report. -/
theorem offered_step (hi : Driven p i) :
    List.Sublist ((if s.mAxisTvalid && i.mAxisTready then [s.mAxisTdata] else []) ++
        offered (step s i)) (offered s ++ arrives s i) ∧
      (offered s ++ arrives s i).length ≤
        ((if s.mAxisTvalid && i.mAxisTready then [s.mAxisTdata] else []) ++
          offered (step s i)).length + (step s i).overrunError.toNat := by
  by_cases harr : s.prescale = 0 ∧ s.bitCnt = 1 ∧ s.rxd = true
  · obtain ⟨harrives, hdata, hvalid, hover⟩ := step_arrival hi harr
    cases hold : s.mAxisTvalid <;> cases hready : i.mAxisTready <;>
      simp [offered, harrives, hdata, hvalid, hover, hold]
  · obtain ⟨harrives, hdata, hvalid, hover⟩ := step_no_arrival hi harr
    cases hold : s.mAxisTvalid <;> cases hready : i.mAxisTready <;>
      simp [offered, harrives, hdata, hvalid, hover, hold, hready]

theorem kept_of_offered (hi : ∀ i ∈ is, Driven p i) :
    Kept s is (offered s ++ arrivals s is) := by
  induction is generalizing s with
  | nil => exact ⟨by simp [reads, arrivals], by simp [reads, arrivals]⟩
  | cons i is ih =>
      obtain ⟨horder, hmissing⟩ := offered_step (s := s) (hi i (by simp))
      obtain ⟨horder', hmissing'⟩ := ih (s := step s i) fun k hk => hi k (by simp [hk])
      refine ⟨?_, ?_⟩
      · calc List.Sublist (reads s (i :: is) ++ offered (run step s (i :: is)))
              ((if s.mAxisTvalid && i.mAxisTready then [s.mAxisTdata] else []) ++
                (offered (step s i) ++ arrivals (step s i) is)) := by
                rw [reads, emitted_cons, List.append_assoc]
                exact horder'.append_left _
          List.Sublist _ (offered s ++ arrives s i ++ arrivals (step s i) is) := by
                rw [← List.append_assoc]
                exact horder.append_right _
          _ = offered s ++ arrivals s (i :: is) := by
                rw [List.append_assoc]
                rfl
      · have hover : overruns s (i :: is) =
            (step s i).overrunError.toNat + overruns (step s i) is := by
          rw [overruns, emitted_cons, List.length_append]
          cases (step s i).overrunError <;> rfl
        rw [hover, reads, arrivals, emitted_cons, emitted_cons, run_cons]
        rw [reads, arrivals] at hmissing'
        simp only [List.length_append] at hmissing hmissing' ⊢
        omega

/-- A reader that is always ready loses nothing. -/
theorem overruns_of_ready (h : s.mAxisTvalid = true → s.bitCnt = 0) (hi : ∀ i ∈ is, Driven p i)
    (hready : ∀ i ∈ is, i.mAxisTready = true) : overruns s is = 0 := by
  induction is generalizing s with
  | nil => rfl
  | cons i is ih =>
      have hdriven := hi i (by simp)
      have htakes := hready i (by simp)
      have hedge : (step s i).overrunError = false ∧
          ((step s i).mAxisTvalid = true → (step s i).bitCnt = 0) := by
        by_cases harr : s.prescale = 0 ∧ s.bitCnt = 1 ∧ s.rxd = true
        · obtain ⟨-, -, -, hover⟩ := step_arrival hdriven harr
          have hcount : Counting s 1 0 := ⟨by simp [harr.2.1], by simp [harr.1]⟩
          obtain ⟨hdone, -⟩ := step_stop hdriven hcount harr.2.2
          refine ⟨?_, fun _ => BitVec.eq_of_toNat_eq hdone.bitCnt⟩
          rw [hover]
          by_contra hvalid
          have hzero := h (by simpa using hvalid)
          rw [harr.2.1] at hzero
          exact absurd hzero (by decide)
        · obtain ⟨-, -, hvalid, hover⟩ := step_no_arrival hdriven harr
          exact ⟨hover, by simp [hvalid, htakes]⟩
      have hrest := ih hedge.2 (fun k hk => hi k (by simp [hk])) fun k hk => hready k (by simp [hk])
      rw [overruns] at hrest ⊢
      rw [emitted_cons, List.length_append, hrest, hedge.1]
      rfl

theorem Kept.all {arrived : List (BitVec W)} (h : Kept s is arrived) (hover : overruns s is = 0) :
    reads s is ++ offered (run step s is) = arrived := by
  have hmissing := h.missing
  rw [hover, Nat.add_zero] at hmissing
  exact h.order.eq_of_length_le hmissing

theorem offered_of_reset (hr : i.rst = true) : offered (step s i) = [] := by
  simp [offered, step, hr]

theorem idle_of_reset (hr : i.rst = true) : Idle (step s i) := by
  constructor <;> simp [step, hr]

end Output

/-- What is received of a line: its bytes in order, without a framing error, as far as the reader takes
them. -/
structure Decodes (s : State W) (is : List (Inputs W)) (arrived : List (BitVec W)) : Prop where
  kept : Kept s is arrived
  noError : NoFrameError s is

theorem Receives.decodes {P : State W → Prop} {bytes : List (BitVec W)} {p : BitVec 16}
    {s : State W} {is : List (Inputs W)} (h : Receives P bytes s is) (hs : offered s = [])
    (hi : ∀ i ∈ is, Driven p i) : Decodes s is bytes := by
  refine ⟨?_, h.noError⟩
  have hkept := kept_of_offered (s := s) hi
  rwa [hs, List.nil_append, h.arrivals] at hkept

/-- From reset, the bytes that a line carries are received, if the bits on the line last about as long
as those of the receiver. -/
theorem decodes_line {p : BitVec 16} {M : ℕ} (s₀ : State W) {r : Inputs W} {is : List (Inputs W)}
    {bytes : List (BitVec W)} (hp : p ≠ 0) (hW : W + 2 < 16) (htol : Tolerates p W M)
    (hr : r.rst = true) (hi : ∀ i ∈ is, Driven p i) (hline : Carries M (levels is) bytes) :
    Decodes (step s₀ r) is bytes :=
  (receive_line hp hW htol (idle_of_reset hr) hi hline).decodes (offered_of_reset hr) hi

/-- A cycle of a receiver with bits of 32 cycles. -/
def cycleInputs (rst rxd : Bool) : Inputs 8 := ⟨rst, true, rxd, 4⟩

/-- A byte from a sender that takes 33 cycles for each bit. -/
theorem decodes_line_slow :
    let is := (frame 33 (0x5a : BitVec 8)).map (cycleInputs false)
    reads (step default (cycleInputs true true)) is = [0x5a] ∧
      Decodes (step default (cycleInputs true true)) is [0x5a] := by
  have htol : Tolerates 4 8 33 := by
    show ∀ k ≤ 9, 33 * k < 4 * 4 + 8 * 4 * k ∧ 4 * 4 + 8 * 4 * k < 33 * (k + 1)
    omega
  have hline : Carries 33 (levels ((frame 33 (0x5a : BitVec 8)).map (cycleInputs false)))
      [(0x5a : BitVec 8)] := by
    rw [levels, List.map_map]
    exact (List.map_id' (frame 33 (0x5a : BitVec 8))).symm ▸ Carries.single 33 0x5a
  have hdriven : ∀ i ∈ (frame 33 (0x5a : BitVec 8)).map (cycleInputs false), Driven 4 i := by
    intro i hi
    obtain ⟨_, _, rfl⟩ := List.mem_map.mp hi
    exact ⟨rfl, rfl⟩
  exact ⟨by decide +kernel,
    decodes_line default (by decide) (by decide) htol rfl hdriven hline⟩

end MiscVerilogCores.UartRx
