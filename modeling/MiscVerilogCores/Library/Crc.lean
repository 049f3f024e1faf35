import Mathlib.Data.BitVec
import Mathlib.Data.List.Induction

/-! # Cyclic redundancy checks

A shift register with feedback, fed bit by bit. The register is linear in its content and in
the bits, so a message followed by the complement of its check bits leaves a value that does
not depend on the message; no other check bits do. -/

namespace MiscVerilogCores.Crc

variable {w : ℕ} (poly : BitVec w)

/-- One bit into the register. -/
def stepBit (c : BitVec w) (b : Bool) : BitVec w :=
  (c <<< 1) ^^^ if c.msb ^^ b then poly else 0

/-- The register after some bits, first one first. -/
def feed (c : BitVec w) (bits : List Bool) : BitVec w :=
  bits.foldl (stepBit poly) c

/-- The bits of a register, the most significant one first. -/
def bits (c : BitVec w) : List Bool :=
  (List.range w).map c.getMsbD

@[simp] theorem length_bits (c : BitVec w) : (bits c).length = w := by
  simp [bits]

@[simp] theorem feed_nil (c : BitVec w) : feed poly c [] = c := rfl

@[simp] theorem feed_cons (c : BitVec w) (b : Bool) (bs : List Bool) :
    feed poly c (b :: bs) = feed poly (stepBit poly c b) bs := rfl

theorem feed_append (c : BitVec w) (bs bs' : List Bool) :
    feed poly c (bs ++ bs') = feed poly (feed poly c bs) bs' := by
  simp [feed]

/-! ## Linearity -/

theorem stepBit_xor (c c' : BitVec w) (b b' : Bool) :
    stepBit poly (c ^^^ c') (b ^^ b') = stepBit poly c b ^^^ stepBit poly c' b' := by
  have hbit : ((c ^^^ c').msb ^^ (b ^^ b')) = ((c.msb ^^ b) ^^ (c'.msb ^^ b')) := by
    rw [BitVec.msb_xor]
    cases c.msb <;> cases c'.msb <;> cases b <;> cases b' <;> rfl
  have hfeedback : ∀ p q : Bool, (if p ^^ q then poly else 0) =
      (if p then poly else 0) ^^^ if q then poly else 0 := by
    intro p q
    cases p <;> cases q <;> simp
  rw [stepBit, stepBit, stepBit, hbit, BitVec.shiftLeft_xor_distrib, hfeedback]
  ac_rfl

theorem feed_xor (c c' : BitVec w) {bs bs' : List Bool} (h : bs.length = bs'.length) :
    feed poly (c ^^^ c') (List.zipWith xor bs bs') = feed poly c bs ^^^ feed poly c' bs' := by
  induction bs generalizing c c' bs' with
  | nil =>
      obtain rfl : bs' = [] := List.eq_nil_of_length_eq_zero h.symm
      rfl
  | cons b bs ih =>
      cases bs' with
      | nil => simp at h
      | cons b' bs' =>
          rw [List.zipWith_cons_cons, feed_cons, stepBit_xor]
          exact ih _ _ (by simpa using h)

/-- Linear maps that agree on the powers of two are equal. -/
theorem linear_ext {n m : ℕ} {f g : BitVec n → BitVec m}
    (hf : ∀ x y, f (x ^^^ y) = f x ^^^ f y) (hg : ∀ x y, g (x ^^^ y) = g x ^^^ g y)
    (h : ∀ k < n, f (BitVec.twoPow n k) = g (BitVec.twoPow n k)) (x : BitVec n) : f x = g x := by
  have hzero : ∀ {k : BitVec n → BitVec m}, (∀ x y, k (x ^^^ y) = k x ^^^ k y) → k 0 = 0 := by
    intro k hk
    simpa using hk 0 0
  -- induction on the number of low bits that are kept
  have hlow : ∀ k ≤ n, f ((x.setWidth k).setWidth n) = g ((x.setWidth k).setWidth n) := by
    intro k hk
    induction k with
    | zero =>
        have hnil : (x.setWidth 0).setWidth n = 0 := by
          apply BitVec.eq_of_getLsbD_eq
          simp
        rw [hnil, hzero hf, hzero hg]
    | succ k ih =>
        have hsplit : (x.setWidth (k + 1)).setWidth n =
            (x.setWidth k).setWidth n ^^^ if x.getLsbD k then BitVec.twoPow n k else 0 := by
          apply BitVec.eq_of_getLsbD_eq
          intro j hj
          have hlow : ∀ k, ((x.setWidth k).setWidth n).getLsbD j =
              (decide (j < k) && x.getLsbD j) := by
            simp [BitVec.getLsbD_setWidth, hj]
          have hone : (if x.getLsbD k then BitVec.twoPow n k else 0).getLsbD j =
              (decide (k = j) && x.getLsbD j) := by
            by_cases hkj : k = j
            · subst hkj
              cases hx : x.getLsbD k <;> simp [hj]
            · split <;> simp [hkj]
          rw [BitVec.getLsbD_xor, hlow, hlow, hone]
          rcases Nat.lt_trichotomy j k with hjk | rfl | hjk
          · simp [hjk, hjk.ne', Nat.lt_succ_of_lt hjk]
          · simp
          · simp [hjk.ne, Nat.not_lt.mpr hjk.le, show ¬ j < k + 1 by omega]
        rw [hsplit, hf, hg, ih (by omega)]
        split
        · rw [h k (by omega)]
        · rw [hzero hf, hzero hg]
  simpa using hlow n le_rfl

/-! ## Check bits -/

/-- The bits of the register itself clear it. -/
theorem feed_bits (c : BitVec w) : feed poly c (bits c) = 0 := by
  have hshift : ∀ k ≤ w, feed poly c ((List.range k).map c.getMsbD) = c <<< k := by
    intro k hk
    induction k with
    | zero => simp
    | succ k ih =>
        rw [List.range_succ, List.map_append, feed_append, ih (by omega)]
        simp [stepBit, BitVec.msb_shiftLeft, BitVec.shiftLeft_add]
  rw [bits, hshift w le_rfl]
  simp

theorem feed_zero {bs : List Bool} (h : ∀ b ∈ bs, b = false) : feed poly 0 bs = 0 := by
  induction bs with
  | nil => rfl
  | cons b bs ih =>
      have hb : stepBit poly 0 b = 0 := by simp [stepBit, h b (by simp)]
      rw [feed_cons, hb]
      exact ih fun b' hb' => h b' (List.mem_cons_of_mem _ hb')

/-- At most `w` bits that leave a clear register clear are all zero. -/
theorem eq_false_of_feed_zero (hpoly : poly.getLsbD 0 = true) {bs : List Bool}
    (hlen : bs.length ≤ w) (h : feed poly 0 bs = 0) : ∀ b ∈ bs, b = false := by
  -- going back one bit leaves one low bit less that is known to be clear
  have hback : ∀ j, bs.length + j ≤ w → (∀ k < w - j, (feed poly 0 bs).getLsbD k = false) →
      ∀ b ∈ bs, b = false := by
    clear h hlen
    induction bs using List.reverseRecOn with
    | nil => simp
    | append_singleton bs b ih =>
        intro j hj hlow
        rw [List.length_append, List.length_singleton] at hj
        rw [feed_append, feed_cons, feed_nil] at hlow
        have hfeedback : ((feed poly 0 bs).msb ^^ b) = false := by
          have hbit := hlow 0 (by omega)
          cases hfb : (feed poly 0 bs).msb ^^ b
          · rfl
          · rw [stepBit, hfb, if_pos rfl] at hbit
            simp [hpoly] at hbit
        have hprev : ∀ b ∈ bs, b = false := by
          apply ih (j + 1) (by omega)
          intro k hk
          have hbit := hlow (k + 1) (by omega)
          rw [stepBit, hfeedback] at hbit
          rw [BitVec.getLsbD_eq_getElem (by omega)]
          simpa [show k + 1 < w by omega] using hbit
        have hclear : feed poly 0 bs = 0 := feed_zero poly hprev
        have hmsb : (0 : BitVec w).msb = false := by simp
        rw [hclear, hmsb, Bool.false_xor] at hfeedback
        intro b' hb'
        rcases List.mem_append.mp hb' with hb' | hb'
        · exact hprev b' hb'
        · rwa [List.mem_singleton.mp hb']
  refine hback 0 (by omega) fun k _ => ?_
  rw [h]
  simp

/-- At most `w` bits are told apart by the register. -/
theorem eq_of_feed_eq (hpoly : poly.getLsbD 0 = true) {c : BitVec w} {bs bs' : List Bool}
    (hsame : bs.length = bs'.length) (hlen : bs.length ≤ w)
    (h : feed poly c bs = feed poly c bs') : bs = bs' := by
  have hdiff := feed_xor poly c c hsame
  rw [h, BitVec.xor_self, BitVec.xor_self] at hdiff
  have hnone := eq_false_of_feed_zero poly hpoly (by simp [← hsame, hlen]) hdiff
  apply List.ext_getElem hsame
  intro k hk hk'
  have hpair : (bs[k] ^^ bs'[k]) ∈ List.zipWith xor bs bs' :=
    List.mem_iff_getElem.mpr ⟨k, by simpa using ⟨hk, hk'⟩, by simp⟩
  have hbit := hnone _ hpair
  revert hbit
  cases bs[k] <;> cases bs'[k] <;> simp

/-- The check bits of a message are the complement of the register: they are the only ones that
leave the value which as many ones leave in a clear register. -/
theorem feed_eq_residue_iff (hpoly : poly.getLsbD 0 = true) (c : BitVec w) {bs : List Bool}
    (hlen : bs.length = w) :
    feed poly c bs = feed poly 0 (List.replicate w true) ↔ bs = (bits c).map not := by
  have hones : List.zipWith xor (bits c) (List.replicate w true) = (bits c).map not := by
    apply List.ext_getElem
    · simp
    · intro k hk hk'
      simp
  have hcheck : feed poly c ((bits c).map not) = feed poly 0 (List.replicate w true) := by
    have hsum := feed_xor poly c 0 (show (bits c).length = (List.replicate w true).length by simp)
    have hzero : ∀ v : BitVec w, v ^^^ 0 = v ∧ 0 ^^^ v = v := by simp
    rwa [hones, feed_bits, (hzero _).1, (hzero _).2] at hsum
  constructor
  · intro h
    exact eq_of_feed_eq poly hpoly (by simp [hlen]) hlen.le (h.trans hcheck.symm)
  · rintro rfl
    exact hcheck

/-! ## Bursts -/

theorem stepBit_injective (hpoly : poly.getLsbD 0 = true) {c d : BitVec w} {b : Bool}
    (h : stepBit poly c b = stepBit poly d b) : c = d := by
  have hdiff := stepBit_xor poly c d b b
  rw [h, BitVec.xor_self, Bool.xor_self] at hdiff
  have hmsb : (c ^^^ d).msb = false := by
    by_contra hset
    rw [stepBit, Bool.xor_false, if_pos (by simpa using hset)] at hdiff
    have hbit := congrArg (fun v : BitVec w => v.getLsbD 0) hdiff
    simp [hpoly] at hbit
  rw [stepBit, hmsb, Bool.xor_false, if_neg (by simp)] at hdiff
  have hzero : c ^^^ d = 0 := by
    apply BitVec.eq_of_getLsbD_eq
    intro k hk
    by_cases hlast : k + 1 = w
    · rw [BitVec.msb_eq_getLsbD_last, show w - 1 = k by omega] at hmsb
      rw [hmsb]
      simp
    · have hbit := congrArg (fun v : BitVec w => v.getLsbD (k + 1)) hdiff
      have hsame : c.getLsbD k = d.getLsbD k := by
        simpa [show k + 1 < w by omega, ← BitVec.getLsbD_eq_getElem] using hbit
      rw [BitVec.getLsbD_xor, hsame, Bool.xor_self]
      simp
  exact BitVec.xor_eq_zero_iff.mp hzero

theorem feed_injective (hpoly : poly.getLsbD 0 = true) {c c' : BitVec w} {bs : List Bool}
    (h : feed poly c bs = feed poly c' bs) : c = c' := by
  induction bs generalizing c c' with
  | nil => exact h
  | cons b bs ih => exact stepBit_injective poly hpoly (ih h)

/-- Messages that differ, within `w` consecutive bits, leave different registers. -/
theorem feed_ne_of_burst (hpoly : poly.getLsbD 0 = true) (c : BitVec w) {bs bs' : List Bool}
    (hsame : bs.length = bs'.length) (hne : bs ≠ bs') {k : ℕ}
    (hburst : ∀ n, bs[n]? ≠ bs'[n]? → k ≤ n ∧ n < k + w) : feed poly c bs ≠ feed poly c bs' := by
  have hcut : ∀ l : List Bool, l = l.take k ++ ((l.drop k).take w ++ (l.drop k).drop w) := by
    intro l
    rw [List.take_append_drop, List.take_append_drop]
  have hfront : bs.take k = bs'.take k := by
    apply List.ext_getElem?
    intro n
    rw [List.getElem?_take, List.getElem?_take]
    split
    · by_contra hd
      have := hburst n hd
      omega
    · rfl
  have hback : (bs.drop k).drop w = (bs'.drop k).drop w := by
    apply List.ext_getElem?
    intro n
    simp only [List.drop_drop, List.getElem?_drop]
    by_contra hd
    have := hburst _ hd
    omega
  intro h
  rw [hcut bs, hcut bs', hfront, hback, feed_append, feed_append, feed_append, feed_append] at h
  have hmid := eq_of_feed_eq poly hpoly (by simp [hsame]) (by simp) (feed_injective poly hpoly h)
  exact hne (by rw [hcut bs, hcut bs', hfront, hback, hmid])

/-! ## The reflected register -/

/-- One bit into a register that is shifted the other way. -/
def stepBitReflected (c : BitVec w) (b : Bool) : BitVec w :=
  (c >>> 1) ^^^ if c.getLsbD 0 ^^ b then poly.reverse else 0

theorem stepBit_reverse (c : BitVec w) (b : Bool) :
    (stepBit poly c b).reverse = stepBitReflected poly c.reverse b := by
  have hlow : c.reverse.getLsbD 0 = c.msb := by
    rw [BitVec.getLsbD_reverse, BitVec.msb]
  have hfeedback : (if c.msb ^^ b then poly else 0).reverse =
      if c.msb ^^ b then poly.reverse else 0 := by
    split
    · rfl
    · apply BitVec.eq_of_getLsbD_eq
      simp [BitVec.getLsbD_reverse]
  rw [stepBitReflected, hlow, ← hfeedback]
  apply BitVec.eq_of_getLsbD_eq
  intro k hk
  simp only [stepBit, BitVec.getLsbD_reverse, BitVec.getMsbD_xor, BitVec.getLsbD_xor,
    BitVec.getMsbD_shiftLeft, BitVec.getLsbD_ushiftRight, Nat.add_comm k 1]

theorem foldl_stepBitReflected (c : BitVec w) (bs : List Bool) :
    bs.foldl (stepBitReflected poly) c.reverse = (feed poly c bs).reverse := by
  induction bs generalizing c with
  | nil => rfl
  | cons b bs ih => rw [List.foldl_cons, feed_cons, ← ih, stepBit_reverse]

end MiscVerilogCores.Crc
