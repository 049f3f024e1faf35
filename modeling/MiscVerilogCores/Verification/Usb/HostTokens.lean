import MiscVerilogCores.Verification.Usb.HostCrc
import MiscVerilogCores.Verification.Usb.Tokens

/-! # The CRC5 of the host model

The check register of the host is kept above the bits that are still to come into it. What is
behind them at the end is the token that the core accepts. -/

namespace MiscVerilogCores.UsbCrc

open Crc Usb

/-! ## One bit -/

theorem crc5Shift_eq (crc : BitVec 16) :
    crc5Shift crc = (crc >>> 1) ^^^ if crc.getLsbD 11 ^^ crc.getLsbD 0 then 0xa000 else 0 := by
  have hmask : (crc ^^^ (crc <<< 11)) &&& 0x0800 =
      if crc.getLsbD 11 ^^ crc.getLsbD 0 then 0x0800 else 0 := by
    have hbit : (crc ^^^ (crc <<< 11)).getLsbD 11 = (crc.getLsbD 11 ^^ crc.getLsbD 0) := by simp
    rw [show (0x0800 : BitVec 16) = BitVec.twoPow 16 11 from rfl, BitVec.and_twoPow, hbit]
    rfl
  rw [crc5Shift, hmask]
  cases crc.getLsbD 11 ^^ crc.getLsbD 0 <;> rfl

/-- The register takes the lowest bit of the data. -/
theorem crc5Shift_high (crc : BitVec 16) :
    (crc5Shift crc).extractLsb' 11 5 =
      stepBitReflected poly5 (crc.extractLsb' 11 5) (crc.getLsbD 0) := by
  have hpoly : ((if crc.getLsbD 11 ^^ crc.getLsbD 0 then 0xa000 else 0 : BitVec 16)).extractLsb' 11 5 =
      if crc.getLsbD 11 ^^ crc.getLsbD 0 then poly5.reverse else 0 := by
    cases crc.getLsbD 11 ^^ crc.getLsbD 0 <;> decide
  have hshift : (crc >>> 1).extractLsb' 11 5 = crc.extractLsb' 11 5 >>> 1 := by
    apply BitVec.eq_of_getLsbD_eq
    intro k hk
    simp only [BitVec.getLsbD_extractLsb', BitVec.getLsbD_ushiftRight]
    by_cases hlast : 1 + k < 5
    · simp [hk, hlast, show 1 + (11 + k) = 11 + (1 + k) by omega]
    · simp [hk, hlast, BitVec.getLsbD_of_ge crc (1 + (11 + k)) (by omega)]
  rw [crc5Shift_eq, BitVec.extractLsb'_xor, hpoly, hshift, stepBitReflected]
  simp

/-- The other bits of the data move up. -/
theorem crc5Shift_low (crc : BitVec 16) {k : ℕ} (hk : k < 11) :
    (crc5Shift crc).getLsbD k = crc.getLsbD (k + 1) := by
  have hno : (if crc.getLsbD 11 ^^ crc.getLsbD 0 then 0xa000 else 0 : BitVec 16).getLsbD k = false := by
    cases crc.getLsbD 11 ^^ crc.getLsbD 0
    · simp
    · revert k
      decide
  rw [crc5Shift_eq, BitVec.getLsbD_xor, hno, Bool.xor_false, BitVec.getLsbD_ushiftRight,
    Nat.add_comm]

theorem iterate_crc5Shift_low (crc : BitVec 16) (n : ℕ) {k : ℕ} (hk : k + n < 12) :
    (crc5Shift^[n] crc).getLsbD k = crc.getLsbD (k + n) := by
  induction n generalizing crc with
  | zero => rfl
  | succ n ih =>
      rw [Function.iterate_succ_apply, ih _ (by omega), crc5Shift_low _ (by omega), Nat.add_assoc]

theorem iterate_crc5Shift_high (crc : BitVec 16) {n : ℕ} (hn : n ≤ 11) :
    (crc5Shift^[n] crc).extractLsb' 11 5 =
      ((List.range n).map crc.getLsbD).foldl (stepBitReflected poly5) (crc.extractLsb' 11 5) := by
  induction n with
  | zero => rfl
  | succ n ih =>
      rw [Function.iterate_succ_apply', crc5Shift_high, ih (by omega), List.range_succ,
        List.map_append, List.foldl_append, iterate_crc5Shift_low crc n (by omega)]
      simp

/-! ## A token -/

theorem getLsbD_dataMask {k : ℕ} (hk : k < 16) :
    (0x07ff : BitVec 16).getLsbD k = decide (k < 11) ∧
      (0xf800 : BitVec 16).getLsbD k = decide (11 ≤ k) := by
  revert k
  decide

/-- Behind the eleven bits of the token stand the check bits of the core. -/
theorem crc5Calc_eq (dat : BitVec 16) :
    crc5Calc dat = crc5 (dat.setWidth 11) ++ (dat.setWidth 11 : BitVec 11) := by
  let crc : BitVec 16 := crc5StartReflected ||| (dat &&& 0x07ff)
  have hcrc : ∀ k < 16, crc.getLsbD k = (decide (11 ≤ k) || dat.getLsbD k) := by
    intro k hk
    obtain ⟨hlow, hhigh⟩ := getLsbD_dataMask hk
    rw [BitVec.getLsbD_or, BitVec.getLsbD_and, crc5StartReflected, hlow, hhigh]
    by_cases hdat : k < 11
    · simp [hdat]
    · simp [Nat.not_lt.mp hdat]
  have hdata : (List.range 11).map crc.getLsbD = wire (dat.setWidth 11 : BitVec 11) := by
    apply List.map_congr_left
    intro k hk
    have hlt := List.mem_range.mp hk
    rw [hcrc k (by omega)]
    simp [hlt]
  have hstart : crc.extractLsb' 11 5 = (0x1f : BitVec 5).reverse := by
    have hones : (0x1f : BitVec 5).reverse = BitVec.allOnes 5 := by decide
    apply BitVec.eq_of_getLsbD_eq
    intro k hk
    rw [BitVec.getLsbD_extractLsb', hcrc _ (by omega), hones, BitVec.getLsbD_allOnes]
    simp
  have hsum : crc5 (dat.setWidth 11) = ~~~(crc5Shift^[11] crc).extractLsb' 11 5 := by
    apply wire_injective
    rw [iterate_crc5Shift_high crc le_rfl, hdata, hstart, foldl_stepBitReflected, wire_not_reverse,
      wire_crc5]
  rw [hsum]
  apply BitVec.eq_of_getLsbD_eq
  intro k hk
  obtain ⟨hlow, hhigh⟩ := getLsbD_dataMask hk
  rw [crc5Calc, BitVec.getLsbD_append, BitVec.getLsbD_or, BitVec.getLsbD_and, BitVec.getLsbD_and,
    hlow, hhigh]
  by_cases hdat : k < 11
  · simp [hdat]
  · have hcrc : 11 + (k - 11) = k := by omega
    simp [crc, hdat, hk, hcrc, show 11 ≤ k by omega, show k - 11 < 5 by omega]

/-- The fields of a token, in the two bytes of which it is made. -/
theorem token_fields (c : BitVec 5) (d : BitVec 11) :
    let b₀ : BitVec 8 := (c ++ d).setWidth 8
    let b₁ : BitVec 8 := ((c ++ d) >>> 8).setWidth 8
    (b₁.setWidth 3 : BitVec 3) ++ b₀ = d ∧ b₁.extractLsb' 3 5 = c ∧ b₀.setWidth 7 = d.setWidth 7 ∧
      (b₁.setWidth 3 : BitVec 3) ++ BitVec.ofBool b₀.msb = d.extractLsb' 7 4 := by
  have hlow : ∀ k < 11, (c ++ d).getLsbD k = d.getLsbD k := by
    intro k hk
    rw [BitVec.getLsbD_append, if_pos hk]
  have hhigh : ∀ k, (c ++ d).getLsbD (11 + k) = c.getLsbD k := by
    intro k
    rw [BitVec.getLsbD_append, if_neg (by omega), Nat.add_sub_cancel_left]
  generalize c ++ d = w at hlow hhigh
  refine ⟨?_, ?_, ?_, ?_⟩ <;> apply BitVec.eq_of_getLsbD_eq <;> intro k hk
  · rw [BitVec.getLsbD_append]
    by_cases hbyte : k < 8
    · rw [if_pos hbyte, BitVec.getLsbD_setWidth, hlow k (by omega)]
      simp [hbyte]
    · rw [if_neg hbyte, BitVec.getLsbD_setWidth, BitVec.getLsbD_setWidth, BitVec.getLsbD_ushiftRight,
        show 8 + (k - 8) = k by omega, hlow k (by omega)]
      simp [show k - 8 < 3 by omega, show k - 8 < 8 by omega]
  · rw [BitVec.getLsbD_extractLsb', BitVec.getLsbD_setWidth, BitVec.getLsbD_ushiftRight,
      show 8 + (3 + k) = 11 + k by omega, hhigh k]
    simp [hk, show 3 + k < 8 by omega]
  · rw [BitVec.getLsbD_setWidth, BitVec.getLsbD_setWidth, BitVec.getLsbD_setWidth, hlow k (by omega)]
    simp [hk, show k < 8 by omega]
  · rw [BitVec.getLsbD_append, BitVec.getLsbD_extractLsb']
    by_cases hbit : k < 1
    · obtain rfl : k = 0 := by omega
      have hmsb : (w.setWidth 8).msb = d.getLsbD 7 := by
        rw [BitVec.msb_eq_getLsbD_last, BitVec.getLsbD_setWidth, hlow 7 (by omega)]
        rfl
      rw [if_pos hbit, hmsb]
      simp
    · rw [if_neg hbit, BitVec.getLsbD_setWidth, BitVec.getLsbD_setWidth, BitVec.getLsbD_ushiftRight,
        show 8 + (k - 1) = 7 + k by omega, hlow (7 + k) (by omega)]
      simp [show k - 1 < 3 by omega, show k - 1 < 8 by omega, hk]

/-- The core accepts the two bytes, and finds the address and the end-point in them. -/
theorem tokenFor_crc5Calc (pid : BitVec 4) (dat : BitVec 16) :
    UlpiDecoder.TokenFor pid (dat.setWidth 7) (dat.extractLsb' 7 4)
      [UlpiDecoder.pidByte pid, (crc5Calc dat).setWidth 8, (crc5Calc dat >>> 8).setWidth 8] := by
  rw [crc5Calc_eq]
  obtain ⟨hdata, hcrc, haddr, hendp⟩ := token_fields (crc5 (dat.setWidth 11)) (dat.setWidth 11)
  refine ⟨_, _, rfl, (UlpiDecoder.tokenOk_iff _ _).mp ?_, ?_, ?_⟩
  · rw [UlpiDecoder.tokenOk, hdata, hcrc, beq_iff_eq]
  · rw [haddr, BitVec.setWidth_setWidth_of_le _ (by decide)]
  · rw [hendp]
    apply BitVec.eq_of_getLsbD_eq
    intro k hk
    simp [hk, show 7 + k < 11 by omega]

end MiscVerilogCores.UsbCrc
