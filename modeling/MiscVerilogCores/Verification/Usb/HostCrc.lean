import MiscVerilogCores.Model.UlpiEncoder
import MiscVerilogCores.Model.UsbCrc
import MiscVerilogCores.Verification.Usb.Crc

/-! # The CRC16 of the host model

The reflected register of the host is the register of the core, read backwards. Both ends
therefore accept the same packets, and they reject a packet that is changed within sixteen
consecutive bits. -/

namespace MiscVerilogCores.UsbCrc

open Crc Usb

/-! ## One byte -/

theorem mask_mul (x : BitVec 16) (poly : BitVec 16) :
    (x &&& 0x01) * poly = if x.getLsbD 0 then poly else 0 := by
  have hmask : x &&& 0x01 = (BitVec.ofBool (x.getLsbD 0)).setWidth 16 :=
    BitVec.and_one_eq_setWidth_ofBool_getLsbD
  rw [hmask]
  cases x.getLsbD 0 <;> simp

theorem Loop.shift_eq (l : Loop) :
    l.shift = ⟨stepBitReflected poly16 l.crc (l.val.getLsbD 0), l.val >>> 1⟩ := by
  have hpoly : crc16PolynReflected = poly16.reverse := by decide
  rw [Loop.shift, mask_mul, hpoly, BitVec.getLsbD_xor, stepBitReflected,
    Bool.xor_comm (l.val.getLsbD 0)]

theorem Loop.iterate_shift (l : Loop) (n : ℕ) :
    (Loop.shift^[n] l).crc =
      ((List.range n).map l.val.getLsbD).foldl (stepBitReflected poly16) l.crc := by
  induction n generalizing l with
  | zero => rfl
  | succ n ih =>
      rw [Function.iterate_succ_apply, ih, Loop.shift_eq, List.range_succ_eq_map, List.map_cons,
        List.foldl_cons, List.map_map]
      congr 2
      funext k
      simp [Nat.add_comm]

theorem crc16Byte_reverse (c : BitVec 16) (byte : BitVec 8) :
    crc16Byte c.reverse byte = (crc16 byte c).reverse := by
  have hbits : (List.range 8).map (byte.setWidth 16).getLsbD = wire byte := by
    apply List.map_congr_left
    intro k hk
    have hlt := List.mem_range.mp hk
    simp [show k < 16 by omega]
  rw [crc16Byte, Loop.iterate_shift, hbits, foldl_stepBitReflected, crc16_eq_feed]

/-! ## A packet -/

/-- The register of the host is that of the core, bit-reversed. -/
theorem foldl_crc16Byte (ptr : List (BitVec 8)) :
    ptr.foldl crc16Byte crc16StartReflected = (crc16s ptr).reverse := by
  have hstart : crc16StartReflected = (0xffff : BitVec 16).reverse := by decide
  rw [hstart, crc16s]
  generalize (0xffff : BitVec 16) = c
  induction ptr generalizing c with
  | nil => rfl
  | cons byte ptr ih => rw [List.foldl_cons, List.foldl_cons, crc16Byte_reverse, ih]

theorem crc16Calc_eq (ptr : List (BitVec 8)) : crc16Calc ptr = ~~~(crc16s ptr).reverse := by
  rw [crc16Calc, foldl_crc16Byte]

theorem crc16Check_iff (ptr : List (BitVec 8)) : crc16Check ptr = true ↔ crc16s ptr = 0x800d := by
  have hresid : crc16ResidReflected = (0x800d : BitVec 16).reverse := by decide
  have hrev : ∀ x y : BitVec 16, x.reverse = y.reverse → x = y := by
    intro x y h
    rw [← BitVec.reverse_reverse_eq (x := x), h, BitVec.reverse_reverse_eq]
  rw [crc16Check, crc16Calc_eq, BitVec.not_not, hresid, beq_iff_eq]
  exact ⟨hrev _ _, fun h => by rw [h]⟩

/-- The check sum that the encoder sends is the one that the host computes, and the decoder
accepts what the host accepts. -/
theorem crc16_agrees (p : List (BitVec 8)) :
    UlpiEncoder.crc16Nw (crc16s p) = crc16Calc p ∧
      ∀ lo hi : BitVec 8, crc16s (p ++ [lo, hi]) = 0x800d ↔ crc16Check (p ++ [lo, hi]) = true :=
  ⟨(crc16Calc_eq p).symm, fun _ _ => (crc16Check_iff _).symm⟩

/-! ## Damaged packets -/

/-- A payload with its check sum, the low byte first. -/
def packet (payload : List (BitVec 8)) : List (BitVec 8) :=
  payload ++ [(crc16Calc payload).setWidth 8, (crc16Calc payload >>> 8).setWidth 8]

/-- The bits of a packet, in the order in which they are transmitted. -/
def transmitted (bytes : List (BitVec 8)) : List Bool :=
  bytes.flatMap wire

/-- All bits in which two packets differ lie within some sixteen consecutive ones. -/
def Burst (bytes bytes' : List (BitVec 8)) : Prop :=
  ∃ k, ∀ n, (transmitted bytes)[n]? ≠ (transmitted bytes')[n]? → k ≤ n ∧ n < k + 16

theorem length_transmitted (bytes : List (BitVec 8)) :
    (transmitted bytes).length = bytes.length * 8 := by
  simp [transmitted, List.length_flatMap]

theorem transmitted_injective {bytes bytes' : List (BitVec 8)}
    (h : transmitted bytes = transmitted bytes') : bytes = bytes' := by
  induction bytes generalizing bytes' with
  | nil =>
      have hlen := congrArg List.length h
      rw [length_transmitted, length_transmitted] at hlen
      exact (List.eq_nil_of_length_eq_zero (by simpa using hlen.symm)).symm
  | cons b bytes ih =>
      cases bytes' with
      | nil =>
          have hlen := congrArg List.length h
          simp [length_transmitted] at hlen
      | cons b' bytes' =>
          obtain ⟨hb, hrest⟩ := List.append_inj h (by simp)
          rw [wire_injective hb, ih hrest]

/-- Two bytes are accepted behind a payload exactly when they are its check sum. -/
theorem crc16Check_append_iff (payload : List (BitVec 8)) (a b : BitVec 8) :
    crc16Check (payload ++ [a, b]) = true ↔ a.toNat + 256 * b.toNat = (crc16Calc payload).toNat := by
  have hwire : wire a ++ wire b = wire (b ++ a) := by
    apply List.ext_getElem
    · simp
    · intro k hk hk'
      simpa [wire, List.getElem_append] using (BitVec.getLsbD_append (x := b) (y := a)).symm
  have hcheck : checkBits payload = wire (crc16Calc payload) := by
    rw [checkBits, crc16Calc_eq, wire_not_reverse, crc16s_eq_feed]
  have hnat : (b ++ a).toNat = a.toNat + 256 * b.toNat := by
    rw [BitVec.toNat_append, ← Nat.shiftLeft_add_eq_or_of_lt a.isLt, Nat.shiftLeft_eq]
    omega
  rw [crc16Check_iff, crc16s_residue_iff, hwire, hcheck, ← hnat]
  exact ⟨fun h => congrArg BitVec.toNat (wire_injective h),
    fun h => congrArg wire (BitVec.eq_of_toNat_eq h)⟩

theorem crc16Check_false_of_burst {bytes bytes' : List (BitVec 8)}
    (hcheck : crc16Check bytes = true) (hlen : bytes'.length = bytes.length)
    (hne : bytes' ≠ bytes) (hburst : Burst bytes bytes') : crc16Check bytes' = false := by
  obtain ⟨k, hk⟩ := hburst
  have hdiff := feed_ne_of_burst poly16 rfl 0xffff
    (by rw [length_transmitted, length_transmitted, hlen])
    (fun h => hne (transmitted_injective h).symm) hk
  rw [crc16Check_iff, crc16s_eq_feed] at hcheck
  by_contra hyes
  rw [Bool.not_eq_false, crc16Check_iff, crc16s_eq_feed] at hyes
  exact hdiff (hcheck.trans hyes.symm)

theorem crc16Check_packet (payload : List (BitVec 8)) : crc16Check (packet payload) = true := by
  rw [packet, crc16Check_append_iff]
  simp only [BitVec.toNat_setWidth, BitVec.toNat_ushiftRight, Nat.shiftRight_eq_div_pow]
  omega

/-- A packet is accepted, and rejected when it is changed within sixteen consecutive bits; and the
check sum is the only one that is accepted behind its payload. -/
theorem crc16_detects :
    (∀ payload bytes' : List (BitVec 8), crc16Check (packet payload) = true ∧
      (bytes'.length = (packet payload).length → bytes' ≠ packet payload →
        Burst (packet payload) bytes' → crc16Check bytes' = false)) ∧
      ∀ (payload : List (BitVec 8)) (a b : BitVec 8), crc16Check (payload ++ [a, b]) = true ↔
        a.toNat + 256 * b.toNat = (crc16Calc payload).toNat :=
  ⟨fun payload _ => ⟨crc16Check_packet payload, crc16Check_false_of_burst (crc16Check_packet payload)⟩,
    crc16Check_append_iff⟩

/-- A payload of one byte, with its last bit and the first of the check sum flipped. -/
theorem crc16_detects_one : crc16Check [0x92, 0xc1, 0xb2] = false := by
  have hpacket : packet [0x12] = [0x12, 0xc0, 0xb2] := by decide
  have hdetect := (crc16_detects.1 [0x12] [0x92, 0xc1, 0xb2]).2
  rw [hpacket] at hdetect
  refine hdetect rfl (by decide) ⟨7, fun n hn => ?_⟩
  by_contra hout
  by_cases hlow : n < 7
  · interval_cases n <;> exact hn (by decide)
  · by_cases hhigh : n < 24
    · interval_cases n <;> first | exact hn (by decide) | exact hout (by decide)
    · exact hn (by
        rw [List.getElem?_eq_none (by simp [length_transmitted]; omega),
          List.getElem?_eq_none (by simp [length_transmitted]; omega)])

end MiscVerilogCores.UsbCrc
