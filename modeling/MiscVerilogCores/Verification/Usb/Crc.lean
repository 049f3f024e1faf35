import MiscVerilogCores.Library.Crc
import MiscVerilogCores.Model.UsbDefs
import Mathlib.Tactic.IntervalCases

/-! # The check sums of USB packets

The bytewise formulas of the source compute the registers of the standard, fed with the bits of
a packet as they go over the wire. -/

namespace MiscVerilogCores.Usb

open Crc

/-- The bits of a byte or a token as they go over the wire, the least significant one first. -/
def wire {w : ℕ} (x : BitVec w) : List Bool :=
  (List.range w).map x.getLsbD

@[simp] theorem length_wire {w : ℕ} (x : BitVec w) : (wire x).length = w := by
  simp [wire]

theorem wire_xor {w : ℕ} (x y : BitVec w) : wire (x ^^^ y) = List.zipWith xor (wire x) (wire y) := by
  simp [wire, List.zipWith_map]

theorem wire_injective {w : ℕ} {x y : BitVec w} (h : wire x = wire y) : x = y := by
  apply BitVec.eq_of_getLsbD_eq
  intro k hk
  have hbit := congrArg (fun bs : List Bool => bs[k]?) h
  simpa [wire, hk] using hbit

/-! ## CRC16 -/

/-- `x^16 + x^15 + x^2 + 1`. -/
def poly16 : BitVec 16 := 0x8005

theorem xor_pair {a x y : Bool} (h : a = (x ^^ y)) (p q : Bool) :
    (a ^^ (p ^^ q)) = ((x ^^ p) ^^ (y ^^ q)) := by
  rw [h]
  cases x <;> cases y <;> cases p <;> cases q <;> rfl

theorem crc16_xor (d d' : BitVec 8) (c c' : BitVec 16) :
    crc16 (d ^^^ d') (c ^^^ c') = crc16 d c ^^^ crc16 d' c' := by
  apply BitVec.eq_of_getLsbD_eq
  intro k hk
  simp only [crc16, BitVec.getLsbD_xor, BitVec.getLsbD_ofBoolListLE]
  interval_cases k <;> simp only [List.getD_cons_zero, List.getD_cons_succ] <;>
    repeat' first | with_reducible rfl | apply xor_pair

/-- The formula of the source is eight steps of the register. -/
theorem crc16_eq_feed (d : BitVec 8) (c : BitVec 16) : crc16 d c = feed poly16 c (wire d) := by
  have hdata : crc16 d 0 = feed poly16 0 (wire d) := by
    refine linear_ext (f := fun d => crc16 d 0) (g := fun d => feed poly16 0 (wire d))
      (fun x y => crc16_xor x y 0 0) (fun x y => ?_) (by decide +kernel) d
    rw [wire_xor]
    exact feed_xor poly16 0 0 (by simp)
  have hreg : crc16 0 c = feed poly16 c (wire (0 : BitVec 8)) := by
    have hzero : List.zipWith xor (wire (0 : BitVec 8)) (wire (0 : BitVec 8)) =
        wire (0 : BitVec 8) := by decide
    refine linear_ext (f := crc16 0) (g := fun c => feed poly16 c (wire (0 : BitVec 8)))
      (crc16_xor 0 0) (fun x y => ?_) (by decide +kernel) c
    exact hzero ▸ feed_xor poly16 x y rfl
  have hsplit := feed_xor poly16 0 c (show (wire d).length = (wire (0 : BitVec 8)).length by simp)
  rw [← wire_xor] at hsplit
  have hzero : (0 : BitVec 16) ^^^ c = c ∧ d ^^^ 0 = d := by simp
  rw [hzero.1, hzero.2] at hsplit
  calc crc16 d c = crc16 (d ^^^ 0) (0 ^^^ c) := by rw [hzero.1, hzero.2]
    _ = crc16 d 0 ^^^ crc16 0 c := crc16_xor d 0 0 c
    _ = feed poly16 c (wire d) := by rw [hdata, hreg, ← hsplit]

/-- The check register after some bytes. -/
def crc16s (bytes : List (BitVec 8)) : BitVec 16 :=
  bytes.foldl (fun c d => crc16 d c) 0xffff

theorem crc16s_eq_feed (bytes : List (BitVec 8)) :
    crc16s bytes = feed poly16 0xffff (bytes.flatMap wire) := by
  induction bytes using List.reverseRecOn with
  | nil => rfl
  | append_singleton bytes d ih =>
      rw [crc16s] at ih ⊢
      rw [List.foldl_concat, ih, crc16_eq_feed, List.flatMap_append, feed_append]
      simp

/-- The CRC16 of a payload, as it goes over the wire: the complement of the register, most
significant bit first. -/
def checkBits (payload : List (BitVec 8)) : List Bool :=
  (bits (feed poly16 0xffff (payload.flatMap wire))).map not

/-- The register ends at the residue exactly when the last two bytes are the CRC16 of the
payload. -/
theorem crc16s_residue_iff (payload : List (BitVec 8)) (crc₀ crc₁ : BitVec 8) :
    crc16s (payload ++ [crc₀, crc₁]) = 0x800d ↔ wire crc₀ ++ wire crc₁ = checkBits payload := by
  have hresidue : feed poly16 0 (List.replicate 16 true) = 0x800d := by decide
  rw [crc16s_eq_feed, List.flatMap_append, feed_append, ← hresidue]
  exact feed_eq_residue_iff poly16 rfl _ (by simp)

/-! ## CRC5 -/

/-- `x^5 + x^2 + 1`. -/
def poly5 : BitVec 5 := 0x05

/-- `crc5` without its constants. -/
def crc5Sum (x : BitVec 11) : BitVec 5 :=
  let b := x.getLsbD
  BitVec.ofBoolListLE
    [b 8 ^^ b 6 ^^ b 5 ^^ b 2 ^^ b 1 ^^ b 0,
      b 9 ^^ b 7 ^^ b 6 ^^ b 3 ^^ b 2 ^^ b 1 ^^ b 0,
      b 10 ^^ b 8 ^^ b 7 ^^ b 4 ^^ b 3 ^^ b 2 ^^ b 1 ^^ b 0,
      b 9 ^^ b 6 ^^ b 4 ^^ b 3 ^^ b 0,
      b 10 ^^ b 7 ^^ b 5 ^^ b 4 ^^ b 1 ^^ b 0]

theorem crc5_eq (x : BitVec 11) : crc5 x = crc5Sum x ^^^ 0b00010 := by
  apply BitVec.eq_of_getLsbD_eq
  intro k hk
  rw [BitVec.getLsbD_xor]
  simp only [crc5, crc5Sum, BitVec.getLsbD_ofBoolListLE]
  interval_cases k <;> simp

theorem crc5Sum_xor (x y : BitVec 11) : crc5Sum (x ^^^ y) = crc5Sum x ^^^ crc5Sum y := by
  apply BitVec.eq_of_getLsbD_eq
  intro k hk
  simp only [crc5Sum, BitVec.getLsbD_xor, BitVec.getLsbD_ofBoolListLE]
  interval_cases k <;> simp only [List.getD_cons_zero, List.getD_cons_succ] <;>
    repeat' first | with_reducible rfl | apply xor_pair

theorem reverse_xor {w : ℕ} (x y : BitVec w) : (x ^^^ y).reverse = x.reverse ^^^ y.reverse := by
  apply BitVec.eq_of_getLsbD_eq
  intro k hk
  simp [BitVec.getLsbD_reverse]

theorem wire_not_reverse {w : ℕ} (c : BitVec w) : wire (~~~c.reverse) = (bits c).map not := by
  rw [wire, bits, List.map_map]
  apply List.map_congr_left
  intro k hk
  simp [BitVec.getElem_reverse, List.mem_range.mp hk]

/-- The check bits of a token are the complement of the register, most significant bit first. -/
theorem wire_crc5 (x : BitVec 11) :
    wire (crc5 x) = (bits (feed poly5 0x1f (wire x))).map not := by
  have hlinear : ∀ x y : BitVec 11,
      feed poly5 0 (wire (x ^^^ y)) = feed poly5 0 (wire x) ^^^ feed poly5 0 (wire y) := by
    intro x y
    rw [wire_xor]
    exact feed_xor poly5 0 0 (by simp)
  have hsum : crc5Sum x = (feed poly5 0 (wire x)).reverse := by
    refine linear_ext (f := crc5Sum) (g := fun x => (feed poly5 0 (wire x)).reverse) crc5Sum_xor
      (fun x y => ?_) (by decide +kernel) x
    rw [hlinear, reverse_xor]
  have hstart : feed poly5 0x1f (wire x) =
      feed poly5 0x1f (wire (0 : BitVec 11)) ^^^ feed poly5 0 (wire x) := by
    have hsplit := feed_xor poly5 0x1f 0 (show (wire (0 : BitVec 11)).length = (wire x).length by simp)
    rw [← wire_xor] at hsplit
    have hzero : (0 : BitVec 11) ^^^ x = x := by simp
    rwa [hzero] at hsplit
  have hconst : ~~~(feed poly5 0x1f (wire (0 : BitVec 11))).reverse = 0b00010 := by decide
  have hcrc : crc5 x = ~~~(feed poly5 0x1f (wire x)).reverse := by
    rw [crc5_eq, hsum, hstart, reverse_xor, BitVec.not_xor_left, hconst, BitVec.xor_comm]
  rw [hcrc, wire_not_reverse]

end MiscVerilogCores.Usb
