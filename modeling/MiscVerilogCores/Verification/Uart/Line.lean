import Mathlib.Data.BitVec
import Mathlib.Data.List.Infix

/-! # Bytes on a serial line

The level of a line, cycle by cycle. It is high while nothing is sent; a byte is sent as a low start
bit, its bits from the lowest, and a high stop bit, each for the same number of cycles. -/

namespace MiscVerilogCores.Uart

variable {W : ℕ}

/-- The start bit, the bits of the byte, and the stop bit. -/
def frameBit (byte : BitVec W) : ℕ → Bool
  | 0 => false
  | k + 1 => if k < W then byte.getLsbD k else true

/-- A byte on the line, with bits of `M` cycles. -/
def frame (M : ℕ) (byte : BitVec W) : List Bool :=
  (List.range (W + 2)).flatMap fun k => List.replicate M (frameBit byte k)

/-- The line carries the bytes one after the other, with pauses of any length around them. -/
inductive Carries (M : ℕ) : List Bool → List (BitVec W) → Prop
  | nil : Carries M [] []
  | idle {line : List Bool} {bytes : List (BitVec W)} :
      Carries M line bytes → Carries M (true :: line) bytes
  | byte {line : List Bool} {bytes : List (BitVec W)} (b : BitVec W) :
      Carries M line bytes → Carries M (frame M b ++ line) (b :: bytes)

theorem Carries.append {M : ℕ} {line line' : List Bool} {bytes bytes' : List (BitVec W)}
    (h : Carries M line bytes) (h' : Carries M line' bytes') :
    Carries M (line ++ line') (bytes ++ bytes') := by
  induction h with
  | nil => exact h'
  | idle _ ih => exact ih.idle
  | byte b _ ih =>
      rw [List.append_assoc]
      exact ih.byte b

theorem Carries.high (M n : ℕ) : Carries M (List.replicate n true) ([] : List (BitVec W)) := by
  induction n with
  | zero => exact .nil
  | succ n ih => exact ih.idle

theorem Carries.single (M : ℕ) (b : BitVec W) : Carries M (frame M b) [b] := by
  simpa using (Carries.nil (M := M)).byte b

/-! ## Levels of a frame -/

section Frame

variable {M : ℕ} (b : BitVec W)

theorem length_bits (f : ℕ → Bool) (n : ℕ) :
    ((List.range n).flatMap fun k => List.replicate M (f k)).length = M * n := by
  simp [List.length_flatMap, Nat.mul_comm]

theorem length_frame : (frame M b).length = M * (W + 2) := length_bits _ _

theorem getElem?_bits {f : ℕ → Bool} {n k i : ℕ} (hk : k < n) (hlow : M * k ≤ i)
    (hhigh : i < M * (k + 1)) :
    ((List.range n).flatMap fun k => List.replicate M (f k))[i]? = some (f k) := by
  induction n with
  | zero => exact absurd hk (Nat.not_lt_zero k)
  | succ n ih =>
      rw [List.range_succ, List.flatMap_append]
      by_cases hlast : k = n
      · subst hlast
        rw [List.getElem?_append_right (by rw [length_bits]; exact hlow), length_bits]
        rw [Nat.mul_succ] at hhigh
        have hin : i - M * k < M := by omega
        simp [hin]
      · have hkn : k < n := by omega
        have hin : i < M * n := hhigh.trans_le (Nat.mul_le_mul_left M hkn)
        rw [List.getElem?_append_left (by rwa [length_bits]), ih hkn]

/-- Within its cycles, a bit of the frame is on the line. -/
theorem getElem?_frame {k i : ℕ} (hk : k < W + 2) (hlow : M * k ≤ i) (hhigh : i < M * (k + 1)) :
    (frame M b)[i]? = some (frameBit b k) :=
  getElem?_bits hk hlow hhigh

/-- The last cycles of a frame are those of the stop bit. -/
theorem drop_frame {n : ℕ} (h : M * (W + 1) ≤ n) :
    (frame M b).drop n = List.replicate (M * (W + 2) - n) true := by
  have hstop : frameBit b (W + 1) = true := by simp [frameBit]
  rw [frame, List.range_succ, List.flatMap_append, List.drop_append, length_bits,
    List.drop_eq_nil_of_le (by rwa [length_bits])]
  have hlen : M - (n - M * (W + 1)) = M * (W + 2) - n := by
    rw [Nat.mul_succ M (W + 1)]
    omega
  simp [hstop, hlen]

end Frame

end MiscVerilogCores.Uart
