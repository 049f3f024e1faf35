import Mathlib.Data.BitVec
import Mathlib.Logic.Function.Iterate

/-! # Gray codes

A binary number and its Gray code, bit by bit, for any number of bits. The binary number is what
the decoder circuit, whose output feeds back into it, settles at. -/

namespace MiscVerilogCores.GrayCode

variable {w : ℕ}

def gray (x : BitVec w) : BitVec w := x ^^^ (x >>> 1)

/-- The decoder circuit, with `y` on the wires that feed back. -/
def decoder (x y : BitVec w) : BitVec w := x ^^^ (y >>> 1)

/-- What the decoder settles at: each pass through it settles one more bit. -/
def ungray (x : BitVec w) : BitVec w := (decoder x)^[w] 0

/-- The wires of the decoder can hold no other value. -/
theorem eq_of_decoder {x y z : BitVec w} (hy : y = decoder x y) (hz : z = decoder x z) : y = z := by
  have hbit : ∀ k, y.getLsbD (w - k) = z.getLsbD (w - k) := by
    intro k
    induction k with
    | zero => rw [BitVec.getLsbD_of_ge y _ (by omega), BitVec.getLsbD_of_ge z _ (by omega)]
    | succ k ih =>
        by_cases hk : k < w
        · have hnext : 1 + (w - (k + 1)) = w - k := by omega
          rw [hy, hz, decoder, decoder, BitVec.getLsbD_xor, BitVec.getLsbD_xor,
            BitVec.getLsbD_ushiftRight, BitVec.getLsbD_ushiftRight, hnext, ih]
        · rwa [show w - (k + 1) = w - k by omega]
  apply BitVec.eq_of_getLsbD_eq
  intro k hk
  simpa [show w - (w - k) = k by omega] using hbit (w - k)

theorem decoder_gray (x : BitVec w) : x = decoder (gray x) x := by
  rw [decoder, gray, BitVec.xor_assoc, BitVec.xor_self, BitVec.xor_zero]

/-- After enough passes the decoder has settled. -/
theorem ungray_eq_decoder (x : BitVec w) : ungray x = decoder x (ungray x) := by
  have hstable : ∀ n ≤ w, ∀ k, w - n ≤ k →
      ((decoder x)^[n] 0).getLsbD k = (decoder x ((decoder x)^[n] 0)).getLsbD k := by
    intro n
    induction n with
    | zero =>
        intro _ k hk
        rw [BitVec.getLsbD_of_ge _ k (by omega), BitVec.getLsbD_of_ge _ k (by omega)]
    | succ n ih =>
        intro hn k hk
        have hbit : ∀ y, (decoder x y).getLsbD k = (x.getLsbD k ^^ y.getLsbD (1 + k)) := by
          intro y
          rw [decoder, BitVec.getLsbD_xor, BitVec.getLsbD_ushiftRight]
        rw [Function.iterate_succ_apply', hbit, hbit, ih (by omega) _ (by omega)]
  apply BitVec.eq_of_getLsbD_eq
  intro k _
  exact hstable w le_rfl k (by omega)

@[simp] theorem ungray_gray (x : BitVec w) : ungray (gray x) = x :=
  eq_of_decoder (ungray_eq_decoder _) (decoder_gray x)

theorem gray_injective {x y : BitVec w} (h : gray x = gray y) : x = y := by
  rw [← ungray_gray x, h, ungray_gray]

@[simp] theorem gray_inj {x y : BitVec w} : gray x = gray y ↔ x = y :=
  ⟨gray_injective, congrArg gray⟩

@[simp] theorem gray_zero : gray 0#w = 0#w := by
  simp [gray]

end MiscVerilogCores.GrayCode
