import Mathlib.Data.Nat.Notation

/-! # Beats of a stream

What the `axis_*` modules transfer in a cycle. The source treats `tid`, `tdest` and `tuser` alike, and
`user` stands for all of them. -/

namespace MiscVerilogCores

structure Beat (d k : ℕ) (U : Type) where
  tdata : BitVec d
  tkeep : BitVec k
  tlast : Bool
  user : U
deriving DecidableEq, Inhabited

end MiscVerilogCores
