import Mathlib.Data.BitVec
import MiscVerilogCores.Library.Clocked
import MiscVerilogCores.Model.AxisLogger

/-! # Frames of telemetry

The samples are counted when they are taken, one cycle before they are presented, and presented for one
cycle only. The frames keep their size if the FIFO stays ready for a cycle whenever a sample has been
taken, and otherwise a sample that has been counted is lost. -/

namespace MiscVerilogCores.AxisLogger

open Clocked

variable {SIG_WIDTH IGN_WIDTH CBITS : ℕ}

/-- The framer runs. -/
structure Running (i : Inputs SIG_WIDTH IGN_WIDTH) : Prop where
  reset : i.reset = false
  enable : i.enableI = true

/-- Of the samples that the FIFO has taken exactly those at the multiples of the frame size carry `tlast`,
and every sample that has been presented has been taken. -/
structure Framed (s : State SIG_WIDTH IGN_WIDTH CBITS) (is : List (Inputs SIG_WIDTH IGN_WIDTH)) :
    Prop where
  lasts : (emitted step taken s is).map Prod.fst =
    (List.range' 1 (emitted step taken s is).length).map fun k => decide (2 ^ CBITS ∣ k)
  complete : emitted step taken s is = emitted step presented s is

/-- After a cycle in which `c_tready` is high and `change_i` changes, `c_tready` is high for another
cycle. -/
def KeepsReady : BitVec SIG_WIDTH → List (Inputs SIG_WIDTH IGN_WIDTH) → Prop
  | _, [] => True
  | prev, i :: is =>
      (i.cTready = true → i.changeI ≠ prev → ∀ j ∈ is.head?, j.cTready = true) ∧
        KeepsReady i.changeI is

section Step

variable {s : State SIG_WIDTH IGN_WIDTH CBITS} {i : Inputs SIG_WIDTH IGN_WIDTH}
  {is : List (Inputs SIG_WIDTH IGN_WIDTH)}

theorem step_running (hi : Running i) : step s i =
    { currQ := i.changeI
      restQ := i.ignoreI
      count := if samples s i then (cnext s).setWidth CBITS else s.count
      vldQ := samples s i
      lstQ := samples s i && (cnext s).getLsbD CBITS } := by
  simp [step, hi.reset, hi.enable]

/-! ## What is lost -/

/-- Each sample that is presented is taken. -/
def Takes (s : State SIG_WIDTH IGN_WIDTH CBITS) (i : Inputs SIG_WIDTH IGN_WIDTH) : Prop :=
  s.vldQ = true → i.cTready = true

theorem length_taken_le (s : State SIG_WIDTH IGN_WIDTH CBITS)
    (is : List (Inputs SIG_WIDTH IGN_WIDTH)) :
    (emitted step taken s is).length ≤ (emitted step presented s is).length := by
  induction is generalizing s with
  | nil => exact Nat.le_refl 0
  | cons i is ih =>
      have hrest := ih (step s i)
      simp only [emitted_cons, List.length_append]
      cases hv : s.vldQ <;> cases hready : i.cTready <;>
        simp [taken, presented, cTvalid, hv, hready] <;> omega

/-- A sample that is not taken is missing for good. -/
theorem taken_eq_iff (s : State SIG_WIDTH IGN_WIDTH CBITS)
    (is : List (Inputs SIG_WIDTH IGN_WIDTH)) :
    emitted step taken s is = emitted step presented s is ↔ Along step Takes s is := by
  induction is generalizing s with
  | nil => exact iff_of_true rfl trivial
  | cons i is ih =>
      rw [along_cons, emitted_cons, emitted_cons]
      cases hv : s.vldQ
      · simpa [taken, presented, cTvalid, Takes, hv] using ih (step s i)
      · cases hready : i.cTready
        · refine iff_of_false (fun heq => ?_) fun h => by simpa [hready] using h.1 hv
          have hlen := congrArg List.length heq
          have hle := length_taken_le (step s i) is
          simp [taken, presented, cTvalid, hv, hready] at hlen
          omega
        · simpa [taken, presented, cTvalid, Takes, hv, hready] using ih (step s i)

/-- Whether a sample is taken depends on the cycle before. -/
theorem along_takes_iff (hrun : ∀ i ∈ is, Running i) :
    Along step Takes s is ↔
      (s.vldQ = true → ∀ i ∈ is.head?, i.cTready = true) ∧ KeepsReady s.currQ is := by
  induction is generalizing s with
  | nil => simp [KeepsReady]
  | cons i is ih =>
      have hnext := step_running (s := s) (hrun i (by simp))
      rw [along_cons, ih fun j hj => hrun j (List.mem_cons_of_mem i hj), hnext, KeepsReady]
      simp [Takes, samples]

/-! ## The counter -/

/-- The counter counts the samples presented so far and the one that is, which carries `tlast` if it
fills a frame. -/
structure Counted (s : State SIG_WIDTH IGN_WIDTH CBITS) (n : ℕ) : Prop where
  count : s.count = BitVec.ofNat CBITS (n + s.vldQ.toNat)
  last : s.vldQ = true → s.lstQ = decide (2 ^ CBITS ∣ n + 1)

theorem toNat_cnext {n : ℕ} (h : s.count = BitVec.ofNat CBITS n) :
    (cnext s).toNat = n % 2 ^ CBITS + 1 := by
  have hlt := Nat.mod_lt n (Nat.two_pow_pos CBITS)
  have hlap : 2 ^ (CBITS + 1) = 2 * 2 ^ CBITS := by rw [Nat.pow_succ, Nat.mul_comm]
  have hone : (1 : BitVec (CBITS + 1)).toNat = 1 := by
    rw [show (1 : BitVec (CBITS + 1)) = BitVec.ofNat (CBITS + 1) 1 from rfl, BitVec.toNat_ofNat,
      Nat.mod_eq_of_lt (by omega)]
  rw [cnext, h, BitVec.toNat_add, BitVec.toNat_setWidth, BitVec.toNat_ofNat, hone,
    Nat.mod_eq_of_lt (a := n % 2 ^ CBITS) (by omega), Nat.mod_eq_of_lt (by omega)]

theorem cnext_carry {n : ℕ} (h : s.count = BitVec.ofNat CBITS n) :
    (cnext s).getLsbD CBITS = decide (2 ^ CBITS ∣ n + 1) := by
  have hlt := Nat.mod_lt n (Nat.two_pow_pos CBITS)
  have hsucc : (n + 1) % 2 ^ CBITS = (n % 2 ^ CBITS + 1) % 2 ^ CBITS := (Nat.mod_add_mod n _ 1).symm
  rw [BitVec.getLsbD, toNat_cnext h, Nat.testBit_eq_decide_div_mod_eq, decide_eq_decide,
    Nat.dvd_iff_mod_eq_zero, hsucc]
  rcases (Nat.succ_le_of_lt hlt).lt_or_eq with hless | hfull
  · have hless : n % 2 ^ CBITS + 1 < 2 ^ CBITS := hless
    rw [Nat.div_eq_of_lt hless, Nat.mod_eq_of_lt hless]
    simp
  · have hfull : n % 2 ^ CBITS + 1 = 2 ^ CBITS := hfull
    rw [hfull, Nat.div_self (Nat.two_pow_pos CBITS), Nat.mod_self]
    simp

theorem cnext_low {n : ℕ} (h : s.count = BitVec.ofNat CBITS n) :
    (cnext s).setWidth CBITS = BitVec.ofNat CBITS (n + 1) := by
  apply BitVec.eq_of_toNat_eq
  rw [BitVec.toNat_setWidth, toNat_cnext h, BitVec.toNat_ofNat, Nat.mod_add_mod]

theorem Counted.next {n : ℕ} (h : Counted s n) (hi : Running i) :
    Counted (step s i) (n + s.vldQ.toNat) := by
  rw [step_running hi]
  cases hs : samples s i
  · exact ⟨by simpa using h.count, by simp⟩
  · refine ⟨?_, fun _ => ?_⟩
    · show (cnext s).setWidth CBITS = _
      rw [cnext_low h.count]
      rfl
    · show (true && (cnext s).getLsbD CBITS) = _
      rw [Bool.true_and, cnext_carry h.count]

/-- Every frame that is presented has its size. -/
theorem presented_lasts {n : ℕ} (h : Counted s n) (hrun : ∀ i ∈ is, Running i) :
    (emitted step presented s is).map Prod.fst =
      (List.range' (n + 1) (emitted step presented s is).length).map fun k =>
        decide (2 ^ CBITS ∣ k) := by
  induction is generalizing s n with
  | nil => rfl
  | cons i is ih =>
      have hrest := ih (h.next (hrun i (by simp))) fun j hj => hrun j (List.mem_cons_of_mem i hj)
      rw [emitted_cons]
      cases hv : s.vldQ
      · simpa [presented, cTvalid, hv] using hrest
      · have hlast := h.last hv
        rw [hv] at hrest
        simp [presented, cTvalid, cTlast, hv, hlast, List.range'_succ]
        simpa using hrest

end Step

/-- The frames keep their size in exactly the runs in which the FIFO stays ready for a cycle behind each
sample. -/
theorem framed_iff (s₀ : State SIG_WIDTH IGN_WIDTH CBITS) {r : Inputs SIG_WIDTH IGN_WIDTH}
    {is : List (Inputs SIG_WIDTH IGN_WIDTH)} (hr : r.reset = true) (hrun : ∀ i ∈ is, Running i) :
    Framed (step s₀ r) is ↔ KeepsReady (BitVec.allOnes SIG_WIDTH) is := by
  have hreset : step s₀ r = ⟨BitVec.allOnes SIG_WIDTH, BitVec.allOnes IGN_WIDTH, 0, false, false⟩ := by
    simp [step, hr]
  have hready : Along step Takes (step s₀ r) is ↔ KeepsReady (BitVec.allOnes SIG_WIDTH) is := by
    rw [along_takes_iff hrun, hreset]
    simp
  rw [← hready, ← taken_eq_iff]
  refine ⟨fun h => h.complete, fun heq => ⟨?_, heq⟩⟩
  have hcounted : Counted (step s₀ r) 0 := by
    rw [hreset]
    exact ⟨by simp, by simp⟩
  rw [heq]
  exact presented_lasts hcounted hrun

instance (i : Inputs SIG_WIDTH IGN_WIDTH) : Decidable (Running i) :=
  decidable_of_iff (i.reset = false ∧ i.enableI = true) ⟨fun h => ⟨h.1, h.2⟩, fun h => ⟨h.1, h.2⟩⟩

/-- `change_i` changes in each cycle, and `c_tready` is as given. -/
def changes (readies : List Bool) : List (Inputs 16 16) :=
  readies.mapIdx fun k ready => ⟨false, true, BitVec.ofNat 16 k, 0, ready⟩

/-- The surroundings while the framer is reset. -/
def resetInputs : Inputs 16 16 := ⟨true, true, 0, 0, false⟩

/-- A frame of eight samples, into a FIFO that stays ready. -/
theorem framed_eight :
    let s : State 16 16 3 := step default resetInputs
    let is := changes (List.replicate 9 true)
    (emitted step taken s is).length = 8 ∧ Framed s is :=
  ⟨by decide, (framed_iff default rfl (by decide)).mpr
    (by simp [changes, KeepsReady, List.replicate])⟩

/-- The third sample comes when the FIFO is not ready any more: only seven of the frame are left. -/
theorem not_alwaysFramed :
    ¬ ∀ (s₀ : State 16 16 3) (r : Inputs 16 16) (is : List (Inputs 16 16)), r.reset = true →
      (∀ i ∈ is, Running i) → Framed (step s₀ r) is := by
  intro h
  have hframed := h default resetInputs
    (changes ([true, true, true, false] ++ List.replicate 6 true)) rfl (by decide)
  exact absurd hframed.lasts (by decide)

end MiscVerilogCores.AxisLogger
