import MiscVerilogCores.Library.Clocked
import MiscVerilogCores.Verification.Skid.Contents

/-! # `axis_skid` over a run

The word in front of a stalled output stays there, and what has been accepted and not delivered is
what the two registers hold. The control registers agree with each other as long as no word is
offered in the cycle that follows a reset. -/

namespace MiscVerilogCores.AxisSkid

open Clocked

variable {WIDTH : ℕ}

/-! ## Ports -/

/-- The pairs accepted on the `s_` port. -/
def accepted (s : State WIDTH) (is : List (Inputs WIDTH)) : List (Bool × BitVec WIDTH) :=
  emitted step (fun s i => if i.sTvalid && sTready false s i.mTready then [(i.sTlast, i.sTdata)] else [])
    s is

/-- The pairs delivered on the `m_` port. -/
def delivered (s : State WIDTH) (is : List (Inputs WIDTH)) : List (Bool × BitVec WIDTH) :=
  emitted step (fun s i => if mTvalid false s i.sTvalid && i.mTready then
    [(mTlast false s i.sTlast, mTdata false s i.sTdata)] else []) s is

theorem accepted_eq (s : State WIDTH) (is : List (Inputs WIDTH)) :
    accepted s is = emitted step taken s is := rfl

theorem delivered_eq (s : State WIDTH) (is : List (Inputs WIDTH)) :
    delivered s is = emitted step given s is := rfl

/-- A pair that is offered on the `m_` port and not taken is offered again, whatever comes next. -/
def Held (s : State WIDTH) (i : Inputs WIDTH) : Prop :=
  mTvalid false s i.sTvalid = true → i.mTready = false → ∀ next : Inputs WIDTH,
    mTvalid false (step s i) next.sTvalid = true ∧
      mTlast false (step s i) next.sTlast = mTlast false s i.sTlast ∧
      mTdata false (step s i) next.sTdata = mTdata false s i.sTdata

/-- Pairs are delivered as they were accepted, at most two are under way, the output is held while it
is stalled, and the temporary register stops the source exactly while it holds the second pair. -/
structure Lossless (s : State WIDTH) (is : List (Inputs WIDTH)) : Prop where
  order : delivered s is <+: accepted s is
  undelivered : (accepted s is).length ≤ (delivered s is).length + 2
  held : Along step Held s is
  ready : is ≠ [] → ∀ mTready,
    sTready false (run step s is) mTready = false ↔ (run step s is).tvalid = true
  second : (run step s is).tvalid = true ↔ (accepted s is).length = (delivered s is).length + 2

/-! ## Runs -/

section Runs

variable {s : State WIDTH} {i : Inputs WIDTH} {is : List (Inputs WIDTH)}

theorem held (hr : i.reset = false) : Held s i := by
  intro hvalid hready next
  simp only [mTvalid, Bool.false_eq_true, if_false] at hvalid
  simp [mTvalid, mTlast, mTdata, step, Skid.dstValid, Skid.srcToDst, Skid.tmpToDst, hr, hvalid,
    hready]

/-- After the first cycle an offer is in order. -/
theorem along_offer (hrun : ∀ i ∈ is, i.reset = false)
    (hfirst : ∀ i ∈ is.head?, i.sTvalid = false) :
    Along step (fun s i => i.reset = false ∧ Offer s i) s is := by
  cases is with
  | nil => trivial
  | cons i is =>
      have hreset : i.reset = false := hrun i (by simp)
      have hrest := along_of_inputs step (step s i) fun j hj => hrun j (List.mem_cons_of_mem i hj)
      refine ⟨⟨hreset, fun _ _ => hfirst i (by simp)⟩, ?_⟩
      apply hrest.strengthen fun s => ¬(s.sready = false ∧ s.tvalid = false)
      · intro s j hstarted hj
        exact ⟨started_step s j hj, hj, fun hs ht => absurd ⟨hs, ht⟩ hstarted⟩
      · exact started_step s i hreset

theorem conserved (h : Valid s) (hok : Along step (fun s i => i.reset = false ∧ Offer s i) s is) :
    contents s ++ accepted s is = delivered s is ++ contents (run step s is) := by
  rw [accepted_eq, delivered_eq]
  exact emitted_conserved contents
    (fun _ _ hv ho => ⟨hv.step ho.2, step_contents hv ho.2 ho.1⟩) h hok

theorem valid_run (h : Valid s) (hok : Along step (fun s i => i.reset = false ∧ Offer s i) s is) :
    Valid (run step s is) :=
  run_invariant Valid (fun _ _ hv ho => hv.step ho.2) h hok

theorem started_run (hrun : ∀ i ∈ is, i.reset = false) (hne : is ≠ []) :
    ¬((run step s is).sready = false ∧ (run step s is).tvalid = false) := by
  obtain ⟨pre, i, rfl⟩ := (List.eq_nil_or_concat is).resolve_left hne
  rw [List.concat_eq_append, run_append]
  exact started_step _ i (hrun i (by simp))

theorem tvalid_iff_two (h : Valid s) : s.tvalid = true ↔ (contents s).length = 2 := by
  have hbehind : s.tvalid = true → s.mvalid = true := h.behind
  rw [length_contents]
  cases hm : s.mvalid <;> cases ht : s.tvalid <;> simp_all

end Runs

/-- From reset, if no word is offered in the first cycle, `axis_skid` is a lossless queue of two. -/
theorem twoEntryQueue (s₀ : State WIDTH) {r : Inputs WIDTH} {is : List (Inputs WIDTH)}
    (hr : r.reset = true) (hrun : ∀ i ∈ is, i.reset = false)
    (hfirst : ∀ i ∈ is.head?, i.sTvalid = false) : Lossless (step s₀ r) is := by
  obtain ⟨hvalid, hempty⟩ := valid_of_reset s₀ r hr
  have hok := along_offer (s := step s₀ r) hrun hfirst
  have hend := valid_run hvalid hok
  have hcons := conserved hvalid hok
  rw [hempty, List.nil_append] at hcons
  have hlen := congrArg List.length hcons
  rw [List.length_append, length_contents] at hlen
  refine ⟨⟨_, hcons.symm⟩, ?_, ?_, fun hne mTready => ?_, ?_⟩
  · have hm := Bool.toNat_le (run step (step s₀ r) is).mvalid
    have ht := Bool.toNat_le (run step (step s₀ r) is).tvalid
    omega
  · exact hok.mono fun s i hi => held hi.1
  · have hstarted := started_run (s := step s₀ r) hrun hne
    have hready : (run step (step s₀ r) is).sready = true →
        (run step (step s₀ r) is).tvalid = false := hend.ready
    show (run step (step s₀ r) is).sready = false ↔ _
    cases hs : (run step (step s₀ r) is).sready <;>
      cases ht : (run step (step s₀ r) is).tvalid <;> simp_all
  · rw [tvalid_iff_two hend, length_contents]
    omega

/-- The surroundings in one cycle; the destination is ready. -/
def cycleInputs (reset valid : Bool) (data : BitVec 8) : Inputs 8 := ⟨reset, valid, true, data, true⟩

/-- A word is offered in the second cycle. -/
theorem twoEntryQueue_one :
    let s := step default (cycleInputs true false 0)
    let is := [cycleInputs false false 0, cycleInputs false true 0x5a, cycleInputs false false 0]
    delivered s is = [(true, 0x5a)] ∧ Lossless s is :=
  ⟨by decide, twoEntryQueue default rfl (by decide) (by decide)⟩

end MiscVerilogCores.AxisSkid
