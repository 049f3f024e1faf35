import MiscVerilogCores.Verification.HexDump.Dumping

/-! # Dumps that start when they are asked for

While the FSM waits for a dump to start, a byte that is offered makes no difference. -/

namespace MiscVerilogCores.HexDump

open Clocked

variable {unicode : Bool} {s : State} {d : Dumper} {i : Inputs} {beats text left : List (Bool × BitVec 8)}

/-- What makes the same edge with `start_dump_i` high. -/
def started (s : State) (i : Inputs) : Inputs :=
  { i with startDumpI := true, sTvalid := i.sTvalid && (s.state != 0x0 || i.startDumpI) }

theorem started_sTvalid (hidle : ¬s.state = 0x0) : (started s i).sTvalid = i.sTvalid := by
  have hbusy : (s.state != 0x0) = true := bne_iff_ne.2 hidle
  rw [started, hbusy, Bool.true_or, Bool.and_true]

theorem step_started (unicode : Bool) (s : State) (i : Inputs) :
    step unicode s (started s i) = step unicode s i := by
  by_cases hidle : s.state = 0x0
  · simp [step, started, hidle]
  · simp only [step, hidle, started_sTvalid hidle, if_false]
    rfl

/-- While the FSM waits, the source is stopped. -/
theorem Phase.tready_idle {bytes : List (BitVec 8)} (h : Phase unicode s bytes left)
    (hidle : s.state = 0x0) : s.tready = false := by
  cases h with
  | idle _ ready => exact ready
  | first state | second state | waiting state => simp [hidle] at state
  | sending sends =>
      have hbounds := sends.bounds
      simp [hidle] at hbounds

theorem Phase.accepted_started {bytes : List (BitVec 8)} (h : Phase unicode s bytes left) :
    accepted s (started s i) = accepted s i := by
  by_cases hidle : s.state = 0x0
  · simp [accepted, sTready, h.tready_idle hidle]
  · rw [accepted, accepted, started_sTvalid hidle]
    rfl

theorem dumperStep_started (unicode : Bool) (d : Dumper) (i : Inputs) :
    dumperStep unicode d (started d.fsm i) = dumperStep unicode d i := by
  rw [dumperStep, dumperStep, step_started]
  rfl

/-- An edge with the bytes of frames of whole words. -/
theorem Inv.next_of_even (h : Inv unicode d beats text) (hstops : Stops d.fsm) (hreset : i.reset = false)
    (hkeep : i.sTvalid = true → i.sTkeep = true)
    (heven : ∀ frame ∈ (Packets.frames (beats ++ accepted d.fsm i)).done, frame.length % 2 = 0) :
    Inv unicode (dumperStep unicode d i) (beats ++ accepted d.fsm i) (text ++ delivered d i) ∧
      Stops (dumperStep unicode d i).fsm := by
  obtain ⟨left, htext, hphase⟩ := h
  have hi : Driven (started d.fsm i) := by
    refine ⟨hreset, rfl, fun hvalid => hkeep ?_⟩
    rw [started, Bool.and_eq_true] at hvalid
    exact hvalid.1
  have hsame : accepted d.fsm (started d.fsm i) = accepted d.fsm i := hphase.accepted_started
  have hdone : ∀ frame ∈ (Packets.frames (beats ++ (accepted d.fsm (started d.fsm i) ++ []))).done,
      frame.length % 2 = 0 := by
    rwa [List.append_nil, hsame]
  have hlast (hstate : d.fsm.state = 0x1) (hvalid : (started d.fsm i).sTvalid = true) :
      (started d.fsm i).sTlast = false :=
    hphase.not_last hstate hvalid hdone
  have hw : Whole unicode d.fsm (started d.fsm i) := by
    refine ⟨fun hstate hvalid htrue => ?_, fun hlate hready => ?_⟩
    · simp [hlast hstate hvalid] at htrue
    · simp [hstops hlate] at hready
  have hnext := Inv.next ⟨left, htext, hphase⟩ ⟨hi, hw⟩
  rw [dumperStep_started, hsame] at hnext
  refine ⟨hnext, ?_⟩
  have hstops' := hstops.next hphase hi hlast
  rwa [step_started] at hstops'

/-- While nothing is pushed, nothing is left. -/
theorem Phase.left_eq_nil {bytes : List (BitVec 8)} (h : Phase unicode s bytes left)
    (hstate : s.state < 0x3 ∨ s.state = 0xd) : left = [] := by
  cases h with
  | idle | first | second | waiting => rfl
  | sending sends =>
      have hbounds := sends.bounds
      obtain hlow | hwait := hstate
      · exact absurd hbounds.1 (BitVec.not_le.mpr hlow)
      · rw [hwait] at hbounds
        exact absurd hbounds.2 (by decide)

/-! ## More bytes -/

/-- With a byte more, the text goes on. -/
theorem dumpText_concat (unicode : Bool) (beats : List (Bool × BitVec 8)) (beat : Bool × BitVec 8) :
    dumpText unicode beats <+: dumpText unicode (beats ++ [beat]) := by
  obtain ⟨last, byte⟩ := beat
  obtain heven | hodd := Nat.mod_two_eq_zero_or_one (Packets.frames beats).frame.length
  · cases last with
    | false => rw [dumpText_first heven]
    | true =>
        rw [dumpText_odd heven]
        exact List.prefix_append _ _
  · obtain hnil | ⟨front, lo, hframe⟩ := List.eq_nil_or_concat (Packets.frames beats).frame
    · simp [hnil] at hodd
    · rw [List.concat_eq_append] at hframe
      rw [hframe, List.length_append, List.length_singleton] at hodd
      rw [dumpText_second hframe (by omega)]
      exact List.prefix_append _ _

theorem dumpText_prefix (unicode : Bool) {beats beats' : List (Bool × BitVec 8)} (h : beats <+: beats') :
    dumpText unicode beats <+: dumpText unicode beats' := by
  obtain ⟨more, rfl⟩ := h
  induction more using List.reverseRecOn with
  | nil => rw [List.append_nil]
  | append_singleton more beat ih =>
      rw [← List.append_assoc]
      exact ih.trans (dumpText_concat unicode _ beat)

end MiscVerilogCores.HexDump
