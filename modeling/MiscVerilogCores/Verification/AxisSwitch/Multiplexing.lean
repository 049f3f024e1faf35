import Mathlib.Data.List.Chain
import MiscVerilogCores.Verification.AxisSwitch.Datapath

/-! # One frame after the other

A port is ready only while it is the selected port of an open frame, so that the beats of two ports are
never mixed, whatever `select` and `enable` do in the middle of a frame. -/

namespace MiscVerilogCores.AxisSwitch.Mux

open Clocked

variable {S c d k : ℕ} {U : Type}

/-- The beats that the ports hand over at an edge, each with its port. -/
def acceptedAt (s : State S c d k U) (i : Inputs S c d k U) : List (ℕ × Beat d k U) :=
  ((List.range S).filter fun port => s.sTready.getLsbD port && i.sTvalid.getLsbD port).map fun port =>
    (port, i.sAxis port)

def accepted (s : State S c d k U) (is : List (Inputs S c d k U)) : List (ℕ × Beat d k U) :=
  emitted step acceptedAt s is

def deliveredAt (s : State S c d k U) (i : Inputs S c d k U) : List (Beat d k U) :=
  if i.mTready && s.out.valid != 0 then [s.out.reg] else []

/-- The beats that are taken from the output. -/
def delivered (s : State S c d k U) (is : List (Inputs S c d k U)) : List (Beat d k U) :=
  emitted step deliveredAt s is

/-- What comes behind a beat that is not the last one of its frame is from the same port. -/
def Unmixed (beats : List (ℕ × Beat d k U)) : Prop :=
  beats.IsChain fun a b => a.2.tlast = false → b.1 = a.1

/-! ## States -/

/-- Only the selected port of an open frame is ready, and only if the datapath is. -/
structure Inv (s : State S c d k U) : Prop where
  out : s.out.Ok
  ready : s.sTready ≠ 0 → s.out.readyInt = true ∧ s.frame = true
  port : s.sTready = 0 ∨ s.sTready = oneHot S s.select.toNat
  select : s.frame = true → s.select.toNat < S

section Edges

variable {s : State S c d k U} {i : Inputs S c d k U}

theorem step_reset (hr : i.rst = true) :
    step s i = ⟨0, false, 0, (s.out.step i.mTready (validInt s i) (current s i)).reset⟩ := by
  rw [step, if_pos hr]

theorem step_eq (hr : i.rst = false) :
    step s i = ⟨selectNext s i, frameNext s i, sTreadyNext s i,
      s.out.step i.mTready (validInt s i) (current s i)⟩ := by
  rw [step, if_neg (Bool.eq_false_iff.mp hr)]

theorem inv_reset (hr : i.rst = true) : Inv (step s i) := by
  rw [step_reset hr]
  exact ⟨Datapath.ok_reset _, fun h => absurd rfl h, Or.inl rfl, fun h => absurd h Bool.false_ne_true⟩

/-- The selected port hands a beat over. -/
def Moves (s : State S c d k U) (i : Inputs S c d k U) : Prop :=
  currentTvalid s i = true ∧ currentTready s = true

theorem Inv.of_tready (h : Inv s) (hready : currentTready s = true) :
    s.out.readyInt = true ∧ s.frame = true := by
  refine h.ready fun hzero => ?_
  simp [currentTready, hzero] at hready

theorem Inv.validInt_eq (h : Inv s) :
    validInt s i = BitVec.ofBool (currentTvalid s i && currentTready s) := by
  cases hready : currentTready s with
  | true => simp [validInt, hready, (h.of_tready hready).2]
  | false => simp [validInt, hready]

/-- Only the selected port can hand a beat over. -/
theorem Inv.acceptedAt_eq (h : Inv s) :
    acceptedAt s i =
      if currentTvalid s i && currentTready s then [(s.select.toNat, current s i)] else [] := by
  obtain hzero | hport := h.port
  · simp [acceptedAt, currentTready, hzero]
  · cases hframe : s.frame with
    | true =>
        have hlt := h.select hframe
        have hready : currentTready s = true := by
          rw [currentTready, hport, getLsbD_oneHot hlt]
          simp
        rw [acceptedAt, hport, filter_oneHot hlt, hready, Bool.and_true]
        show List.map _ (if currentTvalid s i then _ else _) = _
        cases currentTvalid s i <;> rfl
    | false =>
        have hzero : s.sTready = 0 := by
          by_contra hne
          exact Bool.false_ne_true (hframe.symm.trans (h.ready hne).2)
        simp [acceptedAt, currentTready, hzero]

theorem Inv.next (h : Inv s) (hr : i.rst = false) : Inv (step s i) := by
  rw [step_eq hr]
  refine ⟨h.out.step, fun hready => ?_, ?_, fun hframe => ?_⟩
  · have hboth : (s.out.readyIntEarly i.mTready (validInt s i) && frameNext s i) = true := by
      by_contra hne
      exact hready (by simp [sTreadyNext, hne])
    rw [Bool.and_eq_true] at hboth
    exact ⟨(Datapath.readyInt_step ..).trans hboth.1, hboth.2⟩
  · cases hboth : s.out.readyIntEarly i.mTready (validInt s i) && frameNext s i with
    | false => exact Or.inl (by simp [sTreadyNext, hboth])
    | true =>
        refine Or.inr ?_
        show sTreadyNext s i = oneHot S (selectNext s i).toNat
        rw [sTreadyNext, hboth, setWidth_one]
  · cases hstart : starts s i with
    | true =>
        rw [starts, Bool.and_eq_true] at hstart
        have hsel : selectNext s i = i.select := by
          rw [selectNext, if_pos (by simpa [starts] using hstart)]
        show (selectNext s i).toNat < S
        rw [hsel]
        exact BitVec.lt_of_getLsbD hstart.2
    | false =>
        have hopen : s.frame = true := by
          by_contra hne
          simp [frameNext, hstart, hne] at hframe
        show (selectNext s i).toNat < S
        rw [selectNext, if_neg (by simp [hstart])]
        exact h.select hopen

/-- An open frame that is not ended by its last beat stays open, on its port. -/
theorem frame_stays (hframe : s.frame = true)
    (hlast : Moves s i → (current s i).tlast = false) (hr : i.rst = false) :
    (step s i).frame = true ∧ (step s i).select = s.select := by
  have hstart : starts s i = false := by simp [starts, hframe]
  have hmore : ¬(currentTvalid s i && currentTready s && (current s i).tlast) = true := by
    rw [Bool.and_eq_true, Bool.and_eq_true]
    rintro ⟨hmove, hend⟩
    rw [hlast hmove] at hend
    exact Bool.false_ne_true hend
  rw [step_eq hr]
  exact ⟨by simp [frameNext, hframe, hmore], by simp [selectNext, hstart]⟩

end Edges

/-! ## Runs -/

/-- A beat that is offered and not taken is offered again. -/
def Held (s : State S c d k U) (i : Inputs S c d k U) : Prop :=
  s.out.valid ≠ 0 → i.mTready = false →
    (step s i).out.valid = s.out.valid ∧ (step s i).out.reg = s.out.reg

/-- While the output is taken, a frame that starts or goes on finds its port ready at the next edge. -/
def Serves (s : State S c d k U) (i : Inputs S c d k U) : Prop :=
  i.mTready = true → frameNext s i = true → currentTready (step s i) = true

/-- The beats that the ports hand over are delivered in order, frame by frame. -/
structure Switches (s : State S c d k U) (is : List (Inputs S c d k U)) : Prop where
  beats : delivered s is <+: (accepted s is).map Prod.snd
  underway : (accepted s is).length ≤ (delivered s is).length + 2
  frames : Unmixed (accepted s is)
  held : Along step Held s is
  serves : Along step Serves s is

/-- The log of the beats that were accepted, and of those that were delivered. -/
structure Books (s : State S c d k U) (log : List (ℕ × Beat d k U)) (beats : List (Beat d k U)) :
    Prop where
  inv : Inv s
  conserved : log.map Prod.snd = beats ++ s.out.contents.map Prod.snd
  frames : Unmixed log
  midFrame : ∀ a ∈ log.getLast?, a.2.tlast = false → s.frame = true ∧ a.1 = s.select.toNat

section Runs

variable {s : State S c d k U} {i : Inputs S c d k U}

theorem Books.next {log : List (ℕ × Beat d k U)} {beats : List (Beat d k U)} (h : Books s log beats)
    (hr : i.rst = false) :
    Books (step s i) (log ++ acceptedAt s i) (beats ++ deliveredAt s i) := by
  have hint : validInt s i ≠ 0 → s.out.readyInt = true := by
    rw [h.inv.validInt_eq]
    intro hne
    have hready : currentTready s = true := by
      by_contra hno
      exact hne (by simp [hno])
    exact (h.inv.of_tready hready).1
  have hout : (step s i).out = s.out.step i.mTready (validInt s i) (current s i) := by rw [step_eq hr]
  have hin : (if validInt s i == 0 then [] else [(validInt s i, current s i)]).map Prod.snd =
      (acceptedAt s i).map Prod.snd := by
    rw [h.inv.validInt_eq, h.inv.acceptedAt_eq]
    cases currentTvalid s i && currentTready s <;> rfl
  have htaken : (if i.mTready && s.out.valid != 0 then [(s.out.valid, s.out.reg)] else []).map
      Prod.snd = deliveredAt s i := by
    rw [deliveredAt]
    split <;> rfl
  have hdata : s.out.contents.map Prod.snd ++ (acceptedAt s i).map Prod.snd =
      deliveredAt s i ++ (step s i).out.contents.map Prod.snd := by
    rw [hout, ← hin, ← htaken, ← List.map_append, ← List.map_append,
      Datapath.contents_step h.inv.out hint]
  by_cases hmove : Moves s i
  · have hin : acceptedAt s i = [(s.select.toNat, current s i)] := by
      rw [h.inv.acceptedAt_eq, if_pos (by simpa [Moves] using hmove)]
    have hframe : s.frame = true := (h.inv.of_tready hmove.2).2
    refine ⟨h.inv.next hr, ?_, ?_, ?_⟩
    · rw [List.map_append, h.conserved, List.append_assoc, hdata, List.append_assoc]
    · rw [hin]
      refine h.frames.append (.singleton _) fun a ha b hb hmore => ?_
      rw [List.head?_cons, Option.mem_some_iff] at hb
      rw [← hb, (h.midFrame a ha hmore).2]
    · rw [hin]
      intro a ha hmore
      rw [List.getLast?_concat, Option.mem_some_iff] at ha
      subst ha
      obtain ⟨hopen, hsel⟩ := frame_stays hframe (fun _ => hmore) hr
      exact ⟨hopen, by rw [hsel]⟩
  · have hin : acceptedAt s i = [] := by
      rw [h.inv.acceptedAt_eq, if_neg (by simpa [Moves] using hmove)]
    refine ⟨h.inv.next hr, ?_, ?_, ?_⟩
    · rw [List.map_append, h.conserved, List.append_assoc, hdata, List.append_assoc]
    · rw [hin, List.append_nil]
      exact h.frames
    · rw [hin, List.append_nil]
      intro a ha hmore
      obtain ⟨hframe, hport⟩ := h.midFrame a ha hmore
      obtain ⟨hopen, hsel⟩ := frame_stays hframe (fun hm => absurd hm hmove) hr
      exact ⟨hopen, by rw [hport, hsel]⟩

theorem held (hr : i.rst = false) : Held s i := by
  intro hvalid hready
  rw [step_eq hr, hready]
  exact Datapath.step_held hvalid

theorem Inv.serves (h : Inv s) (hr : i.rst = false) : Serves s i := by
  intro hready hframe
  have hnext := h.next hr (i := i)
  have hall : sTreadyNext s i = oneHot S (selectNext s i).toNat := by
    rw [sTreadyNext, Datapath.readyIntEarly, hready, hframe, Bool.true_or, Bool.true_and, setWidth_one]
  have hlt : (selectNext s i).toNat < S := by
    rw [step_eq hr] at hnext
    exact hnext.select hframe
  rw [step_eq hr]
  show (sTreadyNext s i).getLsbD (selectNext s i).toNat = true
  rw [hall, getLsbD_oneHot hlt]
  simp

/-- From reset, frames are passed on one after the other, however the port is selected. -/
theorem switches (s₀ : State S c d k U) {r : Inputs S c d k U} {is : List (Inputs S c d k U)}
    (hr : r.rst = true) (hi : ∀ i ∈ is, i.rst = false) : Switches (step s₀ r) is := by
  have hstart : Books (step s₀ r) [] [] := by
    refine ⟨inv_reset hr, ?_, .nil, fun a ha => absurd ha (by simp)⟩
    rw [step_reset hr]
    simp
  have hrun : Along step (fun _ i => i.rst = false) (step s₀ r) is := along_of_inputs step _ hi
  have hend : Books (run step (step s₀ r) is) (accepted (step s₀ r) is) (delivered (step s₀ r) is) :=
    run_ledger Books (fun _ _ _ _ h hr => h.next hr) hstart hrun
  have hlen := Datapath.length_contents_le (run step (step s₀ r) is).out
  refine ⟨⟨_, hend.conserved.symm⟩, ?_, hend.frames, hrun.mono fun _ _ hr => held hr, ?_⟩
  · have htotal := congrArg List.length hend.conserved
    rw [List.length_map, List.length_append, List.length_map] at htotal
    omega
  · exact hrun.strengthen Inv (fun s i h hr => ⟨h.next hr, h.serves hr⟩) (inv_reset hr)

end Runs

/-- A cycle of two ports that always offer a beat, tagged with the port, while port `sel` is selected. -/
def cycleInputs (rst : Bool) (sel : BitVec 1) (last mTready : Bool) : Inputs 2 1 8 1 Unit :=
  ⟨rst, fun port => ⟨BitVec.ofNat 8 port, 1, last, ()⟩, 3, mTready, true, sel⟩

/-- The selected port changes in the middle of a frame. -/
def twoFrames : List (Inputs 2 1 8 1 Unit) :=
  [cycleInputs false 1 false true, cycleInputs false 1 false true, cycleInputs false 0 false false,
    cycleInputs false 0 true true, cycleInputs false 0 true true, cycleInputs false 0 true true,
    cycleInputs false 0 true true, cycleInputs false 0 true true]

theorem switches_two :
    let s : State 2 1 8 1 Unit := step default (cycleInputs true 0 false false)
    delivered s twoFrames = [⟨1, 1, false, ()⟩, ⟨1, 1, false, ()⟩, ⟨1, 1, true, ()⟩,
        ⟨0, 1, true, ()⟩] ∧
      Switches s twoFrames :=
  ⟨by decide, switches default rfl (by decide)⟩

end MiscVerilogCores.AxisSwitch.Mux
