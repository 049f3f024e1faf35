import MiscVerilogCores.Verification.AxisSwitch.Datapath

/-! # Frames for many ports

The port of a frame is the one that is chosen with its first beat. The beats of a frame that is dropped
are accepted and go nowhere. -/

namespace MiscVerilogCores.AxisSwitch.Demux

open Clocked

variable {p : Params} {d k : ℕ} {U : Type}

/-- A port, and whether the frame is dropped instead. -/
abbrev Choice (p : Params) := BitVec p.c × Bool

/-! ## What a demultiplexer is for -/

/-- The choice that is in force behind a beat, if its frame goes on. -/
def choose (open_ : Option (Choice p)) (beat : Packet p d k U × Choice p) : Option (Choice p) :=
  if beat.1.1.tlast then none else some (open_.getD beat.2)

/-- Where a beat goes. -/
def route (open_ : Option (Choice p)) (beat : Packet p d k U × Choice p) : List (ℕ × Packet p d k U) :=
  if (open_.getD beat.2).2 then [] else [((open_.getD beat.2).1.toNat, beat.1)]

/-- The beats that are not dropped, each with the port of its frame. -/
def routed (beats : List (Packet p d k U × Choice p)) : List (ℕ × Packet p d k U) :=
  emitted choose route none beats

/-- The beats that are accepted, each with the choice that is offered with it. -/
def acceptedAt (s : State p d k U) (i : Inputs p d k U) : List (Packet p d k U × Choice p) :=
  if accepts s i then [(int i, grab i)] else []

def accepted (s : State p d k U) (is : List (Inputs p d k U)) : List (Packet p d k U × Choice p) :=
  emitted step acceptedAt s is

/-- The beats that are taken at an edge, each with the port that takes it. -/
def deliveredAt (s : State p d k U) (i : Inputs p d k U) : List (ℕ × Packet p d k U) :=
  ((List.range p.M).filter fun port => s.out.valid.getLsbD port && i.mTready.getLsbD port).map fun port =>
    (port, s.out.reg)

def delivered (s : State p d k U) (is : List (Inputs p d k U)) : List (ℕ × Packet p d k U) :=
  emitted step deliveredAt s is

/-! ## States -/

/-- While a frame is dropped nothing is let into the temporary register, so that the next frame finds the
datapath ready. -/
structure Inv (s : State p d k U) : Prop where
  out : s.out.Ok
  ready : s.sTready = true → s.out.readyInt = true
  drop : s.drop = true → s.frame = true ∧ s.out.tempValid = 0
  port : s.frame = true → s.drop = false → s.select.toNat < p.M

/-- The choice that is in force. -/
def inForce (s : State p d k U) : Option (Choice p) :=
  if s.frame then some (s.select, s.drop) else none

section Edges

variable {s : State p d k U} {i : Inputs p d k U}

theorem step_reset (hr : i.rst = true) :
    step s i = ⟨0, false, false, false, (s.out.step (takes s i) (validInt s i) (int i)).reset⟩ := by
  rw [step, if_pos hr]

theorem step_eq (hr : i.rst = false) :
    step s i =
      { select := selectNext s i
        drop := dropNext s i
        frame := frameNext s i
        sTready := s.out.readyIntEarly (takes s i) (validInt s i) || dropCtl s i
        out := s.out.step (takes s i) (validInt s i) (int i) } := by
  rw [step, if_neg (Bool.eq_false_iff.mp hr)]

theorem inv_reset (hr : i.rst = true) : Inv (step s i) := by
  rw [step_reset hr]
  exact ⟨Datapath.ok_reset _, fun h => absurd h Bool.false_ne_true,
    fun h => absurd h Bool.false_ne_true, fun h => absurd h Bool.false_ne_true⟩

theorem grab_lt (hM : 0 < p.M) (hdrop : (grab i).2 = false) : (grab i).1.toNat < p.M := by
  rw [grab] at hdrop ⊢
  split at hdrop
  next hroute =>
    rw [if_pos hroute]
    split at hdrop
    next hmany =>
      rw [if_pos hmany]
      simpa using hdrop
    next hmany =>
      rw [if_neg hmany]
      simpa using hM
  next hroute =>
    rw [if_neg hroute]
    rw [Bool.or_eq_false_iff] at hdrop
    simpa using hdrop.2

/-- A beat goes where its frame goes. -/
theorem ctl_eq (haccepts : accepts s i = true) :
    (inForce s).getD (grab i) = (selectCtl s i, dropCtl s i) := by
  cases hframe : s.frame <;> simp [inForce, selectCtl, dropCtl, hframe, haccepts]

/-- Without a beat, or in the middle of a frame, the choice in force is left as it is. -/
theorem inForce_step (hr : i.rst = false) :
    inForce (step s i) =
      if accepts s i then choose (inForce s) (int i, grab i) else inForce s := by
  rw [step_eq hr]
  cases haccepts : accepts s i with
  | false => cases hframe : s.frame <;> simp [inForce, frameNext, selectNext, dropNext, hframe, haccepts]
  | true =>
      rw [if_pos rfl, choose, ctl_eq haccepts]
      cases hlast : i.sAxis.tlast with
      | true => simp [inForce, frameNext, haccepts, hlast, int]
      | false =>
          cases hframe : s.frame <;>
            simp [inForce, frameNext, selectNext, dropNext, selectCtl, dropCtl, hframe, haccepts, hlast, int]

/-- A beat that is not dropped is for one of the ports. -/
theorem Inv.ctl_lt (h : Inv s) (hM : 0 < p.M) (haccepts : accepts s i = true)
    (hdrop : dropCtl s i = false) : (selectCtl s i).toNat < p.M := by
  cases hframe : s.frame with
  | true =>
      have hkeep : s.drop = false := by simpa [dropCtl, hframe] using hdrop
      simpa [selectCtl, hframe] using h.port hframe hkeep
  | false =>
      have hgrab : (grab i).2 = false := by simpa [dropCtl, hframe, haccepts] using hdrop
      simpa [selectCtl, hframe, haccepts] using grab_lt hM hgrab

theorem validInt_eq :
    validInt s i = if accepts s i && !dropCtl s i then oneHot p.M (selectCtl s i).toNat else 0 := by
  rw [validInt]
  cases accepts s i && !dropCtl s i with
  | true => rw [setWidth_one]; rfl
  | false => simp

/-- A frame that is dropped leaves the temporary register empty, and puts nothing in. -/
theorem Inv.dropping (h : Inv s) (hdrop : dropCtl s i = true) :
    s.out.tempValid = 0 ∧ validInt s i = 0 := by
  have hnone : validInt s i = 0 := by rw [validInt_eq, hdrop]; simp
  cases hframe : s.frame with
  | true => exact ⟨(h.drop (by simpa [dropCtl, hframe] using hdrop)).2, hnone⟩
  | false =>
      cases haccepts : accepts s i with
      | true =>
          have hready : s.sTready = true := by
            rw [accepts, sAxisTready, Bool.and_eq_true, Bool.and_eq_true] at haccepts
            exact haccepts.2.1
          exact ⟨h.out.ready (h.ready hready), hnone⟩
      | false => exact ⟨(h.drop (by simpa [dropCtl, hframe, haccepts] using hdrop)).2, hnone⟩

/-- A frame starts that goes on behind this beat. -/
def Opens (s : State p d k U) (i : Inputs p d k U) : Prop :=
  (!s.frame && accepts s i && !i.sAxis.tlast) = true

theorem Opens.next_eq (h : Opens s i) :
    frameNext s i = true ∧ selectNext s i = selectCtl s i ∧ dropNext s i = dropCtl s i := by
  rw [Opens] at h
  exact ⟨by simp [frameNext, h], by rw [selectNext, if_pos h], by rw [dropNext, if_pos h]⟩

theorem next_eq_of_not_opens (h : ¬Opens s i) :
    frameNext s i = (s.frame && !(accepts s i && i.sAxis.tlast)) ∧ selectNext s i = s.select ∧
      dropNext s i = (s.drop && !(accepts s i && i.sAxis.tlast)) := by
  rw [Opens] at h
  refine ⟨?_, by rw [selectNext, if_neg h], by rw [dropNext, if_neg h]⟩
  rw [frameNext, Bool.eq_false_iff.mpr h, Bool.false_or]

/-- What is dropped in the next cycle is dropped in this one. -/
theorem Inv.dropNext_imp (h : Inv s) (hdrop : dropNext s i = true) :
    frameNext s i = true ∧ dropCtl s i = true := by
  by_cases hopens : Opens s i
  · obtain ⟨hframe, -, heq⟩ := hopens.next_eq
    exact ⟨hframe, heq ▸ hdrop⟩
  · obtain ⟨hframe, -, heq⟩ := next_eq_of_not_opens hopens
    rw [heq, Bool.and_eq_true] at hdrop
    have hold := (h.drop hdrop.1).1
    exact ⟨by rw [hframe, hold, hdrop.2]; rfl, by simp [dropCtl, hold, hdrop.1]⟩

theorem Inv.next (h : Inv s) (hM : 0 < p.M) (hr : i.rst = false) : Inv (step s i) := by
  rw [step_eq hr]
  refine ⟨h.out.step, fun hready => ?_, fun hdrop => ?_, fun hframe hkeep => ?_⟩
  · show (s.out.step _ _ _).readyInt = true
    rw [Datapath.readyInt_step]
    cases hdrop : dropCtl s i with
    | true =>
        obtain ⟨htemp, hnone⟩ := h.dropping hdrop
        simp [Datapath.readyIntEarly, htemp, hnone]
    | false => simpa [hdrop] using hready
  · obtain ⟨hframe, hctl⟩ := h.dropNext_imp hdrop
    obtain ⟨htemp, hnone⟩ := h.dropping hctl
    refine ⟨hframe, ?_⟩
    show (s.out.step _ (validInt s i) _).tempValid = 0
    rw [hnone]
    exact Datapath.tempValid_step htemp
  · show (selectNext s i).toNat < p.M
    by_cases hopens : Opens s i
    · obtain ⟨-, hsel, heq⟩ := hopens.next_eq
      have haccepts : accepts s i = true := by
        rw [Opens, Bool.and_eq_true, Bool.and_eq_true] at hopens
        exact hopens.1.2
      rw [hsel]
      exact h.ctl_lt hM haccepts (heq ▸ hkeep)
    · obtain ⟨hopen, hsel, heq⟩ := next_eq_of_not_opens hopens
      have hboth : s.frame = true ∧ (!(accepts s i && i.sAxis.tlast)) = true := by
        rw [← Bool.and_eq_true, ← hopen]
        exact hframe
      have hold : s.drop = false := by
        have hand : (s.drop && !(accepts s i && i.sAxis.tlast)) = false := heq ▸ hkeep
        rwa [hboth.2, Bool.and_true] at hand
      rw [hsel]
      exact h.port hboth.1 hold

theorem Inv.ready_of_validInt (h : Inv s) (hne : validInt s i ≠ 0) : s.out.readyInt = true := by
  refine h.ready ?_
  by_contra hno
  exact hne (by rw [validInt_eq]; simp [accepts, sAxisTready, hno])

end Edges

/-! ## Runs -/

/-- The beats as the datapath holds them. -/
def masked (beats : List (ℕ × Packet p d k U)) : List (BitVec p.M × Packet p d k U) :=
  beats.map fun a => (oneHot p.M a.1, a.2)

/-- A beat that is offered and not taken is offered again, on the same port. -/
def Held (s : State p d k U) (i : Inputs p d k U) : Prop :=
  s.out.valid ≠ 0 → i.mTready &&& s.out.valid = 0 →
    (step s i).out.valid = s.out.valid ∧ (step s i).out.reg = s.out.reg

/-- The beats that are not dropped are delivered in order, each on the port of its frame. -/
structure Routes (s : State p d k U) (is : List (Inputs p d k U)) : Prop where
  beats : delivered s is <+: routed (accepted s is)
  underway : (routed (accepted s is)).length ≤ (delivered s is).length + 2
  held : Along step Held s is

/-- The log of the beats that were accepted, and of those that were delivered. -/
structure Books (s : State p d k U) (log : List (Packet p d k U × Choice p))
    (beats : List (ℕ × Packet p d k U)) : Prop where
  inv : Inv s
  inForce : run choose none log = inForce s
  conserved : ∃ left : List (ℕ × Packet p d k U), s.out.contents = masked left ∧
    (∀ a ∈ left, a.1 < p.M) ∧ routed log = beats ++ left

section Runs

variable {s : State p d k U} {i : Inputs p d k U}

/-- What the offered beat adds to what is held. -/
theorem routed_acceptedAt (log : List (Packet p d k U × Choice p)) (hlog : run choose none log = inForce s) :
    routed (log ++ acceptedAt s i) = routed log ++
      if accepts s i && !dropCtl s i then [((selectCtl s i).toNat, int i)] else [] := by
  rw [routed, emitted_append, hlog, routed]
  cases haccepts : accepts s i with
  | false => simp [acceptedAt, haccepts]
  | true => cases hdrop : dropCtl s i <;> simp [acceptedAt, haccepts, route, ctl_eq, hdrop]

/-- The port that a beat is for is the only one that takes it. -/
theorem deliveredAt_eq {port : ℕ} (hport : port < p.M) (hvalid : s.out.valid = oneHot p.M port) :
    takes s i = i.mTready.getLsbD port ∧
      deliveredAt s i = if i.mTready.getLsbD port then [(port, s.out.reg)] else [] := by
  constructor
  · rw [takes, hvalid]
    cases hbit : i.mTready.getLsbD port with
    | true =>
        refine bne_iff_ne.mpr fun hzero => ?_
        have hboth := congrArg (BitVec.getLsbD · port) hzero
        simp [hbit, getLsbD_oneHot hport] at hboth
    | false =>
        refine bne_eq_false_iff_eq.mpr (BitVec.eq_of_getLsbD_eq fun q _ => ?_)
        rw [BitVec.getLsbD_and, getLsbD_oneHot hport]
        by_cases heq : q = port <;> simp [heq, hbit]
  · rw [deliveredAt, hvalid, filter_oneHot hport]
    split <;> rfl

theorem Books.next {log : List (Packet p d k U × Choice p)} {beats : List (ℕ × Packet p d k U)}
    (h : Books s log beats) (hM : 0 < p.M) (hr : i.rst = false) :
    Books (step s i) (log ++ acceptedAt s i) (beats ++ deliveredAt s i) := by
  refine ⟨h.inv.next hM hr, ?_, ?_⟩
  · rw [run_append, h.inForce, inForce_step hr, acceptedAt]
    cases accepts s i <;> rfl
  obtain ⟨left, hleft, hports, hrouted⟩ := h.conserved
  let new : List (ℕ × Packet p d k U) :=
    if accepts s i && !dropCtl s i then [((selectCtl s i).toNat, int i)] else []
  have hnew : ∀ a ∈ new, a.1 < p.M := by
    cases hgoes : accepts s i && !dropCtl s i with
    | false => simp [new, hgoes]
    | true =>
        rw [Bool.and_eq_true, Bool.not_eq_true'] at hgoes
        simpa [new, hgoes.1, hgoes.2] using h.inv.ctl_lt hM hgoes.1 hgoes.2
  have hint : (if validInt s i == 0 then [] else [(validInt s i, int i)]) = masked new := by
    cases hgoes : accepts s i && !dropCtl s i with
    | false => simp [validInt_eq, new, masked, hgoes]
    | true =>
        have hlt : (selectCtl s i).toNat < p.M := hnew ((selectCtl s i).toNat, int i) (by simp [new, hgoes])
        have hne : oneHot p.M (selectCtl s i).toNat ≠ 0 := oneHot_ne_zero hlt
        rw [validInt_eq, hgoes, if_pos rfl, if_neg (by simpa using hne)]
        simp [new, masked, hgoes]
  have hitems : masked (left ++ new) =
      (if takes s i && s.out.valid != 0 then [(s.out.valid, s.out.reg)] else []) ++
        (step s i).out.contents := by
    have hready : validInt s i ≠ 0 → s.out.readyInt = true := h.inv.ready_of_validInt
    rw [step_eq hr]
    show _ = _ ++ (s.out.step (takes s i) (validInt s i) (int i)).contents
    rw [← Datapath.contents_step h.inv.out hready, hint, hleft, masked, masked, masked, List.map_append]
  have hall : routed (log ++ acceptedAt s i) = beats ++ (left ++ new) := by
    rw [routed_acceptedAt log h.inForce, hrouted, List.append_assoc]
  have hlt : ∀ a ∈ left ++ new, a.1 < p.M := fun a ha =>
    (List.mem_append.mp ha).elim (hports a) (hnew a)
  by_cases hvalid : s.out.valid = 0
  · -- nothing is offered
    have hnone : deliveredAt s i = [] := by simp [deliveredAt, hvalid]
    refine ⟨left ++ new, ?_, hlt, by rw [hall, hnone, List.append_nil]⟩
    rw [hitems]
    simp [hvalid]
  · cases left with
    | nil =>
        refine absurd hleft ?_
        rw [Datapath.contents, if_neg (by simpa using hvalid)]
        simp [masked]
    | cons a rest =>
        rw [Datapath.contents, if_neg (by simpa using hvalid)] at hleft
        obtain ⟨hhead, -⟩ := List.cons.inj hleft
        obtain ⟨hport, hreg⟩ := Prod.mk.inj hhead
        obtain ⟨htakes, hgiven⟩ := deliveredAt_eq (hports a List.mem_cons_self) hport (i := i)
        cases hready : i.mTready.getLsbD a.1 with
        | true =>
            rw [hready] at htakes
            have hgoes : (takes s i && s.out.valid != 0) = true := by
              rw [htakes, Bool.true_and]
              exact bne_iff_ne.mpr hvalid
            rw [hgoes, if_pos rfl] at hitems
            refine ⟨rest ++ new, ?_, fun b hb => hlt b (List.mem_cons_of_mem a hb), ?_⟩
            · exact (List.cons.inj hitems).2.symm
            · rw [hall, hgiven, hready, hreg, List.append_assoc]
              rfl
        | false =>
            rw [hready] at htakes
            rw [htakes] at hitems
            refine ⟨a :: rest ++ new, hitems.symm, hlt, ?_⟩
            rw [hall, hgiven, hready, if_neg Bool.false_ne_true, List.append_nil]

theorem held (hr : i.rst = false) : Held s i := by
  intro hvalid hready
  have htakes : takes s i = false := by simp [takes, hready]
  rw [step_eq hr, htakes]
  exact Datapath.step_held hvalid

/-- From reset, frames are routed, however the ports are stalled. -/
theorem routes (s₀ : State p d k U) {r : Inputs p d k U} {is : List (Inputs p d k U)} (hM : 0 < p.M)
    (hr : r.rst = true) (hi : ∀ i ∈ is, i.rst = false) : Routes (step s₀ r) is := by
  have hstart : Books (step s₀ r) [] [] := by
    refine ⟨inv_reset hr, ?_, [], ?_, by simp, rfl⟩
    · rw [step_reset hr]
      rfl
    · rw [step_reset hr]
      simp [masked]
  have hrun : Along step (fun _ i => i.rst = false) (step s₀ r) is := along_of_inputs step _ hi
  have hend : Books (run step (step s₀ r) is) (accepted (step s₀ r) is) (delivered (step s₀ r) is) :=
    run_ledger Books (fun _ _ _ _ h hr => h.next hM hr) hstart hrun
  obtain ⟨left, hleft, -, hrouted⟩ := hend.conserved
  have hlen := Datapath.length_contents_le (run step (step s₀ r) is).out
  rw [hleft, masked, List.length_map] at hlen
  refine ⟨⟨left, hrouted.symm⟩, ?_, hrun.mono fun _ _ hr => held hr⟩
  rw [hrouted, List.length_append]
  omega

end Runs

/-- Three ports, which are chosen by the two bits of `tdest`. -/
def three : Params := ⟨3, 2, 2, 2, true⟩

def cycleInputs (rst : Bool) (tdest : BitVec 2) (data : BitVec 8) (last : Bool) (mTready : BitVec 3) :
    Inputs three 8 1 Unit :=
  ⟨rst, ⟨data, 1, last, ()⟩, tdest, true, mTready, true, false, 0⟩

/-- A frame for port 2, one that is dropped and one for port 0, whose beats wait for their ports. -/
def threeFrames : List (Inputs three 8 1 Unit) :=
  [cycleInputs false 2 0x10 false 7, cycleInputs false 2 0x10 false 7, cycleInputs false 1 0x11 true 3,
    cycleInputs false 3 0x12 false 3, cycleInputs false 3 0x12 false 7, cycleInputs false 3 0x12 false 7,
    cycleInputs false 0 0x13 true 7, cycleInputs false 0 0x14 true 7, cycleInputs false 0 0x15 true 7]

theorem routes_three :
    let s : State three 8 1 Unit := step default (cycleInputs true 0 0 false 0)
    delivered s threeFrames = [(2, ⟨0x10, 1, false, ()⟩, 2), (2, ⟨0x11, 1, true, ()⟩, 1),
        (0, ⟨0x14, 1, true, ()⟩, 0)] ∧
      Routes s threeFrames :=
  ⟨by decide, routes default (by decide) rfl (by decide)⟩

end MiscVerilogCores.AxisSwitch.Demux
