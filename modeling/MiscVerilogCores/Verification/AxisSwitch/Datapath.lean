import MiscVerilogCores.Library.Clocked
import MiscVerilogCores.Model.AxisSwitch

/-! # The output datapath

Two registers in a row. The internal ready signal is registered, and whatever is put in while it is high
goes through in order. -/

namespace MiscVerilogCores.AxisSwitch

/-! ## One-hot vectors -/

section OneHot

variable {M port : ℕ}

/-- The vector with the one bit of a port. -/
abbrev oneHot (M port : ℕ) : BitVec M := (1 : BitVec M) <<< port

theorem setWidth_one : (BitVec.ofBool true).setWidth M = 1 := by
  refine BitVec.eq_of_toNat_eq ?_
  simp

theorem getLsbD_oneHot (hport : port < M) (q : ℕ) : (oneHot M port).getLsbD q = decide (q = port) := by
  rw [BitVec.getLsbD_shiftLeft]
  obtain hlt | rfl | hgt := Nat.lt_trichotomy q port
  · simp [hlt, Nat.ne_of_lt hlt]
  · simp [hport, show 0 < M by omega]
  · simp [Nat.ne_of_gt hgt, show q - port ≠ 0 by omega]

theorem oneHot_ne_zero (hport : port < M) : oneHot M port ≠ 0 := by
  intro hzero
  have hbit := getLsbD_oneHot hport port
  rw [hzero] at hbit
  simp at hbit

/-- Of the ports that are picked by a one-hot vector, there is one at most. -/
theorem filter_oneHot (hport : port < M) (v : BitVec M) :
    ((List.range M).filter fun q => (oneHot M port).getLsbD q && v.getLsbD q) =
      if v.getLsbD port then [port] else [] := by
  have hcount : (List.range M).count port = 1 := by rw [List.count_range, if_pos hport]
  split
  next hbit =>
    have hsame (q : ℕ) (_ : q ∈ List.range M) :
        ((oneHot M port).getLsbD q && v.getLsbD q) = decide (q = port) := by
      rw [getLsbD_oneHot hport]
      by_cases heq : q = port <;> simp [heq, hbit]
    rw [List.filter_congr hsame, List.filter_eq, hcount]
    rfl
  next hbit =>
    refine List.filter_eq_nil_iff.mpr fun q _ => ?_
    rw [getLsbD_oneHot hport]
    by_cases heq : q = port <;> simp [heq, hbit]

end OneHot

namespace Datapath

/-! ## Two registers -/

variable {M : ℕ} {β : Type} {o : Datapath M β} {takes : Bool} {validInt : BitVec M} {int : β}

/-- What the registers hold, oldest first. -/
def contents (o : Datapath M β) : List (BitVec M × β) :=
  (if o.valid == 0 then [] else [(o.valid, o.reg)]) ++
    if o.tempValid == 0 then [] else [(o.tempValid, o.temp)]

/-- The temporary register is in use only behind the other one, and nothing is let in while it is. -/
structure Ok (o : Datapath M β) : Prop where
  ready : o.readyInt = true → o.tempValid = 0
  behind : o.tempValid ≠ 0 → o.valid ≠ 0

theorem ok_reset (o : Datapath M β) : Ok o.reset := ⟨fun _ => rfl, fun h => absurd rfl h⟩

@[simp] theorem contents_reset (o : Datapath M β) : o.reset.contents = [] := by
  simp [contents, reset]

@[simp] theorem readyInt_step (o : Datapath M β) (takes : Bool) (validInt : BitVec M) (int : β) :
    (o.step takes validInt int).readyInt = o.readyIntEarly takes validInt := by
  rw [step]
  split
  · split <;> rfl
  · split <;> rfl

theorem length_contents_le (o : Datapath M β) : o.contents.length ≤ 2 := by
  rw [contents, List.length_append]
  split <;> split <;> simp

/-- The output register can be loaded. -/
def Free (o : Datapath M β) (takes : Bool) : Prop := takes = true ∨ o.valid = 0

theorem step_free (hready : o.readyInt = true) (hfree : Free o takes) :
    o.step takes validInt int =
      { o with readyInt := o.readyIntEarly takes validInt, valid := validInt, reg := int } := by
  have h : (takes || o.valid == 0) = true := by simpa [Free] using hfree
  rw [step, if_pos hready, if_pos h]

theorem step_store (hready : o.readyInt = true) (hfree : ¬Free o takes) :
    o.step takes validInt int =
      { o with readyInt := o.readyIntEarly takes validInt, tempValid := validInt, temp := int } := by
  have h : ¬(takes || o.valid == 0) = true := by simpa [Free] using hfree
  rw [step, if_pos hready, if_neg h]

theorem step_shift (hready : ¬o.readyInt = true) :
    o.step true validInt int =
      ⟨o.tempValid, o.temp, o.readyIntEarly true validInt, 0, o.temp⟩ := by
  rw [step, if_neg hready, if_pos rfl]

theorem step_hold (hready : ¬o.readyInt = true) :
    o.step false validInt int = { o with readyInt := o.readyIntEarly false validInt } := by
  rw [step, if_neg hready, if_neg Bool.false_ne_true]

theorem Ok.step (h : Ok o) : Ok (o.step takes validInt int) := by
  by_cases hready : o.readyInt = true
  · have htemp := h.ready hready
    by_cases hfree : Free o takes
    · rw [step_free hready hfree]
      exact ⟨fun _ => htemp, fun hne => absurd htemp hne⟩
    · rw [step_store hready hfree]
      obtain ⟨htakes, hvalid⟩ := not_or.mp hfree
      refine ⟨fun hearly => ?_, fun _ => hvalid⟩
      -- the temporary register is loaded: it is ready again if that was with nothing
      have hnothing : o.valid = 0#M ∨ validInt = 0#M := by
        simpa [readyIntEarly, htakes, htemp] using hearly
      exact hnothing.resolve_left hvalid
  · cases takes with
    | true =>
        rw [step_shift hready]
        exact ⟨fun _ => rfl, fun hne => absurd rfl hne⟩
    | false =>
        rw [step_hold hready]
        refine ⟨fun hearly => ?_, h.behind⟩
        rw [readyIntEarly, Bool.false_or, Bool.and_eq_true, beq_iff_eq] at hearly
        exact hearly.1

/-- What is put in while the datapath is ready goes behind what is held, and what is taken is the oldest
of it. -/
theorem contents_step (h : Ok o) (hint : validInt ≠ 0 → o.readyInt = true) :
    o.contents ++ (if validInt == 0 then [] else [(validInt, int)]) =
      (if takes && o.valid != 0 then [(o.valid, o.reg)] else []) ++
        (o.step takes validInt int).contents := by
  by_cases hready : o.readyInt = true
  · have htemp := h.ready hready
    by_cases hfree : Free o takes
    · rw [step_free hready hfree]
      obtain htakes | hvalid := hfree
      · by_cases hvalid : o.valid = 0 <;> simp [contents, htemp, htakes, hvalid]
      · simp [contents, htemp, hvalid]
    · rw [step_store hready hfree]
      obtain ⟨htakes, hvalid⟩ := not_or.mp hfree
      simp [contents, htemp, htakes, show o.valid ≠ 0#M from hvalid]
  · have hzero : validInt = 0 := by
      by_contra hne
      exact hready (hint hne)
    cases takes with
    | true =>
        rw [step_shift hready]
        by_cases hvalid : o.valid = 0
        · have htemp : o.tempValid = 0 := by
            by_contra hne
            exact h.behind hne hvalid
          simp [contents, hzero, hvalid, htemp]
        · simp [contents, hzero, show o.valid ≠ 0#M from hvalid]
    | false =>
        rw [step_hold hready]
        simp [contents, hzero]

/-- With nothing put in, the temporary register stays empty. -/
theorem tempValid_step (htemp : o.tempValid = 0) : (o.step takes 0 int).tempValid = 0 := by
  by_cases hready : o.readyInt = true
  · by_cases hfree : Free o takes
    · rw [step_free hready hfree]
      exact htemp
    · rw [step_store hready hfree]
  · cases takes with
    | true => rw [step_shift hready]
    | false =>
        rw [step_hold hready]
        exact htemp

/-- What is offered and not taken stays as it is. -/
theorem step_held (hvalid : o.valid ≠ 0) :
    (o.step false validInt int).valid = o.valid ∧ (o.step false validInt int).reg = o.reg := by
  by_cases hready : o.readyInt = true
  · have hbusy : ¬Free o false := not_or.mpr ⟨Bool.false_ne_true, hvalid⟩
    rw [step_store hready hbusy]
    exact ⟨rfl, rfl⟩
  · rw [step_hold hready]
    exact ⟨rfl, rfl⟩

end Datapath

end MiscVerilogCores.AxisSwitch
