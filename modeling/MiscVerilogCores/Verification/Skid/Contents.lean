import MiscVerilogCores.Model.Skid

/-! # A skid register is a queue of at most two words -/

namespace MiscVerilogCores

namespace SkidLoader

open Skid

variable {WIDTH : ℕ}

/-- The words held, oldest first: the output register, then the temporary one. -/
def contents (s : State WIDTH) : List (Bool × BitVec WIDTH) :=
  (if s.mvalid then [(s.mlast, s.mdata)] else []) ++
    (if s.tvalid then [(s.tlast, s.tdata)] else [])

/-- The word taken from the source port. -/
def taken (s : State WIDTH) (i : Inputs WIDTH) : List (Bool × BitVec WIDTH) :=
  if i.sTvalid && s.sready then [(i.sTlast, i.sTdata)] else []

/-- The word taken from the explicit-load port. -/
def loaded (p : Params WIDTH) (s : State WIDTH) (i : Inputs WIDTH) : List (Bool × BitVec WIDTH) :=
  if loads p s i then [(i.tTlast, i.tTdata)] else []

/-- The word handed to the destination. -/
def given (s : State WIDTH) (i : Inputs WIDTH) : List (Bool × BitVec WIDTH) :=
  if s.mvalid && i.mTready then [(s.mlast, s.mdata)] else []

/-- The control registers agree with each other. Right after a reset neither the
source nor the temporary register is ready, and nothing is held. -/
structure Valid (s : State WIDTH) : Prop where
  behind : s.tvalid = true → s.mvalid = true
  ready : s.sready = true → s.tvalid = false
  loadable : s.tready = true → s.sready = true
  starting : s.sready = false → s.tvalid = false → s.mvalid = false

/-- What the surroundings owe at an edge: no word is offered in the first cycle
after a reset, and an explicit load comes with a word from the source that goes
straight to the output register, or finds the output register stalled. -/
structure Offer (p : Params WIDTH) (s : State WIDTH) (i : Inputs WIDTH) : Prop where
  started : s.sready = false → s.tvalid = false → i.sTvalid = false
  load : loads p s i = true → (i.sTvalid = !(s.mvalid && !i.mTready))

theorem loads_eq_true {p : Params WIDTH} {s : State WIDTH} {i : Inputs WIDTH} :
    loads p s i = true → i.tTvalid = true ∧ s.tready = true := by
  simp only [loads, Bool.and_eq_true]
  exact fun h => ⟨h.1.2, h.2⟩

theorem valid_of_reset (p : Params WIDTH) (s : State WIDTH) (i : Inputs WIDTH)
    (hr : i.reset = true) : Valid (step p s i) ∧ contents (step p s i) = [] := by
  constructor
  · constructor <;> simp [step, hr]
  · simp [contents, step, hr]

theorem Valid.step {p : Params WIDTH} {s : State WIDTH} {i : Inputs WIDTH}
    (h : Valid s) (ho : Offer p s i) : Valid (step p s i) := by
  obtain ⟨hb, hs, hl, hst⟩ := h
  obtain ⟨ho, hload⟩ := ho
  have hld' := @loads_eq_true WIDTH p s i
  cases hr : i.reset
  · constructor <;>
      cases hv : i.sTvalid <;> cases hd : i.mTready <;> cases hsr : s.sready <;>
      cases htv : s.tvalid <;> cases hmv : s.mvalid <;> cases hld : loads p s i <;>
      simp_all [SkidLoader.step, srcReady, tmpReady, tmpValid, dstValid]
  · exact (valid_of_reset p s i hr).1

/-- After an edge without reset one of the two sides is ready to move. -/
theorem started_step (p : Params WIDTH) (s : State WIDTH) (i : Inputs WIDTH)
    (hr : i.reset = false) :
    ¬ ((step p s i).sready = false ∧ (step p s i).tvalid = false) := by
  simp only [SkidLoader.step, tmpValid, hr]
  cases srcReady i.sTvalid s.tvalid s.mvalid i.mTready <;> cases loads p s i <;> simp

/-- One edge: what comes in goes behind what is held, and what is given was in front. -/
theorem step_contents {p : Params WIDTH} {s : State WIDTH} {i : Inputs WIDTH}
    (h : Valid s) (ho : Offer p s i) (hr : i.reset = false) :
    contents s ++ (taken s i ++ loaded p s i) = given s i ++ contents (step p s i) := by
  obtain ⟨hb, hs, hl, hst⟩ := h
  obtain ⟨ho, hload⟩ := ho
  have hld' := @loads_eq_true WIDTH p s i
  cases hv : i.sTvalid <;> cases hd : i.mTready <;> cases hsr : s.sready <;>
    cases htv : s.tvalid <;> cases hmv : s.mvalid <;> cases hld : loads p s i <;>
    simp_all [SkidLoader.step, contents, taken, loaded, given, srcReady, tmpValid,
      dstValid, srcToDst, srcToTmp, tmpToDst]

/-- A word in the output register stays there until it is given. -/
theorem step_stalled (p : Params WIDTH) (s : State WIDTH) (i : Inputs WIDTH)
    (hr : i.reset = false) (hm : s.mvalid = true) (hd : i.mTready = false) :
    (step p s i).mvalid = true ∧ (step p s i).mlast = s.mlast ∧ (step p s i).mdata = s.mdata := by
  simp [step, dstValid, srcToDst, tmpToDst, hr, hm, hd]

/-! ### A buffer that has started -/

/-- The buffer holds these words, and `m_tlast` is that of the first. -/
structure Holds (s : State WIDTH) (ws : List (Bool × BitVec WIDTH)) : Prop where
  valid : Valid s
  words : contents s = ws
  started : ¬ (s.sready = false ∧ s.tvalid = false)
  last : s.mlast = true → s.mvalid = true

section Holds

variable {p : Params WIDTH} {s : State WIDTH} {i : Inputs WIDTH}
  {ws rest : List (Bool × BitVec WIDTH)} {w : Bool × BitVec WIDTH}

theorem Holds.sready_eq (h : Holds s ws) : s.sready = decide (ws.length ≤ 1) := by
  obtain ⟨⟨hb, hs, hl, hst⟩, rfl, hstarted, hlast⟩ := h
  cases hsr : s.sready <;> cases hm : s.mvalid <;> cases ht : s.tvalid <;>
    simp_all [contents]

theorem Holds.mvalid_eq (h : Holds s ws) : s.mvalid = !ws.isEmpty := by
  obtain ⟨⟨hb, hs, hl, hst⟩, rfl, hstarted, hlast⟩ := h
  cases hm : s.mvalid <;> cases ht : s.tvalid <;> simp_all [contents]

theorem Holds.head (h : Holds s (w :: rest)) : (s.mlast, s.mdata) = w := by
  obtain ⟨⟨hb, hs, hl, hst⟩, hw, hstarted, hlast⟩ := h
  cases hm : s.mvalid <;> cases ht : s.tvalid <;> simp_all [contents]

theorem Holds.no_last (h : Holds s []) : s.mlast = false := by
  have hm := h.mvalid_eq
  cases hl : s.mlast
  · rfl
  · simp [h.last hl] at hm

/-- One edge without a load: a word that is offered goes behind those held, if there is room. -/
theorem Holds.step (h : Holds s ws) (hr : i.reset = false) (hload : loads p s i = false)
    (hlast : i.sTlast = true → i.sTvalid = true) :
    Holds (SkidLoader.step p s i)
      ((if i.mTready then ws.tail else ws) ++
        if i.sTvalid && decide (ws.length ≤ 1) then [(i.sTlast, i.sTdata)] else []) := by
  have hsr := h.sready_eq
  have hmv := h.mvalid_eq
  have ho : Offer p s i := ⟨fun hs ht => absurd ⟨hs, ht⟩ h.started, fun hl => by simp [hload] at hl⟩
  have hc := step_contents h.valid ho hr
  refine ⟨h.valid.step ho, ?_, started_step p s i hr, ?_⟩
  · have hno : loaded p s i = [] := by simp [loaded, hload]
    rw [hno, List.append_nil, taken, hsr, h.words] at hc
    rcases ws with _ | ⟨w, rest⟩
    · have hgiven : given s i = [] := by simp [given, hmv]
      rw [hgiven, List.nil_append, List.nil_append] at hc
      simp [← hc]
    · have hgiven : given s i = if i.mTready then [w] else [] := by
        simp [given, hmv, h.head]
      rw [hgiven] at hc
      cases hd : i.mTready <;> simp only [hd, List.cons_append, List.nil_append,
        List.cons.injEq, true_and, if_true, Bool.false_eq_true, if_false] at hc ⊢ <;> exact hc.symm
  · obtain ⟨⟨hb, hs, hl, hst⟩, hw, hstarted, hlast'⟩ := h
    cases hv : i.sTvalid <;> cases hd : i.mTready <;> cases hsr' : s.sready <;>
      cases htv : s.tvalid <;> cases hmv' : s.mvalid <;>
      simp_all [SkidLoader.step, dstValid, srcToDst, tmpToDst]

end Holds

end SkidLoader

/-! ## `axis_skid` is the loader variant with its load port tied off -/

namespace AxisSkid

open Skid

variable {WIDTH : ℕ}

def State.toLoader (s : State WIDTH) : SkidLoader.State WIDTH where
  sready := s.sready
  tready := false
  mvalid := s.mvalid
  mlast := s.mlast
  tvalid := s.tvalid
  tlast := s.tlast
  mdata := s.mdata
  tdata := s.tdata

def Inputs.toLoader (i : Inputs WIDTH) : SkidLoader.Inputs WIDTH where
  reset := i.reset
  sTvalid := i.sTvalid
  sTlast := i.sTlast
  sTdata := i.sTdata
  tTvalid := false
  tTlast := false
  tTdata := 0
  mTready := i.mTready

def loaderParams (WIDTH : ℕ) : SkidLoader.Params WIDTH where
  bypass := false
  loader := false
  resetTdata := false
  resetValue := 0

theorem step_toLoader (s : State WIDTH) (i : Inputs WIDTH) :
    (step s i).toLoader = SkidLoader.step (loaderParams WIDTH) s.toLoader i.toLoader := by
  simp [step, SkidLoader.step, SkidLoader.loads, State.toLoader, Inputs.toLoader, loaderParams]
  exact ⟨rfl, rfl, rfl, rfl⟩

def contents (s : State WIDTH) : List (Bool × BitVec WIDTH) :=
  SkidLoader.contents s.toLoader

/-- The word taken from the source port. -/
def taken (s : State WIDTH) (i : Inputs WIDTH) : List (Bool × BitVec WIDTH) :=
  if i.sTvalid && s.sready then [(i.sTlast, i.sTdata)] else []

/-- The word handed to the destination. -/
def given (s : State WIDTH) (i : Inputs WIDTH) : List (Bool × BitVec WIDTH) :=
  if s.mvalid && i.mTready then [(s.mlast, s.mdata)] else []

def Valid (s : State WIDTH) : Prop := SkidLoader.Valid s.toLoader

/-- No word is offered in the first cycle after a reset. -/
def Offer (s : State WIDTH) (i : Inputs WIDTH) : Prop :=
  s.sready = false → s.tvalid = false → i.sTvalid = false

theorem Offer.toLoader {s : State WIDTH} {i : Inputs WIDTH} (h : Offer s i) :
    SkidLoader.Offer (loaderParams WIDTH) s.toLoader i.toLoader :=
  ⟨h, fun hl => by simp [SkidLoader.loads, loaderParams] at hl⟩

theorem valid_of_reset (s : State WIDTH) (i : Inputs WIDTH) (hr : i.reset = true) :
    Valid (step s i) ∧ contents (step s i) = [] := by
  rw [Valid, contents, step_toLoader]
  exact SkidLoader.valid_of_reset _ _ _ hr

theorem Valid.step {s : State WIDTH} {i : Inputs WIDTH} (h : Valid s) (ho : Offer s i) :
    Valid (step s i) := by
  rw [Valid, step_toLoader]
  exact SkidLoader.Valid.step h ho.toLoader

theorem started_step (s : State WIDTH) (i : Inputs WIDTH) (hr : i.reset = false) :
    ¬ ((step s i).sready = false ∧ (step s i).tvalid = false) := by
  have h := SkidLoader.started_step (loaderParams WIDTH) s.toLoader i.toLoader hr
  rwa [← step_toLoader] at h

/-- One edge: what comes in goes behind what is held, and what is given was in front. -/
theorem step_contents {s : State WIDTH} {i : Inputs WIDTH} (h : Valid s) (ho : Offer s i)
    (hr : i.reset = false) :
    contents s ++ taken s i = given s i ++ contents (AxisSkid.step s i) := by
  have hc := SkidLoader.step_contents h ho.toLoader hr
  rw [← step_toLoader] at hc
  have hl : SkidLoader.loaded (loaderParams WIDTH) s.toLoader i.toLoader = [] := by
    simp [SkidLoader.loaded, SkidLoader.loads, loaderParams]
  rw [hl, List.append_nil] at hc
  exact hc

/-! ### Two skid registers -/

/-- Two skid registers that cannot be told apart by what `view` shows of their words. -/
structure Alike {γ : Type*} (view : Bool × BitVec WIDTH → γ) (s s' : State WIDTH) : Prop where
  left : Valid s
  right : Valid s'
  ready : s.sready = s'.sready
  words : (contents s).map view = (contents s').map view

section Alike

variable {γ : Type*} {view : Bool × BitVec WIDTH → γ} {s s' : State WIDTH} {i i' : Inputs WIDTH}

theorem length_contents (s : State WIDTH) :
    (contents s).length = s.mvalid.toNat + s.tvalid.toNat := by
  rw [contents, SkidLoader.contents]
  cases hm : s.mvalid <;> cases ht : s.tvalid <;> simp [State.toLoader, hm, ht]

theorem Alike.valid_eq (h : Alike view s s') : s.mvalid = s'.mvalid ∧ s.tvalid = s'.tvalid := by
  have hlen := congrArg List.length h.words
  rw [List.length_map, List.length_map, length_contents, length_contents] at hlen
  have hb : s.tvalid = true → s.mvalid = true := h.left.behind
  have hb' : s'.tvalid = true → s'.mvalid = true := h.right.behind
  cases hm : s.mvalid <;> cases ht : s.tvalid <;> cases hm' : s'.mvalid <;>
    cases ht' : s'.tvalid <;> simp_all

/-- If the same is offered to both, they stay alike, and hand out the same. -/
theorem Alike.step (h : Alike view s s') (hr : i.reset = i'.reset) (hd : i.mTready = i'.mTready)
    (hv : i.sTvalid = i'.sTvalid)
    (hw : i.sTvalid = true → view (i.sTlast, i.sTdata) = view (i'.sTlast, i'.sTdata))
    (ho : Offer s i) :
    Alike view (AxisSkid.step s i) (AxisSkid.step s' i') ∧
      (given s i).map view = (given s' i').map view := by
  obtain ⟨hmv, htv⟩ := h.valid_eq
  have ho' : Offer s' i' := fun hs ht => hv ▸ ho (h.ready.trans hs) (htv.trans ht)
  have hgiven : (given s i).map view = (given s' i').map view := by
    have hwords := h.words
    rw [given, given, hmv, hd]
    cases hm : s'.mvalid <;> cases hd' : i'.mTready <;> simp
    simpa [contents, SkidLoader.contents, State.toLoader, hmv, hm] using
      congrArg List.head? hwords
  have htaken : (taken s i).map view = (taken s' i').map view := by
    rw [taken, taken, ← hv, ← h.ready]
    cases hv' : i.sTvalid <;> cases hs : s.sready <;> simp
    exact hw hv'
  refine ⟨⟨h.left.step ho, h.right.step ho', ?_, ?_⟩, hgiven⟩
  · simp [AxisSkid.step, srcReady, hr, hd, hv, hmv, htv]
  · cases hreset : i.reset
    · have hc := congrArg (List.map view) (step_contents h.left ho hreset)
      have hc' := congrArg (List.map view) (step_contents h.right ho' (hr ▸ hreset))
      rw [List.map_append, List.map_append] at hc hc'
      rw [h.words, htaken, hc', hgiven] at hc
      exact (List.append_cancel_left hc).symm
    · rw [(valid_of_reset s i hreset).2, (valid_of_reset s' i' (hr ▸ hreset)).2]

end Alike

end AxisSkid

end MiscVerilogCores
