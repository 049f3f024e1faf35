import MiscVerilogCores.Library.Clocked
import MiscVerilogCores.Model.AxiWrPath

/-! # Write data that reaches the data FIFO

While a burst is captured `wready` does not follow the ready signal of the write-data FIFO. No
beat is lost as long as the FIFO has room for the whole burst when its request is accepted. -/

namespace MiscVerilogCores.AxiWrPath

open Clocked

variable {ADDRS WIDTH REQID CBITS : ℕ}

/-! ## The surroundings -/

/-- The beats of the current burst that the master still has to transfer. -/
def leftNext (left : ℕ) (s : State ADDRS WIDTH REQID CBITS) (i : Inputs ADDRS WIDTH REQID) : ℕ :=
  if cmdValid s i then i.axiAwlenI.toNat + 1 else if transfers s i then left - 1 else left

/-- A cycle out of reset, with a FIFO of `depth` beats that is ready while it has room, and a
master that marks the last beat of each burst. -/
structure Legal (depth : ℕ) (s : State ADDRS WIDTH REQID CBITS) (left : ℕ)
    (i : Inputs ADDRS WIDTH REQID) : Prop where
  reset : i.reset = false
  ready : i.wdfReady = true ↔ s.beats.length < depth
  last : transfers s i = true → (i.axiWlastI = true ↔ left = 1)

instance (depth : ℕ) (s : State ADDRS WIDTH REQID CBITS) (left : ℕ)
    (i : Inputs ADDRS WIDTH REQID) : Decidable (Legal depth s left i) :=
  decidable_of_iff
    (i.reset = false ∧ (i.wdfReady = true ↔ s.beats.length < depth) ∧
      (transfers s i = true → (i.axiWlastI = true ↔ left = 1)))
    ⟨fun ⟨h₁, h₂, h₃⟩ => ⟨h₁, h₂, h₃⟩, fun ⟨h₁, h₂, h₃⟩ => ⟨h₁, h₂, h₃⟩⟩

/-- Every cycle is legal, from a state in which `left` beats are to come. -/
def LegalRun (depth : ℕ) (s : State ADDRS WIDTH REQID CBITS) (left : ℕ)
    (is : List (Inputs ADDRS WIDTH REQID)) : Prop :=
  Along (watched step leftNext) (fun p i => Legal depth p.1 p.2 i) (s, left) is

instance (depth : ℕ) (s : State ADDRS WIDTH REQID CBITS) (left : ℕ)
    (is : List (Inputs ADDRS WIDTH REQID)) : Decidable (LegalRun depth s left is) :=
  inferInstanceAs (Decidable (Along _ _ _ _))

/-- When a request is accepted the FIFO has room for all its beats. -/
def Room (depth : ℕ) (s : State ADDRS WIDTH REQID CBITS) (i : Inputs ADDRS WIDTH REQID) : Prop :=
  cmdValid s i = true →
    s.beats.length + (i.axiAwlenI.toNat + 1) ≤ depth + (drains s i).toNat

instance (depth : ℕ) (s : State ADDRS WIDTH REQID CBITS) (i : Inputs ADDRS WIDTH REQID) :
    Decidable (Room depth s i) :=
  inferInstanceAs (Decidable (_ → _))

/-! ## No beat is lost -/

/-- The beat transferred on the AXI port in a cycle. -/
def transferred (s : State ADDRS WIDTH REQID CBITS) (i : Inputs ADDRS WIDTH REQID) :
    List (Beat WIDTH) :=
  if transfers s i then [axiBeat i] else []

/-- The beat the memory takes in a cycle. -/
def drained (s : State ADDRS WIDTH REQID CBITS) (i : Inputs ADDRS WIDTH REQID) :
    List (Beat WIDTH) :=
  if drains s i then s.beats.head?.toList else []

/-- Each beat is taken by the FIFO in the cycle of its handshake. -/
def AllTaken (s : State ADDRS WIDTH REQID CBITS) (is : List (Inputs ADDRS WIDTH REQID)) : Prop :=
  Along step (fun s i => transfers s i = true → stores s i = true) s is

instance (s : State ADDRS WIDTH REQID CBITS) (is : List (Inputs ADDRS WIDTH REQID)) :
    Decidable (AllTaken s is) :=
  inferInstanceAs (Decidable (Along _ _ _ _))

/-- The FIFO takes every beat, and the memory gets the beats that were transferred, in order, but
for those still in the FIFO. -/
structure NoBeatLost (s : State ADDRS WIDTH REQID CBITS) (is : List (Inputs ADDRS WIDTH REQID)) :
    Prop where
  taken : AllTaken s is
  data : s.beats ++ emitted step transferred s is =
    emitted step drained s is ++ (run step s is).beats

/-! ## Invariant -/

/-- The capturing state machine is ready for data only in `fill`, where beats are to come. -/
structure Capturing (s : State ADDRS WIDTH REQID CBITS) (left : ℕ) : Prop where
  aready : s.aready = true → s.state = .idle
  wready : s.wready = true → s.state = .fill
  owes : s.state = .fill → 1 ≤ left

/-- While the FIFO fills it has room for the beats to come. -/
def Fits (depth : ℕ) (s : State ADDRS WIDTH REQID CBITS) (left : ℕ) : Prop :=
  s.state = .fill → s.beats.length + left ≤ depth

section Step

variable {depth left : ℕ} {s : State ADDRS WIDTH REQID CBITS} {i : Inputs ADDRS WIDTH REQID}

theorem length_beats_step (hr : i.reset = false) :
    (step s i).beats.length + (drains s i).toNat = s.beats.length + (stores s i).toNat := by
  cases hd : drains s i
  · cases hs : stores s i <;> simp [step, hr, hd, hs]
  · have hne : s.beats ≠ [] := by
      rintro hnil
      simp [drains, memValidO, hnil] at hd
    have hpos := List.length_pos_iff.mpr hne
    cases hs : stores s i <;> simp [step, hr, hd, hs] <;> omega

theorem beats_step (hr : i.reset = false) (hs : stores s i = transfers s i) :
    s.beats ++ transferred s i = drained s i ++ (step s i).beats := by
  cases hd : drains s i
  · simp [step, drained, transferred, hr, hd, hs]
  · cases hb : s.beats with
    | nil => simp [drains, memValidO, hb] at hd
    | cons b bs => simp [step, drained, transferred, hr, hd, hs, hb]

theorem stores_eq (i : Inputs ADDRS WIDTH REQID) :
    stores s i = (transfers s i && i.wdfReady) := rfl

/-- What a request that is accepted does. -/
theorem Capturing.accept (h : Capturing s left) (hr : i.reset = false)
    (hc : cmdValid s i = true) :
    s.state = .idle ∧ stores s i = false ∧ leftNext left s i = i.axiAwlenI.toNat + 1 ∧
      (step s i).state = .fill ∧ (step s i).aready = false ∧ (step s i).wready = true := by
  have hstate : s.state = .idle := h.aready (Bool.and_eq_true_iff.mp hc).2
  have hw : ¬ s.wready = true := fun hw => by simp [h.wready hw] at hstate
  have hnext : capture s i = (.fill, false, true) := by simp [capture, hr, hstate, hc]
  refine ⟨hstate, by simp [stores, hw], if_pos hc, ?_, ?_, ?_⟩ <;> simp [step, hnext]

/-- What a beat does, or a cycle without one, before the last beat of a burst. -/
theorem Capturing.fill (h : Capturing s left) (hlegal : Legal depth s left i)
    (hstate : s.state = .fill) (hlast : (transfers s i && i.axiWlastI) = false) :
    leftNext left s i + (transfers s i).toNat = left ∧ 1 ≤ leftNext left s i ∧
      (step s i).state = .fill ∧ (step s i).aready = false ∧ (step s i).wready = true := by
  have ha : ¬ s.aready = true := fun ha => by simp [h.aready ha] at hstate
  have hc : cmdValid s i = false := by simp [cmdValid, ha]
  have hnext : capture s i = (.fill, false, true) := by
    simp only [transfers] at hlast
    simp [capture, hlegal.reset, hstate, hlast]
  have howes := h.owes hstate
  have hleft : leftNext left s i + (transfers s i).toNat = left ∧ 1 ≤ leftNext left s i := by
    rw [leftNext, hc, if_neg Bool.false_ne_true]
    cases ht : transfers s i
    · simpa using howes
    · have hne : left ≠ 1 := fun h => by simp [ht, (hlegal.last ht).mpr h] at hlast
      simp only [if_true, Bool.toNat_true]
      omega
  refine ⟨hleft.1, hleft.2, ?_, ?_, ?_⟩ <;> simp [step, hnext]

/-- Otherwise the machine is not in `fill` after the edge. -/
theorem capture_not_fill (hr : i.reset = false) (hc : ¬ cmdValid s i = true)
    (hfill : ¬ (s.state = .fill ∧ (transfers s i && i.axiWlastI) = false)) :
    (capture s i).1 ≠ .fill ∧ (capture s i).2.2 = false ∧
      ((capture s i).2.1 = true → (capture s i).1 = .idle) := by
  rw [capture, hr, if_neg Bool.false_ne_true]
  cases hstate : s.state
  case idle => simp [hc]
  case fill =>
    have hlast : (i.axiWvalidI && s.wready && i.axiWlastI) = true := by
      by_contra hno
      exact hfill ⟨hstate, Bool.eq_false_iff.mpr hno⟩
    simp only [hlast, if_true]
    split <;> simp
  case busy =>
    simp only
    split <;> simp

theorem Capturing.next (h : Capturing s left) (hlegal : Legal depth s left i) :
    Capturing (step s i) (leftNext left s i) := by
  by_cases hc : cmdValid s i = true
  · obtain ⟨-, -, hleft, hstate, haready, -⟩ := h.accept hlegal.reset hc
    exact ⟨by simp [haready], fun _ => hstate, fun _ => by omega⟩
  · by_cases hfill : s.state = .fill ∧ (transfers s i && i.axiWlastI) = false
    · obtain ⟨-, hleft, hstate, haready, -⟩ := h.fill hlegal hfill.1 hfill.2
      exact ⟨by simp [haready], fun _ => hstate, fun _ => hleft⟩
    · obtain ⟨hstate, hwready, haready⟩ := capture_not_fill hlegal.reset hc hfill
      exact ⟨haready, fun hw => by simp [step, hwready] at hw, fun hf => absurd hf hstate⟩

theorem Capturing.stores_eq (h : Capturing s left) (hfits : Fits depth s left)
    (hlegal : Legal depth s left i) : stores s i = transfers s i := by
  rw [AxiWrPath.stores_eq]
  cases ht : transfers s i
  · rfl
  · have hfill : s.state = .fill := h.wready (Bool.and_eq_true_iff.mp ht).2
    have howes := h.owes hfill
    have hroom := hfits hfill
    exact hlegal.ready.mpr (by omega)

theorem Fits.next (hfits : Fits depth s left) (h : Capturing s left)
    (hlegal : Legal depth s left i) (hroom : Room depth s i) :
    Fits depth (step s i) (leftNext left s i) := by
  have hlen := length_beats_step (s := s) hlegal.reset
  intro hfill
  by_cases hc : cmdValid s i = true
  · obtain ⟨-, hno, hleft, -⟩ := h.accept hlegal.reset hc
    have hroom := hroom hc
    rw [hno, Bool.toNat_false] at hlen
    omega
  · by_cases hfill' : s.state = .fill ∧ (transfers s i && i.axiWlastI) = false
    · obtain ⟨hleft, -⟩ := h.fill hlegal hfill'.1 hfill'.2
      have hroom := hfits hfill'.1
      rw [h.stores_eq hfits hlegal] at hlen
      omega
    · exact absurd hfill (capture_not_fill hlegal.reset hc hfill').1

theorem capturing_afterReset (s : State ADDRS WIDTH REQID CBITS) (i : Inputs ADDRS WIDTH REQID) :
    Capturing (afterReset s i) 0 := by
  refine ⟨?_, ?_, ?_⟩ <;> simp [afterReset, step, capture]

end Step

/-! ## Runs -/

section Runs

variable {depth left : ℕ} {s : State ADDRS WIDTH REQID CBITS}
  {is : List (Inputs ADDRS WIDTH REQID)}

theorem Capturing.noBeatLost (h : Capturing s left) (hfits : Fits depth s left)
    (hlegal : LegalRun depth s left is) (hroom : Along step (Room depth) s is) :
    NoBeatLost s is := by
  induction is generalizing s left with
  | nil => exact ⟨trivial, by simp⟩
  | cons i is ih =>
      have hstores := h.stores_eq hfits hlegal.1
      have hfits' := hfits.next h hlegal.1 hroom.1
      obtain ⟨htaken, hdata⟩ := ih (h.next hlegal.1) hfits' hlegal.2 hroom.2
      refine ⟨⟨fun ht => hstores ▸ ht, htaken⟩, ?_⟩
      have hstep := beats_step hlegal.1.reset hstores
      rw [emitted_cons, emitted_cons, run_cons, ← List.append_assoc, hstep, List.append_assoc,
        hdata, List.append_assoc]

/-- No beat is lost in a run in which the FIFO has room for each burst that is accepted. -/
theorem noBeatLost_of_room (depth : ℕ) (s : State ADDRS WIDTH REQID CBITS)
    (i : Inputs ADDRS WIDTH REQID) (is : List (Inputs ADDRS WIDTH REQID))
    (hlegal : LegalRun depth (afterReset s i) 0 is)
    (hroom : Along step (Room depth) (afterReset s i) is) :
    NoBeatLost (afterReset s i) is := by
  apply (capturing_afterReset s i).noBeatLost ?_ hlegal hroom
  simp [Fits, afterReset, step, capture]

/-- A cycle in which nothing is offered and nothing is taken. -/
def quietCycle : Inputs ADDRS WIDTH REQID where
  reset := false
  axiAwvalidI := false
  axiAwaddrI := 0
  axiAwidI := 0
  axiAwlenI := 0
  axiWvalidI := false
  axiWdataI := 0
  axiWstrbI := 0
  axiWlastI := false
  axiBreadyI := false
  memAcceptI := false
  memReadyI := false
  wdfReady := true
  wdfOffers := false

/-- A cycle in which the master offers a beat and the memory takes none. -/
def offerBeat (ready last : Bool) : Inputs ADDRS WIDTH REQID :=
  { quietCycle with axiWvalidI := true, axiWlastI := last, wdfReady := ready }

/-- When the FIFO has no room for the beats to come, one of them can be lost. -/
theorem exists_lost (h : Capturing s left) (hstate : s.state = .fill) (hwready : s.wready = true)
    (hle : s.beats.length ≤ depth) (hfull : depth < s.beats.length + left) :
    ∃ js, LegalRun depth s left js ∧ (∀ j ∈ js, j.axiAwvalidI = false) ∧ ¬ AllTaken s js := by
  induction hk : depth - s.beats.length generalizing s left with
  | zero =>
      refine ⟨[offerBeat false (decide (left = 1))], ⟨⟨rfl, ?_, ?_⟩, trivial⟩, by simp [offerBeat, quietCycle], ?_⟩
      · simp only [offerBeat, Bool.false_eq_true, false_iff]
        omega
      · simp [offerBeat]
      · intro hno
        have hlost := hno.1
        simp [transfers, stores, offerBeat, hwready] at hlost
  | succ k ih =>
      have hlegal : Legal depth s left (offerBeat true false) := by
        refine ⟨rfl, ?_, fun _ => ?_⟩
        · simp only [offerBeat, true_iff]
          omega
        · simp only [offerBeat, Bool.false_eq_true, false_iff]
          omega
      have hyes : transfers s (offerBeat true false) = true := by
        simp [transfers, offerBeat, hwready]
      have hlen := length_beats_step (s := s) hlegal.reset
      have hnone : drains s (offerBeat true false) = false := rfl
      rw [stores_eq, hyes, hnone, Bool.toNat_false, Nat.add_zero] at hlen
      obtain ⟨hleft, -, hstate', -, hwready'⟩ := h.fill hlegal hstate (by simp [offerBeat])
      rw [hyes, Bool.toNat_true] at hleft
      simp only [offerBeat, Bool.true_and, Bool.toNat_true] at hlen
      obtain ⟨js, hjs, hno, hlost⟩ := ih (h.next hlegal) hstate' hwready'
        (by simp only [offerBeat]; omega) (by simp only [offerBeat] at hleft ⊢; omega)
        (by simp only [offerBeat]; omega)
      refine ⟨offerBeat true false :: js, ⟨hlegal, hjs⟩, ?_, fun hall => hlost hall.2⟩
      simpa [offerBeat, quietCycle] using hno

/-- The registers that the state machine reads, and a FIFO that is not overfull. -/
def Reached (depth : ℕ) (s : State ADDRS WIDTH REQID CBITS) (left : ℕ) : Prop :=
  Capturing s left ∧ s.beats.length ≤ depth

theorem Reached.next {i : Inputs ADDRS WIDTH REQID} (h : Reached depth s left)
    (hlegal : Legal depth s left i) : Reached depth (step s i) (leftNext left s i) := by
  refine ⟨h.1.next hlegal, ?_⟩
  have hlen := length_beats_step (s := s) hlegal.reset
  rw [stores_eq] at hlen
  have hle := h.2
  by_cases hready : i.wdfReady = true
  · have hroom := hlegal.ready.mp hready
    have hone := Bool.toNat_le (transfers s i && i.wdfReady)
    omega
  · simp only [hready, Bool.and_false, Bool.toNat_false] at hlen
    omega

/-- The beats to come in the state that a run from reset has reached. -/
def reached (s : State ADDRS WIDTH REQID CBITS) (i : Inputs ADDRS WIDTH REQID)
    (is : List (Inputs ADDRS WIDTH REQID)) : State ADDRS WIDTH REQID CBITS × ℕ :=
  run (watched step leftNext) (afterReset s i, 0) is

/-- Room for the whole burst is what it takes: with less, the same burst loses a beat when the
memory is slow. -/
theorem burst_iff_room (depth : ℕ) (s : State ADDRS WIDTH REQID CBITS)
    (i : Inputs ADDRS WIDTH REQID) (is : List (Inputs ADDRS WIDTH REQID))
    (hlegal : LegalRun depth (afterReset s i) 0 is) (j : Inputs ADDRS WIDTH REQID)
    (hj : Legal depth (reached s i is).1 (reached s i is).2 j)
    (hc : cmdValid (reached s i is).1 j = true) :
    (∀ js, LegalRun depth (step (reached s i is).1 j) (j.axiAwlenI.toNat + 1) js →
        (∀ j ∈ js, j.axiAwvalidI = false) → NoBeatLost (step (reached s i is).1 j) js) ↔
      Room depth (reached s i is).1 j := by
  let P (p : State ADDRS WIDTH REQID CBITS × ℕ) : Prop := Reached depth p.1 p.2
  have hstart : P (afterReset s i, 0) := ⟨capturing_afterReset s i, by simp [afterReset, step]⟩
  have hreach : P (reached s i is) := run_invariant P (fun p i h hi => h.next hi) hstart hlegal
  obtain ⟨-, hno, hleft, hstate, -, hwready⟩ := hreach.1.accept hj.reset hc
  have hlen := length_beats_step (s := (reached s i is).1) hj.reset
  rw [hno, Bool.toNat_false] at hlen
  have hnext := hreach.next hj
  rw [hleft] at hnext
  constructor
  · intro hall _
    by_contra hfull
    obtain ⟨js, hjs, haw, hlost⟩ := exists_lost hnext.1 hstate hwready hnext.2 (by omega)
    exact hlost (hall js hjs haw).taken
  · intro hroom js hjs haw
    have hfits := hroom hc
    refine hnext.1.noBeatLost (fun _ => by omega) hjs ?_
    refine (along_of_inputs step _ haw).mono fun s j haw hc => ?_
    simp [cmdValid, haw] at hc

end Runs

/-- A request for a burst of four beats, and its beats. -/
def burstOfFour (ready : Bool) : List (Inputs 32 32 4) :=
  [{ quietCycle with wdfReady := ready },
    { quietCycle with axiAwvalidI := true, axiAwlenI := 3, wdfReady := ready },
    offerBeat ready false, offerBeat ready false, offerBeat ready false, offerBeat ready true]

def idleState : State 32 32 4 4 :=
  afterReset default quietCycle

/-- The hypotheses are met by two bursts of four beats and a FIFO of eight. -/
theorem noBeatLost_of_room_pair :
    NoBeatLost idleState (burstOfFour true ++ burstOfFour true) :=
  noBeatLost_of_room 8 default quietCycle (burstOfFour true ++ burstOfFour true) (by decide)
    (by decide)

/-- A third burst meets a full FIFO, and `wready` takes its beats all the same. -/
theorem not_neverLosesBeat :
    ¬ ∀ (ADDRS WIDTH REQID CBITS depth : ℕ) (s : State ADDRS WIDTH REQID CBITS)
      (i : Inputs ADDRS WIDTH REQID) (is : List (Inputs ADDRS WIDTH REQID)),
      LegalRun depth (afterReset s i) 0 is → NoBeatLost (afterReset s i) is := by
  intro h
  have htaken := (h 32 32 4 4 8 default quietCycle
    (burstOfFour true ++ burstOfFour true ++ burstOfFour false) (by decide)).taken
  revert htaken
  decide

end MiscVerilogCores.AxiWrPath
