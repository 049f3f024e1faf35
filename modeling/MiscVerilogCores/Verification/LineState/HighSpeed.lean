import Mathlib.Tactic.SplitIfs
import MiscVerilogCores.Library.Clocked
import MiscVerilogCores.Model.LineState

/-! # High-speed mode is negotiated

What the state machine has been through since the last reset, or since it last was in
`ST_FS_START`, is kept beside it. High-speed mode is only entered with the whole chirp handshake in
that history. -/

namespace MiscVerilogCores.LineState

open Clocked

/-! ## Moves of the state machine -/

/-- What an edge out of reset may do to `state` and `hse_q`. -/
inductive Moved (s : State) (i : Inputs) : Fsm → Bool → Prop where
  | stay : Moved s i s.state s.hseQ
  | started (hs : s.state = .powerOn) : Moved s i .fsStart s.hseQ
  | fullSpeed (hs : s.state = .fsStart) : Moved s i .fsStart false
  | listen (hs : s.state = .fsStart) : Moved s i .fsLsse0 false
  | se0 (hs : s.state = .fsLsse0) : Moved s i .waitSe0 s.hseQ
  | timeout (hs : s.state = .fsLsse0) : Moved s i .idle s.hseQ
  | again (hs : s.state = .waitSe0) : Moved s i .fsLsse0 s.hseQ
  | chirp (hs : s.state = .waitSe0) : Moved s i .chirpK0 true
  | k1 (hs : s.state = .chirpK0) : Moved s i .chirpK1 s.hseQ
  | k2 (hs : s.state = .chirpK1) : Moved s i .chirpK2 s.hseQ
  | kj (hs : s.state = .chirpK2) : Moved s i .chirpKj s.hseQ
  | agreed (hs : s.state = .chirpKj) (hend : s.kjEndedQ = true) : Moved s i .hsStart s.hseQ
  | highSpeed (hs : s.state = .hsStart) : Moved s i .hsStart true
  | done (hs : s.state = .hsStart) (hdone : i.phyDoneI = true) : Moved s i .idle s.hseQ
  | busReset (hs : s.state = .idle) : Moved s i .reset s.hseQ
  | suspend (hs : s.state = .idle) : Moved s i .suspend s.hseQ
  | wake (hs : s.state = .suspend) : Moved s i .idle s.hseQ
  | restart (hs : s.state = .reset) : Moved s i .fsStart s.hseQ
  | resume (t : Fsm) (hse : Bool) (hs : s.state = .resume) : Moved s i t hse

theorem moveNext_rule (s : State) (i : Inputs) :
    Moved s i (moveNext s i).state (moveNext s i).hseQ := by
  have hstay := Moved.stay (s := s) (i := i)
  cases hs : s.state <;> simp only [hs] at hstay
  case powerOn =>
      cases hdone : i.phyDoneI
      · simpa [moveNext, hs, Move.write, Move.stay, hdone] using hstay
      · simpa [moveNext, hs, Move.write, Move.stay, hdone] using Moved.started hs
  case fsStart =>
      cases hdone : i.phyDoneI
      · simpa [moveNext, hs, Move.write, Move.stay, hdone] using Moved.fullSpeed hs
      · simpa [moveNext, hs, Move.write, Move.stay, hdone] using Moved.listen hs
  case fsLsse0 =>
      simp only [moveNext, hs, Move.stay]
      split_ifs
      · exact .se0 hs
      · exact .timeout hs
      · exact hstay
  case waitSe0 =>
      simp only [moveNext, hs, Move.stay]
      split_ifs
      · exact .again hs
      · exact .chirp hs
      · exact hstay
  case chirpK0 =>
      simp only [moveNext, hs, Move.stay]
      split_ifs
      · exact .k1 hs
      · exact hstay
  case chirpK1 =>
      simp only [moveNext, hs, Move.stay]
      split_ifs <;> first | exact .k2 hs | exact hstay
  case chirpK2 => simpa [moveNext, hs, Move.stay] using Moved.kj hs
  case chirpKj =>
      simp only [moveNext, hs, Move.stay]
      split_ifs with hend
      · exact .agreed hs (Bool.and_eq_true_iff.mp hend).1
      · exact hstay
  case hsStart =>
      cases hdone : i.phyDoneI
      · simpa [moveNext, hs, Move.write, Move.stay, hdone] using Moved.highSpeed hs
      · simpa [moveNext, hs, Move.write, Move.stay, hdone] using Moved.done hs hdone
  case idle =>
      simp only [moveNext, hs, Move.stay]
      split_ifs
      · exact .busReset hs
      · exact .suspend hs
      · exact hstay
  case suspend =>
      simp only [moveNext, hs, Move.stay]
      split_ifs
      · exact .wake hs
      · exact hstay
  case resume => exact .resume _ _ hs
  case reset =>
      simp only [moveNext, hs, Move.stay]
      split_ifs
      · exact .restart hs
      · exact hstay

theorem step_rule {s : State} {i : Inputs} (hr : i.reset = false) :
    Moved s i (step s i).state (step s i).hseQ := by
  have hnext := moveNext_rule s i
  simp only [step, move, hr, Bool.false_eq_true, if_false]
  split_ifs
  · exact .stay
  · exact hnext

/-! ## History -/

/-- What the history records. `toJ` and `sofInJ` are counted in `ST_CHIRP_KJ`: the line has gone to
J, or a frame has started while it is in J. -/
inductive Event where
  | k0 | k1 | k2 | kj | toJ | sofInJ | done
deriving DecidableEq

/-- Whether the line state changed at the last edge, whether a frame started then, and the events
since the last reset or `ST_FS_START`. -/
structure History where
  changed : Bool
  sof : Bool
  events : List Event

def History.start : History := ⟨false, false, []⟩

/-- A change to J that is counted at this edge. -/
def counted (m : History) (s : State) : List Event :=
  if s.state == .chirpKj && kjStepW s then
    (if m.changed then [.toJ] else if m.sof then [.sofInJ] else [])
  else []

/-- The chirp state that the machine goes to, or the end of `ST_HS_START`. -/
def entered (s : State) (i : Inputs) : List Event :=
  match s.state, (step s i).state with
  | .waitSe0, .chirpK0 => [.k0]
  | .chirpK0, .chirpK1 => [.k1]
  | .chirpK1, .chirpK2 => [.k2]
  | .chirpK2, .chirpKj => [.kj]
  | .hsStart, .idle => if i.phyDoneI then [.done] else []
  | _, _ => []

def watch (m : History) (s : State) (i : Inputs) : History where
  changed := (step s i).lineStateQ != s.lineStateQ
  sof := i.usbSofI
  events :=
    if i.reset || (step s i).state == .fsStart then []
    else m.events ++ counted m s ++ entered s i

/-- Events that `ST_CHIRP_KJ` counts. -/
def InJ (js : List Event) : Prop :=
  ∀ e ∈ js, e = .toJ ∨ e = .sofInJ

/-- The chirp states were gone through in order, and the events `js` were counted in the last. -/
def Chirped (js events : List Event) : Prop :=
  List.Sublist ([Event.k0, .k1, .k2, .kj] ++ js) events

/-- The handshake was completed, and the PHY was then set to high-speed mode. -/
def Negotiated (events : List Event) : Prop :=
  ∃ js, InJ js ∧ 3 ≤ js.length ∧
    List.Sublist ([Event.k0, .k1, .k2, .kj] ++ js ++ [Event.done]) events

theorem Chirped.append {js events : List Event} (h : Chirped js events) (more : List Event) :
    Chirped js (events ++ more) :=
  h.trans (List.sublist_append_left _ _)

theorem Chirped.concat {js events : List Event} (h : Chirped js events) (e : Event) :
    Chirped (js ++ [e]) (events ++ [e]) := by
  rw [Chirped, ← List.append_assoc]
  exact List.Sublist.append h (List.Sublist.refl _)

theorem Negotiated.append {events : List Event} (h : Negotiated events) (more : List Event) :
    Negotiated (events ++ more) := by
  obtain ⟨js, hjs, hlen, hsub⟩ := h
  exact ⟨js, hjs, hlen, hsub.trans (List.sublist_append_left _ _)⟩

/-! ## Invariant -/

/-- What the registers of the chirp counter stand for. -/
structure Counting (s : State) (events : List Event) : Prop where
  started : s.kjEndedQ = false → ∃ js, InJ js ∧ js.length = s.kjCountQ.toNat ∧ js.length ≤ 2 ∧
    Chirped js events
  ended : s.kjEndedQ = true → ∃ js, InJ js ∧ 3 ≤ js.length ∧ Chirped js events

/-- High-speed mode, or the PHY set to it, has been negotiated. -/
structure Settled (s : State) (events : List Event) : Prop where
  enabled : s.hseQ = true → Negotiated events
  mode : s.hsModeQ = true → s.hseQ = true

/-- What each state of the machine says of the history. -/
def Progress (s : State) (events : List Event) : Prop :=
  match s.state with
  | .powerOn | .fsLsse0 | .waitSe0 => s.hseQ = false ∧ s.hsModeQ = false
  | .fsStart => True
  | .chirpK0 => s.hsModeQ = false ∧ List.Sublist [.k0] events
  | .chirpK1 => s.hsModeQ = false ∧ List.Sublist [.k0, .k1] events
  | .chirpK2 => s.hsModeQ = false ∧ List.Sublist [.k0, .k1, .k2] events
  | .chirpKj => s.hsModeQ = false ∧ Counting s events
  | .hsStart => s.hsModeQ = false ∧ ∃ js, InJ js ∧ 3 ≤ js.length ∧ Chirped js events
  | .idle | .suspend | .reset => Settled s events
  | .resume => False

structure Inv (s : State) (m : History) : Prop where
  line : s.state ≠ .powerOn → s.newLsQ = true → m.changed = true ∨ m.sof = true
  progress : Progress s m.events

section Step

variable {s : State} {m : History} {i : Inputs}

theorem hsModeQ_step (hr : i.reset = false) : (step s i).hsModeQ =
    if s.state = .fsStart then false else if s.state = .idle ∧ s.hseQ = true then true
    else s.hsModeQ := by
  cases hs : s.state <;> cases hq : s.hseQ <;> simp [step, hr, hs, hq]

theorem line_next (hr : i.reset = false) (h : (step s i).newLsQ = true) :
    (watch m s i).changed = true ∨ (watch m s i).sof = true := by
  have hnew : newLsW s i = true := h
  rcases Bool.or_eq_true_iff.mp hnew with hls | hsof
  · obtain ⟨hrx, hne⟩ := Bool.and_eq_true_iff.mp hls
    left
    simpa [watch, step, hr, hrx] using hne
  · exact Or.inr hsof

theorem events_watch (hr : i.reset = false) (hs : (step s i).state ≠ .fsStart) :
    (watch m s i).events = m.events ++ counted m s ++ entered s i := by
  simp [watch, hr, hs]

theorem counted_eq_nil (hs : s.state ≠ .chirpKj) : counted m s = [] := by
  simp [counted, hs]

/-- What an edge in `ST_CHIRP_KJ` adds to the count and to the history. -/
theorem Counting.next (h : Counting s m.events)
    (hline : s.newLsQ = true → m.changed = true ∨ m.sof = true) (hs : s.state = .chirpKj) :
    Counting (step s i) (m.events ++ counted m s) := by
  by_cases hstep : kjStepW s = true
  · obtain ⟨e, he, hcounted⟩ : ∃ e, (e = Event.toJ ∨ e = .sofInJ) ∧ counted m s = [e] := by
      rcases hline (Bool.and_eq_true_iff.mp hstep).1 with hc | hc
      · exact ⟨.toJ, Or.inl rfl, by simp [counted, hs, hstep, hc]⟩
      · cases hch : m.changed
        · exact ⟨.sofInJ, Or.inr rfl, by simp [counted, hs, hstep, hch, hc]⟩
        · exact ⟨.toJ, Or.inl rfl, by simp [counted, hs, hstep, hch]⟩
    have hended : (step s i).kjEndedQ = (s.kjEndedQ || kjCnextW s == 3) := by
      simp [step, hs, hstep]
    have hcount : (step s i).kjCountQ = kjCnextW s := by simp [step, hs, hstep]
    rw [hcounted]
    have hmore : ∀ js, InJ js → InJ (js ++ [e]) := by
      intro js hjs e' he'
      rcases List.mem_append.mp he' with hmem | hmem
      · exact hjs e' hmem
      · rw [List.mem_singleton.mp hmem]
        exact he
    cases hold : s.kjEndedQ
    · obtain ⟨js, hjs, hlen, hle, hchirped⟩ := h.started hold
      have hnext : (kjCnextW s).toNat = js.length + 1 := by
        rw [kjCnextW, BitVec.toNat_add, hlen]
        have hone : (1 : BitVec 3).toNat = 1 := rfl
        omega
      have hthree : (kjCnextW s == 3) = decide (js.length = 2) := by
        rw [Bool.eq_iff_iff, beq_iff_eq, decide_eq_true_iff, ← BitVec.toNat_inj, hnext]
        have hval : (3 : BitVec 3).toNat = 3 := rfl
        omega
      rw [hold, hthree, Bool.false_or] at hended
      refine ⟨fun hno => ?_, fun hyes => ?_⟩
      · rw [hended, decide_eq_false_iff_not] at hno
        refine ⟨js ++ [e], hmore js hjs, ?_, ?_, hchirped.concat e⟩
        · rw [hcount, hnext, List.length_append, List.length_singleton]
        · rw [List.length_append, List.length_singleton]
          omega
      · rw [hended, decide_eq_true_iff] at hyes
        refine ⟨js ++ [e], hmore js hjs, ?_, hchirped.concat e⟩
        rw [List.length_append, List.length_singleton]
        omega
    · obtain ⟨js, hjs, hlen, hchirped⟩ := h.ended hold
      rw [hold, Bool.true_or] at hended
      exact ⟨fun hno => by simp [hended] at hno, fun _ => ⟨js, hjs, hlen, hchirped.append _⟩⟩
  · have hcounted : counted m s = [] := by simp [counted, hstep]
    have hended : (step s i).kjEndedQ = s.kjEndedQ := by simp [step, hs, hstep]
    have hcount : (step s i).kjCountQ = s.kjCountQ := by simp [step, hs, hstep]
    rw [hcounted, List.append_nil]
    exact ⟨fun hno => hcount ▸ h.started (hended ▸ hno), fun hyes => h.ended (hended ▸ hyes)⟩

/-- On the way into `ST_CHIRP_KJ` the counter is clear. -/
theorem counting_start {events : List Event} (hs : s.state = .chirpK2)
    (h : List.Sublist [.k0, .k1, .k2] events) : Counting (step s i) (events ++ [.kj]) := by
  have hended : (step s i).kjEndedQ = false := by simp [step, hs]
  have hcount : (step s i).kjCountQ = 0 := by simp [step, hs]
  have hchirped : Chirped [] (events ++ [.kj]) := by
    have hsub := List.Sublist.append h (List.Sublist.refl [Event.kj])
    simpa [Chirped] using hsub
  exact ⟨fun _ => ⟨[], by simp [InJ], by simp [hcount], by simp, hchirped⟩,
    fun hyes => by simp [hended] at hyes⟩

theorem Settled.keeps {events : List Event} (h : Settled s events) (more : List Event)
    (hs : s.state ≠ .fsStart) (hr : i.reset = false) (hhse : (step s i).hseQ = s.hseQ) :
    Settled (step s i) (events ++ more) := by
  refine ⟨fun hq => (h.enabled (hhse ▸ hq)).append more, fun hq => ?_⟩
  rw [hsModeQ_step hr, if_neg hs] at hq
  rw [hhse]
  split at hq
  · next hboth => exact hboth.2
  · exact h.mode hq

/-- In the other states the flag of high-speed mode stays low. -/
theorem hsModeQ_low (hr : i.reset = false) (hs : s.state ≠ .idle) (hq : s.hsModeQ = false) :
    (step s i).hsModeQ = false := by
  rw [hsModeQ_step hr]
  simp [hs, hq]

theorem entered_stay (h : (step s i).state = s.state) : entered s i = [] := by
  rw [entered, h]
  cases s.state <;> rfl

/-- While the machine stays in a state, what that state says of the history goes on to hold. -/
theorem Inv.progress_stay (h : Inv s m) (hr : i.reset = false) (ht : (step s i).state = s.state)
    (hb : (step s i).hseQ = s.hseQ) (hs : s.state ≠ .fsStart) :
    Progress (step s i) (m.events ++ counted m s ++ entered s i) := by
  have hprogress := h.progress
  have hlow := hsModeQ_low (s := s) (i := i) hr
  rw [entered_stay ht, List.append_nil]
  cases hstate : s.state <;> simp only [Progress, hstate] at hprogress ⊢ <;>
    rw [hstate] at ht <;> simp only [ht]
  case powerOn | fsLsse0 | waitSe0 =>
      exact ⟨hb.trans hprogress.1, hlow (by simp [hstate]) hprogress.2⟩
  case chirpK0 | chirpK1 | chirpK2 =>
      exact ⟨hlow (by simp [hstate]) hprogress.1,
        hprogress.2.trans (List.sublist_append_left _ _)⟩
  case chirpKj =>
      exact ⟨hlow (by simp [hstate]) hprogress.1,
        hprogress.2.next (h.line (by simp [hstate])) hstate⟩
  case hsStart =>
      obtain ⟨hmode, js, hjs, hlen, hchirped⟩ := hprogress
      exact ⟨hlow (by simp [hstate]) hmode, js, hjs, hlen, hchirped.append _⟩
  case idle | suspend | reset => exact hprogress.keeps _ hs hr hb

/-- From a negotiated state to the next. -/
theorem Inv.progress_settled (h : Inv s m) (hr : i.reset = false)
    (hs : s.state = .idle ∨ s.state = .suspend) (hb : (step s i).hseQ = s.hseQ)
    (more : List Event) : Settled (step s i) (m.events ++ more) := by
  have hprogress := h.progress
  rcases hs with hs | hs <;> simp only [Progress, hs] at hprogress <;>
    exact hprogress.keeps _ (by simp [hs]) hr hb

/-- Each edge out of reset, by the rule that it follows. -/
theorem Inv.progress_next (h : Inv s m) (hr : i.reset = false)
    (hne : (step s i).state ≠ .fsStart) :
    Progress (step s i) (m.events ++ counted m s ++ entered s i) := by
  have hprogress := h.progress
  have hmode := hsModeQ_step (s := s) hr
  have hlow := hsModeQ_low (s := s) (i := i) hr
  have hrule := step_rule (s := s) hr
  generalize ht : (step s i).state = t at hrule
  generalize hb : (step s i).hseQ = b at hrule
  cases hrule with
  | stay =>
      rw [ht] at hne
      exact h.progress_stay hr ht hb hne
  | started hs => exact absurd ht hne
  | fullSpeed hs => exact absurd ht hne
  | restart hs => exact absurd ht hne
  | listen hs =>
      rw [if_pos hs] at hmode
      simp only [Progress, ht]
      exact ⟨hb, hmode⟩
  | se0 hs =>
      simp only [Progress, hs] at hprogress
      simp only [Progress, ht]
      exact ⟨hb.trans hprogress.1, hlow (by simp [hs]) hprogress.2⟩
  | timeout hs =>
      simp only [Progress, hs] at hprogress
      simp only [Progress, ht]
      have hhse := hb.trans hprogress.1
      have hoff := hlow (by simp [hs]) hprogress.2
      exact ⟨fun hq => by simp [hhse] at hq, fun hq => by simp [hoff] at hq⟩
  | again hs =>
      simp only [Progress, hs] at hprogress
      simp only [Progress, ht]
      exact ⟨hb.trans hprogress.1, hlow (by simp [hs]) hprogress.2⟩
  | chirp hs =>
      simp only [Progress, hs] at hprogress
      simp only [Progress, ht, entered, hs]
      exact ⟨hlow (by simp [hs]) hprogress.2, List.sublist_append_right _ _⟩
  | k1 hs =>
      simp only [Progress, hs] at hprogress
      simp only [Progress, ht, entered, hs, counted_eq_nil (m := m) (s := s) (by simp [hs]),
        List.append_nil]
      exact ⟨hlow (by simp [hs]) hprogress.1, hprogress.2.append (List.Sublist.refl [Event.k1])⟩
  | k2 hs =>
      simp only [Progress, hs] at hprogress
      simp only [Progress, ht, entered, hs, counted_eq_nil (m := m) (s := s) (by simp [hs]),
        List.append_nil]
      exact ⟨hlow (by simp [hs]) hprogress.1, hprogress.2.append (List.Sublist.refl [Event.k2])⟩
  | kj hs =>
      simp only [Progress, hs] at hprogress
      simp only [Progress, ht, entered, hs, counted_eq_nil (m := m) (s := s) (by simp [hs]),
        List.append_nil]
      exact ⟨hlow (by simp [hs]) hprogress.1, counting_start hs hprogress.2⟩
  | agreed hs hend =>
      simp only [Progress, hs] at hprogress
      simp only [Progress, ht]
      obtain ⟨js, hjs, hlen, hchirped⟩ := hprogress.2.ended hend
      exact ⟨hlow (by simp [hs]) hprogress.1, js, hjs, hlen, (hchirped.append _).append _⟩
  | highSpeed hs =>
      simp only [Progress, hs] at hprogress
      simp only [Progress, ht]
      obtain ⟨hoff, js, hjs, hlen, hchirped⟩ := hprogress
      exact ⟨hlow (by simp [hs]) hoff, js, hjs, hlen, (hchirped.append _).append _⟩
  | done hs hdone =>
      simp only [Progress, hs] at hprogress
      simp only [Progress, ht, entered, hs, hdone, counted_eq_nil (m := m) (s := s) (by simp [hs]),
        List.append_nil, if_true]
      obtain ⟨hoff, js, hjs, hlen, hchirped⟩ := hprogress
      have hno := hlow (by simp [hs]) hoff
      exact ⟨fun _ => ⟨js, hjs, hlen, List.Sublist.append hchirped (List.Sublist.refl [Event.done])⟩,
        fun hq => by simp [hno] at hq⟩
  | busReset hs =>
      have hsettled := h.progress_settled hr (Or.inl hs) hb (counted m s ++ entered s i)
      simp only [Progress, ht]
      rwa [← List.append_assoc] at hsettled
  | suspend hs =>
      have hsettled := h.progress_settled hr (Or.inl hs) hb (counted m s ++ entered s i)
      simp only [Progress, ht]
      rwa [← List.append_assoc] at hsettled
  | wake hs =>
      have hsettled := h.progress_settled hr (Or.inr hs) hb (counted m s ++ entered s i)
      simp only [Progress, ht]
      rwa [← List.append_assoc] at hsettled
  | resume t b hs =>
      simp only [Progress, hs] at hprogress

theorem Inv.next (h : Inv s m) (i : Inputs) : Inv (step s i) (watch m s i) := by
  cases hr : i.reset
  · refine ⟨fun _ => line_next hr, ?_⟩
    by_cases ht : (step s i).state = .fsStart
    · simp only [Progress, ht]
    · rw [events_watch hr ht]
      exact h.progress_next hr ht
  · have ht : (step s i).state = .powerOn := by simp [step, move, hr]
    refine ⟨fun hne => absurd ht hne, ?_⟩
    simp only [Progress, ht]
    simp [step, move, hr]

end Step

theorem inv_afterReset (s : State) (i : Inputs) : Inv (afterReset s i) .start := by
  have ht : (afterReset s i).state = .powerOn := by simp [afterReset, step, move]
  refine ⟨fun hne => absurd ht hne, ?_⟩
  simp only [Progress, ht]
  simp [afterReset, step, move]

/-- The state and the history that a run from reset has reached. -/
def reached (s : State) (i : Inputs) (is : List Inputs) : State × History :=
  run (watched step watch) (afterReset s i, .start) is

theorem inv_reached (s : State) (i : Inputs) (is : List Inputs) :
    Inv (reached s i is).1 (reached s i is).2 :=
  run_always (fun p : State × History => Inv p.1 p.2) (fun _ j h => h.next j)
    (s := (afterReset s i, History.start)) (inv_afterReset s i) is

/-! ## Full speed after the time-out -/

/-- The device is in full-speed mode. -/
structure FullSpeed (s : State) : Prop where
  state : s.state = .idle ∨ s.state = .suspend ∨ s.state = .reset
  hse : s.hseQ = false
  mode : s.hsModeQ = false

theorem FullSpeed.next {s : State} (h : FullSpeed s) {i : Inputs} (hr : i.reset = false)
    (hne : (step s i).state ≠ .fsStart) : FullSpeed (step s i) := by
  have hmode := hsModeQ_step (s := s) hr
  have hfs : s.state ≠ .fsStart := by rcases h.state with hs | hs | hs <;> simp [hs]
  rw [if_neg hfs, h.hse, h.mode] at hmode
  have hrule := step_rule (s := s) hr
  have hhse := h.hse
  generalize ht : (step s i).state = t at hrule hne
  generalize hb : (step s i).hseQ = b at hrule
  have hmode : (step s i).hsModeQ = false := by simpa using hmode
  cases hrule with
  | stay => exact ⟨ht ▸ h.state, hb.trans hhse, hmode⟩
  | busReset hs => exact ⟨Or.inr (Or.inr ht), hb.trans hhse, hmode⟩
  | suspend hs => exact ⟨Or.inr (Or.inl ht), hb.trans hhse, hmode⟩
  | wake hs => exact ⟨Or.inl ht, hb.trans hhse, hmode⟩
  | started | fullSpeed | restart => exact absurd rfl hne
  | listen hs | se0 hs | timeout hs | again hs | chirp hs | k1 hs | k2 hs | kj hs | agreed hs
    | highSpeed hs | done hs | resume _ _ hs =>
      rcases h.state with hs' | hs' | hs' <;> simp [hs'] at hs

/-- Neither a reset nor `ST_FS_START`. -/
def KeepsSpeed (s : State) (i : Inputs) : Prop :=
  i.reset = false ∧ (step s i).state ≠ .fsStart

/-- What the registers of a state say of what the machine has been through. -/
structure OnlyChirped (s : State) (m : History) : Prop where
  negotiated : s.hsModeQ = true → s.state ≠ .fsStart → Negotiated m.events
  brief : s.state = .fsStart → ∀ i, (step s i).hsModeQ = false
  low : s.state = .fsLsse0 ∨ s.state = .waitSe0 → s.hseQ = false
  timeout : s.state = .fsLsse0 → ∀ i, (step s i).state = .idle → (step s i).hsModeQ = false ∧
    ∀ is, Along step KeepsSpeed (step s i) is → (run step (step s i) is).hsModeQ = false

theorem Inv.onlyChirped {s : State} {m : History} (h : Inv s m) : OnlyChirped s m := by
  have hprogress := h.progress
  refine ⟨fun hq hne => ?_, fun hs i => by simp [step, hs], fun hs => ?_, fun hs i ht => ?_⟩
  · cases hs : s.state <;> simp only [Progress, hs] at hprogress
    case idle | suspend | reset => exact hprogress.enabled (hprogress.mode hq)
    case fsStart => exact absurd hs hne
    all_goals simp [hq] at hprogress
  · rcases hs with hs | hs <;> simp only [Progress, hs] at hprogress <;> exact hprogress.1
  · have hr : i.reset = false := by
      cases hr : i.reset
      · rfl
      · simp [step, move, hr] at ht
    have hnext := (h.next i).progress
    simp only [Progress, ht] at hnext
    simp only [Progress, hs] at hprogress
    have hmode := hsModeQ_low (i := i) hr (by simp [hs]) hprogress.2
    have hhse : (step s i).hseQ = false := by
      have hkeep : (moveNext s i).hseQ = s.hseQ := by simp [moveNext, hs, Move.stay]
      simp only [step, move, hr, Bool.false_eq_true, if_false]
      split_ifs
      · exact hprogress.1
      · exact hkeep.trans hprogress.1
    refine ⟨hmode, fun is his => ?_⟩
    exact (run_invariant FullSpeed (fun t j hf hj => hf.next hj.1 hj.2)
      ⟨Or.inl ht, hhse, hmode⟩ his).mode

end MiscVerilogCores.LineState
