import MiscVerilogCores.Library.Clocked
import MiscVerilogCores.Verification.Protocol.Moves

/-! # What the transaction layer waits for

Which states are left through a timer if the host falls silent, and what has to be ruled out so
that only those are reached. -/

namespace MiscVerilogCores.Protocol

open Clocked Usb

/-- The state that a run from reset has reached. -/
def reached (p : Params) (s₀ : State) (i₀ : Inputs) (is : List Inputs) : State :=
  run (step p) (step p s₀ { i₀ with reset := true }) is

/-! ## Timers and transfers -/

/-- The encoder has begun to send, and has not reported the end. -/
def sending (tx : Bool) (_ : State) (i : Inputs) : Bool :=
  (tx || i.usbBusy) && !(i.hskSent || i.usbSent)

/-- A timer is armed, running, or has just elapsed. -/
def TimerOn (s : State) : Prop :=
  s.tagQ = true ∨ s.taRunQ = true ∨ s.taErrQ = true ∨ s.epgQ = true ∨ s.epRunQ = true ∨
    s.epErrQ = true ∨ s.timeoutQ = true

/-- What the encoder reports when it has sent what the state asks for. -/
def Sent (s : State) (i : Inputs) : Prop :=
  i.reset = false ∧
    (s.state = .send ∧ i.usbSent = true ∨ s.state = .resp ∧ i.hskSent = true)

/-- A packet is being sent, whose end leads to the idle state or to one with an armed timer. -/
def Transmits (p : Params) (s : State) (tx : Bool) : Prop :=
  tx = true ∧ (s.state = .send ∨ s.state = .resp) ∧
    ∀ i, Sent s i → (step p s i).state = .idle ∨ (step p s i).tagQ = true ∨ (step p s i).epgQ = true

/-- Nothing comes from the host, and the encoder is idle. -/
structure Silent (i : Inputs) : Prop where
  reset : i.reset = false
  rxEvent : i.rxEvent ≠ 0b01
  tok : i.tokRecv = false
  usb : i.usbRecv = false
  hsk : i.hskRecv = false
  eop : i.eopRecv = false
  crc : i.crcError = false
  busy : i.usbBusy = false
  hskSent : i.hskSent = false
  usbSent : i.usbSent = false

/-- The state is left though the host stays silent, once the encoder has sent what it has begun. -/
def WayOut (p : Params) (s : State) (tx : Bool) : Prop :=
  Transmits p s tx ∨
    ∃ n, ∀ js, (∀ j ∈ js, Silent j) → n ≤ js.length →
      ∃ pre, pre <+: js ∧ (run (step p) s pre).state = .idle

/-! ## What is ruled out -/

/-- No token finds its end-point full, and the encoder reports what the state waits for. -/
structure Obliged (p : Params) (s : State) (i : Inputs) : Prop where
  reset : i.reset = false
  room : s.state = .idle → tokenW i = true → i.usbPid = usbpidOut →
    i.ep0Select = true ∨ s.outRdyQ = true ∨ outSelW p s i = false
  send : s.state = .send → i.hskSent = true → i.usbSent = true
  resp : s.state = .resp → i.usbSent = true → i.hskSent = true

/-- The turn-around timer may still end the state. -/
def TaOn (s : State) : Prop :=
  s.timeoutQ = true ∨ s.taErrQ = true ∨ s.epErrQ = true ∨ s.tagQ = true ∨ s.taRunQ = true

/-- The end-point timer may still end the state. -/
def EpOn (s : State) : Prop :=
  s.timeoutQ = true ∨ s.epErrQ = true ∨ s.taErrQ = true ∨ s.epgQ = true ∨ s.epRunQ = true

/-- What is true of each state: in `ST_RECV` the end-point timer is armed all the time. -/
structure Timed (s : State) (tx : Bool) : Prop where
  drop : s.state ≠ .drop
  recv : s.state = .recv → s.epgQ = true ∧ s.tagQ = false
  wait : s.state = .wait → TaOn s
  send : s.state = .send → EpOn s ∨ tx = true
  resp : s.state = .resp → EpOn s ∨ tx = true

section Steps

variable {p : Params} {s : State} {i : Inputs} {tx : Bool}

/-- A timer that has elapsed is seen in the next cycle. -/
theorem timeoutQ_step (hr : i.reset = false) :
    (step p s i).timeoutQ = (s.taErrQ || s.epErrQ) := by
  simp [step, hr]

/-- The turn-around timer stays on in a state that waits for a handshake. -/
theorem TaOn.next (h : TaOn s) (hr : i.reset = false) (hto : s.timeoutQ = false)
    (hhsk : i.hskRecv = false) : TaOn (step p s i) := by
  rcases h with h | h | h | h | h
  · simp [hto] at h
  · exact Or.inl (by simp [timeoutQ_step hr, h])
  · exact Or.inl (by simp [timeoutQ_step hr, h])
  · exact Or.inr (Or.inr (Or.inr (Or.inr (by simp [step, taNext, h]))))
  · cases htag : s.tagQ
    · by_cases hz : s.taCount = 0#7
      · exact Or.inr (Or.inl (by simp [step, taNext, htag, h, hz, hhsk]))
      · exact Or.inr (Or.inr (Or.inr (Or.inr (by simp [step, taNext, htag, h, hz, hhsk]))))
    · exact Or.inr (Or.inr (Or.inr (Or.inr (by simp [step, taNext, htag]))))

/-- The end-point timer stays on until the encoder begins. -/
theorem EpOn.next (h : EpOn s) (hr : i.reset = false) (hto : s.timeoutQ = false)
    (hbusy : epAnswered s i = false) : EpOn (step p s i) := by
  rcases h with h | h | h | h | h
  · simp [hto] at h
  · exact Or.inl (by simp [timeoutQ_step hr, h])
  · exact Or.inl (by simp [timeoutQ_step hr, h])
  · exact Or.inr (Or.inr (Or.inr (Or.inr (by simp [step, epTimerNext, h]))))
  · cases hepg : s.epgQ
    · by_cases hz : s.epCount = 0#5
      · exact Or.inr (Or.inl (by simp [step, epTimerNext, hepg, h, hz, hbusy]))
      · exact Or.inr (Or.inr (Or.inr (Or.inr (by simp [step, epTimerNext, hepg, h, hz, hbusy]))))
    · exact Or.inr (Or.inr (Or.inr (Or.inr (by simp [step, epTimerNext, hepg]))))

end Steps

/-! ## What is reached -/

section Runs

variable {p : Params} {s : State} {i : Inputs} {tx : Bool}

theorem timed_of_idle (h : s.state = .idle) (tx : Bool) : Timed s tx := by
  refine ⟨?_, ?_, ?_, ?_, ?_⟩ <;> simp [h]

theorem TaOn.of_tagQ (h : s.tagQ = true) : TaOn s := Or.inr (Or.inr (Or.inr (Or.inl h)))

theorem EpOn.of_epgQ (h : s.epgQ = true) : EpOn s := Or.inr (Or.inr (Or.inr (Or.inl h)))

/-- While the encoder is asked for a packet, the timer is on or the packet is being sent. -/
theorem EpOn.next_or_sending (h : EpOn s ∨ tx = true) (hr : i.reset = false)
    (hto : s.timeoutQ = false) (hs : s.state ≠ .recv) (hhsk : i.hskSent = false)
    (husb : i.usbSent = false) : EpOn (step p s i) ∨ sending tx s i = true := by
  rcases h with h | h
  · cases hbusy : i.usbBusy
    · refine Or.inl (h.next hr hto ?_)
      cases hstate : s.state <;> simp_all [epAnswered]
    · exact Or.inr (by simp [sending, hbusy, hhsk, husb])
  · exact Or.inr (by simp [sending, h, hhsk, husb])

/-- A token that is taken arms a timer. -/
theorem Obliged.token (h : Obliged p s i) (hs : s.state = .idle) (htok : tokenW i = true)
    {m : Move} (hm : Dispatched p s i m) (hstate : (step p s i).state = m.state)
    (htag : (step p s i).tagQ = m.tagQ) (hepg : (step p s i).epgQ = m.epgQ) (tx : Bool) :
    Timed (step p s i) tx := by
  have hta : m.tagQ = true → TaOn (step p s i) := fun ht => .of_tagQ (htag.trans ht)
  have hep : m.epgQ = true → EpOn (step p s i) := fun he => .of_epgQ (hepg.trans he)
  cases hm with
  | drop hpid hrdy hsel =>
      rcases h.room hs htok hpid with hyes | hyes | hno
      · simp [hyes] at hrdy
      · simp [hyes] at hrdy
      · simp [hno] at hsel
  | _ => refine ⟨?_, ?_, ?_, ?_, ?_⟩ <;> simp_all

theorem Timed.next (h : Timed s tx) (hi : Obliged p s i) :
    Timed (step p s i) (sending tx s i) := by
  have hr := hi.reset
  have hstate := state_step (p := p) (s := s) hr
  have htag := tagQ_step (p := p) (s := s) hr
  have hepg := epgQ_step (p := p) (s := s) hr
  have hrule := moveNext_rule p s i
  generalize moveNext p s i = m at hstate htag hepg hrule
  cases hrule with
  | rest | ignore | abort | giveUp | answered | finish | lapse => exact timed_of_idle hstate _
  | token hs htok hm => exact hi.token hs htok hm hstate htag hepg _
  | accept pid hs husb hpar hpid =>
      have hep : EpOn (step p s i) := .of_epgQ hepg
      refine ⟨?_, ?_, ?_, ?_, ?_⟩ <;> simp [hstate, hep]
  | await pid hs husb herr =>
      have hq := (h.recv hs).1
      refine ⟨?_, ?_, ?_, ?_, ?_⟩ <;> simp [hstate, hepg, htag, hq]
  | sent pid hs hsent =>
      have hta : TaOn (step p s i) := .of_tagQ htag
      refine ⟨?_, ?_, ?_, ?_, ?_⟩ <;> simp [hstate, hta]
  | supply pid hs hsent hto =>
      have hhsk : i.hskSent = false := by
        by_contra hyes
        simp [hi.send hs (by simpa using hyes)] at hsent
      have hep := EpOn.next_or_sending (p := p) (h.send hs) hr hto (by simp [hs]) hhsk hsent
      refine ⟨?_, ?_, ?_, ?_, ?_⟩ <;> simp [hstate, hep]
  | answer hs hend =>
      obtain ⟨hhsk, hto⟩ : i.hskSent = false ∧ s.timeoutQ = false := by simpa using hend
      have husb : i.usbSent = false := by
        by_contra hyes
        simp [hi.resp hs (by simpa using hyes)] at hhsk
      have hep := EpOn.next_or_sending (p := p) (h.resp hs) hr hto (by simp [hs]) hhsk husb
      refine ⟨?_, ?_, ?_, ?_, ?_⟩ <;> simp [hstate, hep]
  | wait hs hend =>
      obtain ⟨hhsk, hto⟩ : i.hskRecv = false ∧ s.timeoutQ = false := by simpa using hend
      have hta := (h.wait hs).next (p := p) hr hto hhsk
      refine ⟨?_, ?_, ?_, ?_, ?_⟩ <;> simp [hstate, hta]
  | refuse hs | drop hs => exact absurd hs h.drop

/-! ## Ways out -/

/-- What the timer of the state has left to count. -/
def counting (p : Params) (s : State) : ℕ :=
  if s.state = .send ∨ s.state = .resp then
    if s.epgQ then p.maxEpTimer.toNat + 3 else s.epCount.toNat + 2
  else if s.tagQ then p.maxTaTimer.toNat + 3 else s.taCount.toNat + 2

/-- The number of edges that the timers leave. -/
def timeLeft (p : Params) (s : State) : ℕ :=
  if s.timeoutQ then 0 else if s.taErrQ || s.epErrQ then 1 else counting p s

/-- A timer is on that ends the state. -/
def Ending (s : State) : Prop :=
  (s.state = .send ∨ s.state = .resp) ∧ EpOn s ∨ (s.state = .recv ∨ s.state = .wait) ∧ TaOn s

theorem two_le_counting (p : Params) (s : State) : 2 ≤ counting p s := by
  rw [counting]
  split_ifs <;> omega

theorem timeLeft_le_counting (p : Params) (s : State) : timeLeft p s ≤ counting p s := by
  have := two_le_counting p s
  rw [timeLeft]
  split_ifs <;> omega

/-- The state stays as it is while the host is silent and no timer has elapsed. -/
theorem moves_silent (hi : Silent i) (hs : s.state ≠ .idle) :
    (s.timeoutQ = true → (step p s i).state = .idle) ∧
      (s.timeoutQ = false → (step p s i).state = s.state ∧
        (s.state ≠ .send → (step p s i).tagQ = false) ∧
        (s.state ≠ .recv → (step p s i).epgQ = false)) := by
  have hstate := state_step (p := p) (s := s) hi.reset
  have htag := tagQ_step (p := p) (s := s) hi.reset
  have hepg := epgQ_step (p := p) (s := s) hi.reset
  have hrule := moveNext_rule p s i
  generalize moveNext p s i = m at hstate htag hepg hrule
  have htok := hi.tok
  have husb := hi.usb
  have hhsk := hi.hsk
  have hcrc := hi.crc
  have heop := hi.eop
  have hhskSent := hi.hskSent
  have husbSent := hi.usbSent
  cases hrule <;> simp_all

/-- The timers count down. -/
theorem counting_down (h : Ending s) (hi : Silent i) (hto : s.timeoutQ = false)
    (hta : s.taErrQ = false) (hep : s.epErrQ = false) (hstate : (step p s i).state = s.state)
    (htag : s.state ≠ .send → (step p s i).tagQ = false)
    (hepg : s.state ≠ .recv → (step p s i).epgQ = false) :
    (step p s i).taErrQ = true ∨ (step p s i).epErrQ = true ∨
      counting p (step p s i) < counting p s := by
  rcases h with ⟨hs, hon⟩ | ⟨hs, hon⟩
  · have hne : s.state ≠ .recv := by rcases hs with hs | hs <;> simp [hs]
    have hbusy : epAnswered s i = false := by
      rcases hs with hs | hs <;> simp [epAnswered, hs, hi.busy]
    have hnext : counting p (step p s i) = (step p s i).epCount.toNat + 2 := by
      rw [counting, hstate, if_pos hs, hepg hne, if_neg (by simp)]
    rw [hnext, counting, if_pos hs]
    cases hq : s.epgQ
    · have hrun : s.epRunQ = true := by simpa [EpOn, hto, hta, hep, hq] using hon
      by_cases hz : s.epCount = 0#5
      · exact Or.inr (Or.inl (by simp [step, epTimerNext, hq, hrun, hz, hbusy]))
      · refine Or.inr (Or.inr ?_)
        have hcount : (step p s i).epCount = s.epCount - 1#5 := by
          simp [step, epTimerNext, hq, hrun, hz, hbusy]
        rw [hcount, if_neg (by simp)]
        bv_omega
    · have hcount : (step p s i).epCount = p.maxEpTimer := by simp [step, epTimerNext, hq]
      simp [hcount]
  · have hne : ¬ (s.state = .send ∨ s.state = .resp) := by rcases hs with hs | hs <;> simp [hs]
    have hsend : s.state ≠ .send := fun h => hne (Or.inl h)
    have hnext : counting p (step p s i) = (step p s i).taCount.toNat + 2 := by
      rw [counting, hstate, if_neg hne, htag hsend, if_neg (by simp)]
    rw [hnext, counting, if_neg hne]
    cases hq : s.tagQ
    · have hrun : s.taRunQ = true := by simpa [TaOn, hto, hta, hep, hq] using hon
      by_cases hz : s.taCount = 0#7
      · exact Or.inl (by simp [step, taNext, hq, hrun, hz, hi.hsk])
      · refine Or.inr (Or.inr ?_)
        have hcount : (step p s i).taCount = s.taCount - 1#7 := by
          simp [step, taNext, hq, hrun, hz, hi.hsk]
        rw [hcount, if_neg (by simp)]
        bv_omega
    · have hcount : (step p s i).taCount = p.maxTaTimer := by simp [step, taNext, hq]
      simp [hcount]

theorem Ending.next (h : Ending s) (hi : Silent i) :
    (step p s i).state = .idle ∨
      Ending (step p s i) ∧ timeLeft p (step p s i) < timeLeft p s := by
  have hne : s.state ≠ .idle := by rcases h with ⟨hs | hs, -⟩ | ⟨hs | hs, -⟩ <;> simp [hs]
  obtain ⟨hout, hstay⟩ := moves_silent (p := p) hi hne
  cases hto : s.timeoutQ
  · obtain ⟨hstate, htag, hepg⟩ := hstay hto
    have hto' := timeoutQ_step (p := p) (s := s) hi.reset
    refine Or.inr ⟨?_, ?_⟩
    · rcases h with ⟨hs, hon⟩ | ⟨hs, hon⟩
      · have hbusy : epAnswered s i = false := by
          rcases hs with hs | hs <;> simp [epAnswered, hs, hi.busy]
        exact Or.inl ⟨hstate ▸ hs, hon.next hi.reset hto hbusy⟩
      · exact Or.inr ⟨hstate ▸ hs, hon.next hi.reset hto hi.hsk⟩
    · cases herr : s.taErrQ || s.epErrQ
      · obtain ⟨hta, hep⟩ : s.taErrQ = false ∧ s.epErrQ = false := by simpa using herr
        have hleft : timeLeft p s = counting p s := by simp [timeLeft, hto, herr]
        have htwo := two_le_counting p s
        have hone : ((step p s i).taErrQ || (step p s i).epErrQ) = true →
            timeLeft p (step p s i) = 1 := by
          intro herr'
          simp [timeLeft, hto', herr, herr']
        rcases counting_down h hi hto hta hep hstate htag hepg with herr' | herr' | hlt
        · rw [hleft, hone (by simp [herr'])]
          omega
        · rw [hleft, hone (by simp [herr'])]
          omega
        · exact (timeLeft_le_counting p _).trans_lt (hlt.trans_eq hleft.symm)
      · simp [timeLeft, hto, hto', herr]
  · exact Or.inl (hout hto)

/-- A state with a timer on is left. -/
theorem Ending.reaches_idle (h : Ending s) {js : List Inputs} (hjs : ∀ j ∈ js, Silent j)
    (hlen : timeLeft p s < js.length) :
    ∃ pre, pre <+: js ∧ (run (step p) s pre).state = .idle :=
  reaches_of_rank Ending (fun s => s.state = .idle) (timeLeft p)
    (fun _ _ h hi => h.next hi) h (along_of_inputs _ s hjs) hlen

theorem Ending.wayOut (h : Ending s) (tx : Bool) : WayOut p s tx :=
  Or.inr ⟨timeLeft p s + 1, fun _ hjs hlen => h.reaches_idle hjs hlen⟩

/-! ## Waiting for a packet -/

/-- The device waits for a packet, and no timer is on that ends the wait: the one for end-points is
armed again at each edge. -/
structure Stuck (s : State) : Prop where
  state : s.state = .recv
  epg : s.epgQ = true
  quiet : ¬ TaOn s

theorem Stuck.next (h : Stuck s) (hi : Silent i) : Stuck (step p s i) := by
  have hoff : s.timeoutQ = false ∧ s.taErrQ = false ∧ s.epErrQ = false ∧ s.tagQ = false ∧
      s.taRunQ = false := by simpa [TaOn] using h.quiet
  obtain ⟨hto, hta, hep, htag, hrun⟩ := hoff
  have hrule := moveNext_rule p s i
  have hstate := state_step (p := p) (s := s) hi.reset
  have htag' := tagQ_step (p := p) (s := s) hi.reset
  have hepg' := epgQ_step (p := p) (s := s) hi.reset
  generalize moveNext p s i = m at hstate htag' hepg' hrule
  have hs := h.state
  have husb := hi.usb
  have hcrc := hi.crc
  have hkeep : m.state = .recv ∧ m.tagQ = false ∧ m.epgQ = s.epgQ := by
    cases hrule <;> simp_all
  refine ⟨hstate.trans hkeep.1, hepg'.trans (hkeep.2.2.trans h.epg), ?_⟩
  have hnext : (step p s i).taErrQ = false ∧ (step p s i).epErrQ = false ∧
      (step p s i).taRunQ = false := by
    simp [step, taNext, epTimerNext, htag, hrun, h.epg]
  simp [TaOn, hnext, timeoutQ_step hi.reset, hta, hep, htag', hkeep.2.1]

/-- A cycle in which nothing happens. -/
def silentCycle : Inputs where
  reset := false
  rxEvent := 0
  setConfI := false
  clrConfI := false
  usbAddr := 0
  decActv := false
  crcError := false
  hskRecv := false
  usbRecv := false
  usbPid := 0
  eopRecv := false
  tokRecv := false
  tokAddr := 0
  tokEndp := 0
  hskSent := false
  usbBusy := false
  usbSent := false
  ep0Select := false
  ep0Parity := false
  ep1 := ⟨false, false, false, false⟩
  ep2 := ⟨false, false, false, false⟩
  ep3 := ⟨false, false, false, false⟩
  ep4 := ⟨false, false, false, false⟩
  undef := 0

theorem silent_silentCycle : Silent silentCycle :=
  ⟨rfl, by decide, rfl, rfl, rfl, rfl, rfl, rfl, rfl, rfl⟩

/-- A state that silence keeps, and in which nothing is sent, has no way out. -/
theorem not_wayOut_of_kept {Inv : State → Prop}
    (hnext : ∀ s i, Inv s → Silent i → Inv (step p s i))
    (hkept : ∀ s, Inv s → s.state ≠ .idle ∧ s.state ≠ .send ∧ s.state ≠ .resp) (h : Inv s)
    (tx : Bool) : ¬ WayOut p s tx := by
  obtain ⟨-, hsend, hresp⟩ := hkept s h
  rintro (⟨-, hs, -⟩ | ⟨n, hn⟩)
  · exact hs.elim hsend hresp
  · obtain ⟨pre, hpre, hidle⟩ := hn (List.replicate n silentCycle)
      (fun j hj => List.eq_of_mem_replicate hj ▸ silent_silentCycle) (by simp)
    have hinv : Inv (run (step p) s pre) := by
      refine run_invariant Inv hnext h (along_of_inputs _ s ?_)
      exact fun j hj => List.eq_of_mem_replicate (hpre.subset hj) ▸ silent_silentCycle
    exact (hkept _ hinv).1 hidle

/-- It waits as long as the host is silent. -/
theorem Stuck.not_wayOut (h : Stuck s) (tx : Bool) : ¬ WayOut p s tx :=
  not_wayOut_of_kept (fun _ _ h hi => h.next hi) (fun s h => by simp [h.state]) h tx

/-- The device waits for the end of a packet that it will refuse, and no timer is on. -/
structure Refusing (s : State) : Prop where
  state : s.state = .drop
  quiet : ¬ TimerOn s

theorem Refusing.next (h : Refusing s) (hi : Silent i) : Refusing (step p s i) := by
  have hoff : s.tagQ = false ∧ s.taRunQ = false ∧ s.taErrQ = false ∧ s.epgQ = false ∧
      s.epRunQ = false ∧ s.epErrQ = false ∧ s.timeoutQ = false := by
    simpa [TimerOn] using h.quiet
  obtain ⟨htag, hrun, hta, hepg, heprun, hep, hto⟩ := hoff
  obtain ⟨-, hstay⟩ := moves_silent (p := p) (s := s) hi (by simp [h.state])
  obtain ⟨hstate, htag', hepg'⟩ := hstay hto
  refine ⟨hstate.trans h.state, ?_⟩
  have hnext : (step p s i).taErrQ = false ∧ (step p s i).epErrQ = false ∧
      (step p s i).taRunQ = false ∧ (step p s i).epRunQ = false := by
    simp [step, taNext, epTimerNext, htag, hrun, hepg, heprun]
  simp [TimerOn, hnext, timeoutQ_step hi.reset, hta, hep, htag' (by simp [h.state]),
    hepg' (by simp [h.state])]

theorem Refusing.not_wayOut (h : Refusing s) (tx : Bool) : ¬ WayOut p s tx :=
  not_wayOut_of_kept (fun _ _ h hi => h.next hi) (fun s h => by simp [h.state]) h tx

/-! ## Every state that is reached -/

theorem timed_reached (p : Params) (s₀ : State) (i₀ : Inputs) {is : List Inputs}
    (h : Along (step p) (Obliged p) (step p s₀ { i₀ with reset := true }) is) (tx : Bool) :
    Timed (reached p s₀ i₀ is)
      (run (watched (step p) sending) (step p s₀ { i₀ with reset := true }, tx) is).2 := by
  have hstart : Timed (step p s₀ { i₀ with reset := true }) tx := timed_of_idle (by simp [step]) tx
  have hrun : Timed (run (watched (step p) sending) (step p s₀ { i₀ with reset := true }, tx) is).1
      (run (watched (step p) sending) (step p s₀ { i₀ with reset := true }, tx) is).2 :=
    watched_invariant Timed (fun s m i h hi => h.next hi) hstart h
  rwa [run_watched_fst] at hrun

/-- The end of a packet that is sent finishes the transaction or arms a timer. -/
theorem transmits_of (hs : s.state = .send ∨ s.state = .resp) (htx : tx = true) :
    Transmits p s tx := by
  refine ⟨htx, hs, fun i hi => ?_⟩
  obtain ⟨hr, hend⟩ := hi
  rcases hend with ⟨hs, hend⟩ | ⟨hs, hend⟩
  · exact Or.inr (Or.inl (by simp [tagQ_step hr, moveNext, hs, hend]))
  · exact Or.inl (by simp [state_step hr, moveNext, hs, hend])

theorem Timed.live (h : Timed s tx) (hs : s.state ≠ .idle) : TimerOn s ∨ Transmits p s tx := by
  have hto : TaOn s ∨ EpOn s → TimerOn s := by
    rw [TaOn, EpOn, TimerOn]
    tauto
  cases hstate : s.state with
  | idle => exact absurd hstate hs
  | recv => exact Or.inl (Or.inr (Or.inr (Or.inr (Or.inl (h.recv hstate).1))))
  | wait => exact Or.inl (hto (Or.inl (h.wait hstate)))
  | drop => exact absurd hstate h.drop
  | send =>
      exact (h.send hstate).imp (fun h => hto (Or.inr h)) (transmits_of (Or.inl hstate))
  | resp =>
      exact (h.resp hstate).imp (fun h => hto (Or.inr h)) (transmits_of (Or.inr hstate))

/-- A state is left unless it waits for a packet and the turn-around timer is off. -/
theorem Timed.wayOut (h : Timed s tx) (hs : s.state ≠ .idle)
    (hrecv : s.state = .recv → TaOn s) : WayOut p s tx := by
  have hgoes : s.state = .send ∨ s.state = .resp → EpOn s ∨ tx = true → WayOut p s tx := by
    rintro hgoes (hon | htx)
    · exact Ending.wayOut (Or.inl ⟨hgoes, hon⟩) tx
    · exact Or.inl (transmits_of hgoes htx)
  cases hstate : s.state with
  | idle => exact absurd hstate hs
  | drop => exact absurd hstate h.drop
  | recv => exact Ending.wayOut (Or.inr ⟨Or.inl hstate, hrecv hstate⟩) tx
  | wait => exact Ending.wayOut (Or.inr ⟨Or.inr hstate, h.wait hstate⟩) tx
  | send => exact hgoes (Or.inl hstate) (h.send hstate)
  | resp => exact hgoes (Or.inr hstate) (h.resp hstate)

end Runs

/-- As long as no token finds its end-point full, each state but the idle one has a timer on or a
packet being sent; and it has a way out exactly if it is not the one that waits for a packet, in
which only the turn-around timer counts. -/
theorem wayOut_iff (p : Params) (s₀ : State) (i₀ : Inputs) (is : List Inputs)
    (h : Along (step p) (Obliged p) (step p s₀ { i₀ with reset := true }) is)
    (hs : (reached p s₀ i₀ is).state ≠ .idle) :
    let tx := (run (watched (step p) sending) (step p s₀ { i₀ with reset := true }, false) is).2
    (TimerOn (reached p s₀ i₀ is) ∨ Transmits p (reached p s₀ i₀ is) tx) ∧
      (WayOut p (reached p s₀ i₀ is) tx ↔
        ((reached p s₀ i₀ is).state = .recv → TaOn (reached p s₀ i₀ is))) := by
  intro tx
  have htimed := timed_reached p s₀ i₀ h false
  refine ⟨htimed.live hs, fun hout hrecv => ?_, htimed.wayOut hs⟩
  by_contra hquiet
  exact Stuck.not_wayOut ⟨hrecv, (htimed.recv hrecv).1, hquiet⟩ tx hout

/-! ## Two tokens without an answer -/

/-- A device with one end-point, used in both directions. -/
def onePort : Params where
  ep1 := ⟨1, true, true⟩
  ep2 := ⟨0, false, false⟩
  ep3 := ⟨0, false, false⟩
  ep4 := ⟨0, false, false⟩
  maxTaTimer := 127
  maxEpTimer := 31

/-- The device is configured. -/
def configCycle : Inputs := { silentCycle with setConfI := true }

/-- A token for the device. -/
def tokenCycle (pid endp : BitVec 4) : Inputs :=
  { silentCycle with tokRecv := true, usbPid := pid, tokEndp := endp }

/-- The wait for the packet after a SETUP token. -/
theorem wayOut_iff_setup :
    let s := reached onePort default silentCycle [tokenCycle usbpidSetup 0]
    WayOut onePort s false ↔ (s.state = .recv → TaOn s) :=
  (wayOut_iff onePort default silentCycle [tokenCycle usbpidSetup 0]
    ⟨⟨by decide, by decide, by decide, by decide⟩, trivial⟩ (by decide)).2

/-- After an OUT token for a full end-point, and after a SETUP token, no timer ends the wait for a
packet that does not come. -/
theorem waits_forever :
    let full := reached onePort default silentCycle [configCycle, tokenCycle usbpidOut 1]
    let setup := reached onePort default silentCycle [tokenCycle usbpidSetup 0]
    (full.state = .drop ∧ ¬ TimerOn full ∧ ¬ Transmits onePort full false ∧
        ¬ WayOut onePort full false) ∧
      setup.state = .recv ∧ ¬ WayOut onePort setup false := by
  intro full setup
  have hfull : Refusing full := ⟨by decide, by unfold TimerOn; decide⟩
  have hsetup : Stuck setup := ⟨by decide, by decide, by unfold TaOn; decide⟩
  refine ⟨⟨hfull.state, hfull.quiet, ?_, hfull.not_wayOut false⟩, hsetup.state,
    hsetup.not_wayOut false⟩
  rintro ⟨htx, -⟩
  cases htx

end MiscVerilogCores.Protocol
