import MiscVerilogCores.Verification.Protocol.Timeouts

/-! # Completion strobes

`ep<N>_finish_o` is made from handshakes and a select register, without a look at the state
machine. A monitor keeps what the transaction of the last token has come to, and says which strobes
it justifies. -/

namespace MiscVerilogCores.Protocol

open Clocked Usb

theorem bulk_step (p : Params) (s : State) (i : Inputs) (n : Fin 4) :
    (step p s i).bulk n = epNext p s i n.succ (p.bulk n) (s.bulk n) := by
  match n with
  | 0 | 1 | 2 | 3 => rfl

/-! ## Transactions -/

/-- What the transaction of the last token has come to. -/
structure Txn where
  pid : BitVec 4
  ep : Option (Fin 5)
  received : Bool
  sent : Bool
  failed : Bool
  finished : Bool

/-- The transaction that a token starts. -/
def Txn.start (p : Params) (i : Inputs) : Txn := ⟨i.usbPid, tokenSel p i, false, false, false, false⟩

/-- A completion strobe is raised: it is seen after the edge. -/
def raised (p : Params) (s : State) (i : Inputs) (n : Fin 4) : Bool := ((step p s i).bulk n).ackQ

/-- Tokens start transactions; then it is recorded whether a packet is accepted, or sent, whether
something fails, and whether a strobe is raised. -/
def watch (p : Params) (t : Txn) (s : State) (i : Inputs) : Txn :=
  if tokenW i then .start p i
  else
    { t with
      received := t.received || (s.state == .recv && i.usbRecv && s.parQ)
      sent := t.sent || (s.state == .send && i.usbSent)
      failed := t.failed || s.timeoutQ || (s.state == .recv && i.crcError)
      finished := t.finished || raised p s i 0 || raised p s i 1 || raised p s i 2 || raised p s i 3 }

/-- The strobe of an end-point is the first of a transaction with this end-point, that has not
failed and that completes now: its packet has been accepted and is acknowledged, or it has been sent
and the host's handshake comes while it is waited for. -/
structure Justified (s : State) (i : Inputs) (t : Txn) (n : Fin 4) : Prop where
  ep : t.ep = some n.succ
  first : t.finished = false
  sound : t.failed = false ∧ s.timeoutQ = false
  cause :
    ((t.pid = usbpidOut ∨ t.pid = usbpidSetup) ∧ t.received = true ∧ s.state = .resp ∧
        (s.pidQ = usbpidAck ∨ s.pidQ = usbpidNyet) ∧ i.hskSent = true) ∨
      (t.pid = usbpidIn ∧ t.sent = true ∧ s.state = .wait ∧ i.hskRecv = true)

/-! ## What is asked of an edge -/

/-- The end-point stays selected in this cycle. -/
def Live (s : State) (n : Fin 4) : Prop := s.endQ = false ∧ (s.bulk n).selQ = true

/-- The token selects the end-point. -/
structure Picks (p : Params) (s : State) (i : Inputs) (n : Fin 4) : Prop where
  token : tokenW i = true
  free : s.endQ = false
  endp : tokenSel p i = some n.succ
  en : (s.bulk n).en = true

/-- In the idle state: a token that the end-point can serve. -/
structure Servable (p : Params) (s : State) (i : Inputs) (e : BulkEp) : Prop where
  out : i.usbPid = usbpidOut → (i.ep0Select || s.outRdyQ) = true
  input : i.usbPid = usbpidIn → e.useOut = true → (i.ep0Select || inRdyW p s i) = true
  ping : i.usbPid = usbpidPing → e.useOut = false
  setup : i.usbPid = usbpidSetup → e.useIn = false

/-- In the other states, a token must not select an end-point that takes the handshake that the
state waits for; while a packet is awaited, the token may be sent again. -/
def Fits (p : Params) (s : State) (i : Inputs) (e : BulkEp) : Prop :=
  match s.state with
  | .idle => Servable p s i e
  | .recv => i.usbPid = usbpidOut ∨ i.usbPid = usbpidSetup ∨ e.useOut = false
  | .resp | .drop => e.useOut = false
  | .send | .wait => e.useIn = false

/-- Tokens fit, handshakes come where they are waited for, and packets end one at a time. -/
structure Orderly (p : Params) (s : State) (i : Inputs) : Prop where
  token : ∀ n, Picks p s i n → Fits p s i (p.bulk n)
  hskSent : ∀ n, Live s n → (p.bulk n).useOut = true → i.hskSent = true →
    s.state = .resp ∧ s.timeoutQ = false
  hskRecv : ∀ n, Live s n → (p.bulk n).useIn = true → i.hskRecv = true →
    s.state = .wait ∧ s.timeoutQ = false
  apart : s.state = .recv → i.usbRecv = true → tokenW i = false ∧ i.crcError = false

/-! ## Selected end-points -/

/-- What the transaction has come to, by the state; only the end-points that take the handshake
of the state matter. -/
def Phase (e : BulkEp) (s : State) (t : Txn) : Prop :=
  match s.state with
  | .idle => True
  | .recv => e.useOut = false ∨ (t.pid = usbpidOut ∨ t.pid = usbpidSetup) ∧ t.failed = false
  | .resp => e.useOut = false ∨ (t.pid = usbpidOut ∨ t.pid = usbpidSetup) ∧ t.failed = false ∧
      t.received = true ∧ (s.pidQ = usbpidAck ∨ s.pidQ = usbpidNyet)
  | .drop => e.useOut = false
  | .send => e.useIn = false ∨ t.pid = usbpidIn ∧ t.failed = false
  | .wait => e.useIn = false ∨ t.pid = usbpidIn ∧ t.failed = false ∧ t.sent = true

/-- An end-point that stays selected is the one of the transaction. -/
structure Serving (p : Params) (s : State) (t : Txn) (n : Fin 4) : Prop where
  ep : t.ep = some n.succ
  first : t.finished = false
  phase : Phase (p.bulk n) s t

section Decidable

variable (p : Params) (s : State) (i : Inputs) (n : Fin 4) (e : BulkEp)

instance : Decidable (Live s n) := inferInstanceAs (Decidable (_ ∧ _))

instance : Decidable (Picks p s i n) :=
  decidable_of_iff (tokenW i = true ∧ s.endQ = false ∧ tokenSel p i = some n.succ ∧
    (s.bulk n).en = true)
    ⟨fun ⟨htok, hfree, hendp, hen⟩ => ⟨htok, hfree, hendp, hen⟩,
      fun h => ⟨h.token, h.free, h.endp, h.en⟩⟩

instance : Decidable (Servable p s i e) :=
  decidable_of_iff ((i.usbPid = usbpidOut → (i.ep0Select || s.outRdyQ) = true) ∧
    (i.usbPid = usbpidIn → e.useOut = true → (i.ep0Select || inRdyW p s i) = true) ∧
    (i.usbPid = usbpidPing → e.useOut = false) ∧ (i.usbPid = usbpidSetup → e.useIn = false))
    ⟨fun ⟨hout, hin, hping, hsetup⟩ => ⟨hout, hin, hping, hsetup⟩,
      fun h => ⟨h.out, h.input, h.ping, h.setup⟩⟩

instance : Decidable (Fits p s i e) :=
  match hs : s.state with
  | .idle => decidable_of_iff (Servable p s i e) (by simp [Fits, hs])
  | .recv =>
      decidable_of_iff (i.usbPid = usbpidOut ∨ i.usbPid = usbpidSetup ∨ e.useOut = false)
        (by simp [Fits, hs])
  | .resp | .drop => decidable_of_iff (e.useOut = false) (by simp [Fits, hs])
  | .send | .wait => decidable_of_iff (e.useIn = false) (by simp [Fits, hs])

instance : Decidable (Orderly p s i) :=
  decidable_of_iff ((∀ n, Picks p s i n → Fits p s i (p.bulk n)) ∧
    (∀ n, Live s n → (p.bulk n).useOut = true → i.hskSent = true →
      s.state = .resp ∧ s.timeoutQ = false) ∧
    (∀ n, Live s n → (p.bulk n).useIn = true → i.hskRecv = true →
      s.state = .wait ∧ s.timeoutQ = false) ∧
    (s.state = .recv → i.usbRecv = true → tokenW i = false ∧ i.crcError = false))
    ⟨fun ⟨htoken, hsent, hrecv, hapart⟩ => ⟨htoken, hsent, hrecv, hapart⟩,
      fun h => ⟨h.token, h.hskSent, h.hskRecv, h.apart⟩⟩

end Decidable

section Steps

variable {p : Params} {s : State} {i : Inputs} {t : Txn} {n : Fin 4}

theorem pidQ_step (hr : i.reset = false) : (step p s i).pidQ = (moveNext p s i).pidQ := by
  simp [step, hr]

/-- The strobe follows a handshake that an end-point takes. -/
theorem raised_iff :
    raised p s i n = true ↔ Live s n ∧
      ((p.bulk n).useOut = true ∧ i.hskSent = true ∨ (p.bulk n).useIn = true ∧ i.hskRecv = true) := by
  simp [raised, bulk_step, epNext, ackNext, Live, and_assoc]

/-- Nothing ends the transaction at the edge. -/
structure Ongoing (s : State) (i : Inputs) : Prop where
  reset : i.reset = false
  hskSent : i.hskSent = false
  hskRecv : i.hskRecv = false
  timeout : s.timeoutQ = false

theorem Ongoing.of_endQ (h : (step p s i).endQ = false) : Ongoing s i := by
  have hend : i.reset = false ∧ i.clrConfI = false ∧ i.hskRecv = false ∧ i.hskSent = false ∧
      s.timeoutQ = false ∧ s.crcErrQ = false := by
    simpa [step, and_assoc] using h
  exact ⟨hend.1, hend.2.2.2.1, hend.2.2.1, hend.2.2.2.2.1⟩

/-- An end-point is selected by a token, or has been selected before. -/
theorem Live.cases (h : Live (step p s i) n) :
    Ongoing s i ∧ (Picks p s i n ∨ tokenW i = false ∧ Live s n) := by
  obtain ⟨hend, hsel⟩ := h
  refine ⟨.of_endQ hend, ?_⟩
  cases hfree : s.endQ
  · cases htok : tokenW i
    · exact Or.inr ⟨rfl, hfree, by simpa [bulk_step, epNext, selNext, hfree, htok] using hsel⟩
    · obtain ⟨hendp, hen⟩ : tokenSel p i = some n.succ ∧ (s.bulk n).en = true := by
        simpa [bulk_step, epNext, selNext, hfree, htok] using hsel
      exact Or.inl ⟨htok, hfree, hendp, hen⟩
  · simp [bulk_step, epNext, selNext, hfree] at hsel

theorem Ongoing.raised (h : Ongoing s i) (n : Fin 4) : raised p s i n = false := by
  rw [Bool.eq_false_iff]
  intro hraised
  rcases (raised_iff.mp hraised).2 with ⟨-, hhsk⟩ | ⟨-, hhsk⟩
  · simp [h.hskSent] at hhsk
  · simp [h.hskRecv] at hhsk

/-- A token that selects a bulk end-point has its number, which is not zero. -/
theorem Picks.tokEndp (h : Picks p s i n) : i.tokEndp ≠ 0 ∧ i.tokEndp = (p.bulk n).number := by
  have hsel := h.endp
  rw [tokenSel] at hsel
  match n with
  | 0 | 1 | 2 | 3 =>
      split_ifs at hsel with h0 h1 h2 h3 h4
      all_goals first
        | exact ⟨h0, by assumption⟩
        | exact absurd (Option.some.inj hsel) (by decide)

/-- IN tokens find the enabled end-point that they select. -/
theorem Picks.inSelW (h : Picks p s i n) (huse : (p.bulk n).useIn = true) : inSelW p s i = true := by
  obtain ⟨hzero, hnum⟩ := h.tokEndp
  have hen := h.en
  rw [Protocol.inSelW]
  match n with
  | 0 =>
      have hsel : ep1InSelW p i = true := by
        have hne : p.ep1.number ≠ 0 := fun he => hzero (hnum.trans he)
        have huse : p.ep1.useIn = true := huse
        simpa [ep1InSelW, hnum, huse, Params.bulk] using hne
      simp [hsel]
  | 1 =>
      have hsel : inSelOf i p.ep2 s.ep2 = true := by
        simpa [inSelOf, Params.bulk, State.bulk] using ⟨⟨hen, huse⟩, hnum⟩
      simp [hsel]
  | 2 =>
      have hsel : inSelOf i p.ep3 s.ep3 = true := by
        simpa [inSelOf, Params.bulk, State.bulk] using ⟨⟨hen, huse⟩, hnum⟩
      simp [hsel]
  | 3 =>
      have hsel : inSelOf i p.ep4 s.ep4 = true := by
        simpa [inSelOf, Params.bulk, State.bulk] using ⟨⟨hen, huse⟩, hnum⟩
      simp [hsel]

/-- What the token of a transaction leads to in `ST_IDLE`. -/
theorem Servable.phase {m : Move} (h : Servable p s i (p.bulk n)) (hpick : Picks p s i n)
    (hm : Dispatched p s i m) (hstate : (step p s i).state = m.state) :
    Phase (p.bulk n) (step p s i) (.start p i) := by
  rw [Phase, hstate]
  cases hm with
  | setup hpid => exact Or.inr ⟨Or.inr hpid, rfl⟩
  | setupElse hpid => exact Or.inl (h.setup hpid)
  | out hpid => exact Or.inr ⟨Or.inl hpid, rfl⟩
  | drop hpid hrdy | outElse hpid hrdy => simp [h.out hpid] at hrdy
  | send hpid => exact Or.inr ⟨hpid, rfl⟩
  | nak hpid hrdy =>
      refine Or.inl (Bool.eq_false_iff.mpr fun huse => ?_)
      simp [h.input hpid huse] at hrdy
  | inElse hpid hrdy hsel =>
      refine Or.inl (Bool.eq_false_iff.mpr fun huse => ?_)
      simp [hpick.inSelW huse] at hsel
  | ping pid hpid => exact Or.inl (h.ping hpid)
  | other => trivial

/-- A token that fits starts a transaction that the state machine serves. -/
theorem Picks.serving (h : Picks p s i n) (hon : Ongoing s i) (hi : Orderly p s i) :
    Serving p (step p s i) (watch p t s i) n := by
  have hwatch : watch p t s i = .start p i := by rw [watch, if_pos h.token]
  rw [hwatch]
  refine ⟨h.endp, rfl, ?_⟩
  have hfit := hi.token n h
  have hcon := h.token
  have hstate := state_step (p := p) (s := s) hon.reset
  have hrule := moveNext_rule p s i
  generalize moveNext p s i = m at hstate hrule
  cases hrule with
  | rest hs htok => simp [htok] at hcon
  | token hs htok hm =>
      have hserve : Servable p s i (p.bulk n) := by simpa [Fits, hs] using hfit
      exact hserve.phase h hm hstate
  | accept pid hs husb => simp [(hi.apart hs husb).1] at hcon
  | await pid hs =>
      rw [Phase, hstate]
      have hpid : i.usbPid = usbpidOut ∨ i.usbPid = usbpidSetup ∨ (p.bulk n).useOut = false := by
        simpa [Fits, hs] using hfit
      rcases hpid with hpid | hpid | huse
      · exact Or.inr ⟨Or.inl hpid, rfl⟩
      · exact Or.inr ⟨Or.inr hpid, rfl⟩
      · exact Or.inl huse
  | answer hs | refuse hs =>
      rw [Phase, hstate]
      exact Or.inl (by simpa [Fits, hs] using hfit)
  | sent pid hs | supply pid hs | wait hs =>
      rw [Phase, hstate]
      exact Or.inl (by simpa [Fits, hs] using hfit)
  | drop hs =>
      rw [Phase, hstate]
      simpa [Fits, hs] using hfit
  | ignore | abort | giveUp | answered | finish | lapse =>
      rw [Phase, hstate]
      trivial

/-- The transaction goes on. -/
theorem Serving.next (h : Serving p s t n) (hon : Ongoing s i) (htok : tokenW i = false)
    (hi : Orderly p s i) : Serving p (step p s i) (watch p t s i) n := by
  have hto := hon.timeout
  have hep : (watch p t s i).ep = t.ep := by simp [watch, htok]
  have hpid : (watch p t s i).pid = t.pid := by simp [watch, htok]
  have hfirst : (watch p t s i).finished = t.finished := by simp [watch, htok, hon.raised]
  have hphase := h.phase
  refine ⟨hep.trans h.ep, hfirst.trans h.first, ?_⟩
  have hstate := state_step (p := p) (s := s) hon.reset
  have hpidQ := pidQ_step (p := p) (s := s) hon.reset
  have hrule := moveNext_rule p s i
  generalize moveNext p s i = m at hstate hpidQ hrule
  rw [Phase] at hphase
  rw [Phase, hstate, hpid, hpidQ]
  cases hrule with
  | token hs htok' => simp [htok] at htok'
  | accept pid hs husb hpar hack =>
      have hcrc := (hi.apart hs husb).2
      rw [hs] at hphase
      refine hphase.imp_right fun ⟨hkind, hfail⟩ => ⟨hkind, ?_, ?_, hack⟩
      · simp [watch, htok, hfail, hto, hcrc]
      · simp [watch, htok, hs, husb, hpar]
  | await pid hs husb herr =>
      have hcrc : i.crcError = false := by simpa [hto] using herr
      rw [hs] at hphase
      exact hphase.imp_right fun ⟨hkind, hfail⟩ => ⟨hkind, by simp [watch, htok, hfail, hto, hcrc]⟩
  | sent pid hs hsent =>
      rw [hs] at hphase
      refine hphase.imp_right fun ⟨hkind, hfail⟩ => ⟨hkind, ?_, ?_⟩
      · simp [watch, htok, hfail, hto, hs]
      · simp [watch, htok, hs, hsent]
  | supply pid hs =>
      rw [hs] at hphase
      exact hphase.imp_right fun ⟨hkind, hfail⟩ => ⟨hkind, by simp [watch, htok, hfail, hto, hs]⟩
  | answer hs =>
      rw [hs] at hphase
      refine hphase.imp_right fun ⟨hkind, hfail, hrecv, hack⟩ => ⟨hkind, ?_, ?_, hack⟩
      · simp [watch, htok, hfail, hto, hs]
      · simp [watch, htok, hrecv]
  | wait hs =>
      rw [hs] at hphase
      refine hphase.imp_right fun ⟨hkind, hfail, hsent⟩ => ⟨hkind, ?_, ?_⟩
      · simp [watch, htok, hfail, hto, hs]
      · simp [watch, htok, hsent]
  | refuse hs =>
      rw [hs] at hphase
      exact Or.inl hphase
  | drop hs =>
      rw [hs] at hphase
      exact hphase
  | rest | ignore | abort | giveUp | answered | finish | lapse => trivial

/-- Every strobe at an orderly edge is justified. -/
theorem Serving.justified (h : Live s n → Serving p s t n) (hi : Orderly p s i)
    (hraised : raised p s i n = true) : Justified s i t n := by
  obtain ⟨hlive, hcause⟩ := raised_iff.mp hraised
  have hserv := h hlive
  have hphase := hserv.phase
  rw [Phase] at hphase
  rcases hcause with ⟨huse, hhsk⟩ | ⟨huse, hhsk⟩
  · obtain ⟨hs, hto⟩ := hi.hskSent n hlive huse hhsk
    rw [hs] at hphase
    obtain ⟨hkind, hfail, hrecv, hack⟩ := hphase.resolve_left (by simp [huse])
    exact ⟨hserv.ep, hserv.first, ⟨hfail, hto⟩, Or.inl ⟨hkind, hrecv, hs, hack, hhsk⟩⟩
  · obtain ⟨hs, hto⟩ := hi.hskRecv n hlive huse hhsk
    rw [hs] at hphase
    obtain ⟨hkind, hfail, hsent⟩ := hphase.resolve_left (by simp [huse])
    exact ⟨hserv.ep, hserv.first, ⟨hfail, hto⟩, Or.inr ⟨hkind, hsent, hs, hhsk⟩⟩

end Steps

/-- While tokens fit and handshakes come where they are waited for, every completion strobe is the
first of a transaction that completes. -/
theorem strobes_justified (p : Params) (s₀ : State) (i₀ : Inputs) (t₀ : Txn) (is : List Inputs)
    (h : Along (step p) (Orderly p) (step p s₀ { i₀ with reset := true }) is) :
    Along (watched (step p) (watch p))
      (fun q i => ∀ n, raised p q.1 i n = true → Justified q.1 i q.2 n)
      (step p s₀ { i₀ with reset := true }, t₀) is := by
  let Inv (q : State × Txn) : Prop := ∀ n, Live q.1 n → Serving p q.1 q.2 n
  have hstart : Inv (step p s₀ { i₀ with reset := true }, t₀) := by
    rintro n ⟨hend, -⟩
    simp [step] at hend
  refine (h.watched (watch p)).strengthen Inv (fun q i hq hi => ⟨fun n hlive => ?_, fun n => ?_⟩) hstart
  · obtain ⟨hon, hpick | ⟨htok, hlive⟩⟩ := hlive.cases
    · exact hpick.serving hon hi
    · exact (hq n hlive).next hon htok hi
  · exact Serving.justified (hq n) hi

/-! ## A strobe with a packet, and two without -/

/-- The transaction layer and its monitor, after reset. -/
def monitored (is : List Inputs) : State × Txn :=
  run (watched (step onePort) (watch onePort))
    (step onePort default { silentCycle with reset := true }, .start onePort silentCycle) is

/-- The end-point has room. -/
def withRoom (i : Inputs) : Inputs := { i with ep1 := ⟨true, false, false, false⟩ }

/-- The device has sent its handshake. -/
def sentCycle : Inputs := { silentCycle with hskSent := true }

/-- A packet that is accepted. -/
def acceptCycles : List Inputs :=
  [configCycle, withRoom { silentCycle with tokEndp := 1 }, withRoom (tokenCycle usbpidOut 1),
    withRoom { silentCycle with tokEndp := 1, decActv := true, usbPid := usbpidData0 },
    { silentCycle with usbRecv := true }]

/-- The strobe after an accepted packet. -/
theorem strobes_justified_accept :
    raised onePort (monitored acceptCycles).1 sentCycle 0 = true ∧
      Along (watched (step onePort) (watch onePort))
        (fun q i => ∀ n, raised onePort q.1 i n = true → Justified q.1 i q.2 n)
        (step onePort default { silentCycle with reset := true }, .start onePort silentCycle)
        (acceptCycles ++ [sentCycle]) :=
  ⟨by decide, strobes_justified onePort default silentCycle _ (acceptCycles ++ [sentCycle]) (by decide)⟩

/-- A PING for the end-point, which has room. -/
def pingCycles : List Inputs :=
  [configCycle, withRoom { silentCycle with tokEndp := 1 }, withRoom (tokenCycle usbpidPing 1)]

/-- An OUT token for the end-point, which is full, and the end of the packet that is refused. -/
def refuseCycles : List Inputs :=
  [configCycle, tokenCycle usbpidOut 1, { silentCycle with eopRecv := true }]

/-- The handshakes for a PING and for a refused packet raise the strobe. -/
theorem strobes_unjustified :
    ((monitored pingCycles).2.pid = usbpidPing ∧
        raised onePort (monitored pingCycles).1 sentCycle 0 = true ∧
        ¬ Justified (monitored pingCycles).1 sentCycle (monitored pingCycles).2 0) ∧
      (monitored refuseCycles).1.pidQ = usbpidNak ∧
      raised onePort (monitored refuseCycles).1 sentCycle 0 = true ∧
      ¬ Justified (monitored refuseCycles).1 sentCycle (monitored refuseCycles).2 0 := by
  refine ⟨⟨by decide, by decide, fun h => ?_⟩, by decide, by decide, fun h => ?_⟩
  · rcases h.cause with ⟨-, hrecv, -⟩ | ⟨hpid, -⟩
    · exact absurd hrecv (by decide)
    · exact absurd hpid (by decide)
  · rcases h.cause with ⟨-, hrecv, -⟩ | ⟨hpid, -⟩
    · exact absurd hrecv (by decide)
    · exact absurd hpid (by decide)

end MiscVerilogCores.Protocol
