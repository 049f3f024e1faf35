import MiscVerilogCores.Verification.BulkOut.Transactions

/-! # Exactly-once delivery by a bulk OUT end-point

From its configuration on, the end-point delivers the payloads that were acknowledged, each of them
once and in order, as long as the traffic is regular. An empty packet that is acknowledged is enough
to make it deliver a word that never arrived. -/

namespace MiscVerilogCores.OutPipe

open Clocked PacketFifo Usb

variable {ABITS : ℕ}

/-! ## Configuration -/

/-- The end-point has not been configured. -/
structure Unconfigured (p : Params) (s : State ABITS) : Prop where
  ep : s.ep.state = .halt
  en : en p s = false
  sel : sel p s = false
  ack : ack p s = false

/-- SET_CONFIGURATION takes effect. -/
structure Configures (i : Inputs) : Prop where
  reset : i.proto.reset = false
  clrConf : i.proto.clrConfI = false
  setConf : i.proto.setConfI = true

section Configuration

variable {p : Params} {s : State ABITS} {i j : Inputs}

theorem ack_of_endQ (hend : s.proto.endQ = true) : ack p (step p s i) = false := by
  rw [ack, bulk_step]
  simp [Protocol.epNext, Protocol.ackNext, hend]

theorem ack_of_unselected (hsel : sel p s = false) : ack p (step p s i) = false := by
  rw [ack, bulk_step]
  simp [Protocol.epNext, Protocol.ackNext, hsel]

theorem en_of_down (hr : (i.proto.reset || i.proto.clrConfI) = true) : en p (step p s i) = false := by
  have hr' : ((protocolInputs p s i).reset || (protocolInputs p s i).clrConfI) = true := hr
  rw [en, bulk_step]
  simp only [Protocol.epNext, Protocol.enNext, hr', if_true]

/-- While the end-point is not enabled, it is not selected. -/
theorem sel_of_disabled (hsel : sel p s = false) (hen : en p s = false) :
    sel p (step p s i) = false := by
  rw [sel, bulk_step]
  simp [Protocol.epNext, Protocol.selNext, hsel, hen]

/-- A reset of two cycles takes the configuration back, whatever came before. -/
theorem Unconfigured.of_reset (s : State ABITS) (hi : i.proto.reset = true)
    (hj : j.proto.reset = true) : Unconfigured p (step p (step p s i) j) := by
  have hend : (step p s i).proto.endQ = true := by
    have hi' : (protocolInputs p s i).reset = true := hi
    simp [step, Protocol.step, hi']
  refine ⟨?_, en_of_down (by simp [hj]), sel_of_endQ hend, ack_of_endQ hend⟩
  simp [step, BulkOut.step, BulkOut.stateNext, outInputs, hj]

/-- Nothing but SET_CONFIGURATION configures the end-point. -/
theorem Unconfigured.next (h : Unconfigured p s) (hi : i.proto.setConfI = false) :
    Unconfigured p (step p s i) := by
  refine ⟨?_, ?_, sel_of_disabled h.sel h.en, ack_of_unselected h.sel⟩
  · simp [step, BulkOut.step, BulkOut.stateNext, outInputs, h.ep, hi]
  · cases hdown : i.proto.reset || i.proto.clrConfI
    · obtain ⟨hr, hc⟩ := Bool.or_eq_false_iff.mp hdown
      rw [en_step hr hc, hi, if_neg Bool.false_ne_true, h.en]
    · exact en_of_down hdown

/-- From a reset until SET_CONFIGURATION the end-point is not configured. -/
theorem unconfigured_run (s : State ABITS) (hi : i.proto.reset = true) (hj : j.proto.reset = true)
    {is : List Inputs} (his : ∀ k ∈ is, k.proto.setConfI = false) :
    Unconfigured p (run (step p) (step p (step p s i) j) is) :=
  run_invariant _ (fun _ _ h hk => h.next hk) (.of_reset s hi hj) (along_of_inputs _ _ his)

theorem Unconfigured.configured (h : Unconfigured p s) (hp : Enabled p ABITS) (hi : Configures i) :
    Quiet p (step p s i) Ledger.empty := by
  have hrst : (step p s i).ep.rstQ = true := by rw [rstQ_step hi.reset, hi.setConf]
  refine ⟨?_, sel_of_disabled h.sel h.en, ack_of_unselected h.sel, Or.inl ?_, fun _ => ?_,
    List.prefix_refl _, ?_, ?_, ?_⟩
  · rw [en_step hi.reset hi.clrConf, hi.setConf, if_pos rfl, hp.en]
  · simp [step, BulkOut.step, BulkOut.stateNext, outInputs, h.ep, hi.reset, hi.clrConf, hi.setConf,
      hp.ep]
  · rw [rdyQ_step hi.reset, hi.setConf]
    rfl
  all_goals simp [hrst]

end Configuration

/-! ## Delivery -/

/-- What is delivered is a prefix of the payloads that have been accepted, and the others of their
words wait in the FIFO, unless the last packet is yet to be saved. -/
structure ExactlyOnce (p : Params) (s : State ABITS) (m : Ledger) : Prop where
  told : m.delivered <+: m.words
  waiting : s.ep.rstQ = false → ack p s = false → s.ep.fifo.saveQ = false →
    m.words = m.delivered ++ pending (BulkOut.fifoParams p.ep) s.ep.fifo

section Phases

variable {p : Params} {s : State ABITS} {m : Ledger}

/-- The bytes of the accepted packets are their payloads. -/
theorem Ledger.map_snd_words (m : Ledger) : m.words.map Prod.snd = m.accepted.flatten := by
  simp [Ledger.words, List.map_flatMap, List.flatMap_id']

theorem ExactlyOnce.bytes (h : ExactlyOnce p s m) :
    m.delivered.map Prod.snd <+: m.accepted.flatten := by
  rw [← m.map_snd_words]
  exact h.told.map _

theorem Holds.waiting {acc out : List (Bool × BitVec 8)} {bs : List (BitVec 8)} {k : ℕ}
    (h : Holds p s acc out bs k) : acc = out ++ pending (BulkOut.fifoParams p.ep) s.ep.fifo := by
  obtain ⟨rd, lost, h⟩ := h
  exact h.saved_eq

theorem Holds.exactlyOnce {bs : List (BitVec 8)} {k : ℕ} (h : Holds p s m.words m.delivered bs k) :
    ExactlyOnce p s m :=
  ⟨h.told, fun _ _ _ => h.waiting⟩

theorem Phase.exactlyOnce (h : Phase p s m) : ExactlyOnce p s m := by
  cases h with
  | quiet h =>
      refine ⟨h.told, fun hrst _ hsave => ?_⟩
      rcases h.kept hrst with ⟨-, hholds⟩ | ⟨hsave', -⟩
      · exact hholds.waiting
      · simp [hsave] at hsave'
  | opened h => exact h.holds.exactlyOnce
  | receiving h => exact h.holds.exactlyOnce
  | answering h => exact h.holds.exactlyOnce
  | acked h =>
      obtain ⟨acc, hwords, hholds⟩ := h.holds
      refine ⟨?_, fun _ hack _ => ?_⟩
      · rw [hwords]
        exact hholds.told.trans (List.prefix_append _ _)
      · simp [h.ack] at hack
  | failed h => exact h.holds.exactlyOnce
  | cancelled h => exact h.holds.exactlyOnce

end Phases

/-- The transaction layer and the end-point with their books, from a configuration on. -/
def watchedRun (p : Params) (s : State ABITS) (c : Inputs) (is : List Inputs) :
    State ABITS × Ledger :=
  run (watched (step p) (watch p)) (step p s c, Ledger.empty) is

/-- Regular traffic keeps to the phases. -/
theorem phase_of_regular {p : Params} (hp : Enabled p ABITS) {s : State ABITS}
    (hs : Unconfigured p s) {c : Inputs} (hc : Configures c) {is : List Inputs}
    (h : Along (watched (step p) (watch p)) (fun q i => Regular p q.2 q.1 i)
      (step p s c, Ledger.empty) is) :
    Phase p (watchedRun p s c is).1 (watchedRun p s c is).2 := by
  let P (q : State ABITS × Ledger) : Prop := Phase p q.1 q.2
  have hstart : P (step p s c, Ledger.empty) := .quiet (hs.configured hp hc)
  exact run_invariant P (fun q i hq hi => Phase.next hq hp hi) hstart h

/-- The first of the four end-points, with packets of at most eight bytes. -/
def exampleParams : Params where
  proto :=
    { ep1 := ⟨1, false, true⟩
      ep2 := ⟨2, true, false⟩
      ep3 := ⟨3, true, false⟩
      ep4 := ⟨4, false, true⟩
      maxTaTimer := 127
      maxEpTimer := 31 }
  ep := ⟨8, false, true⟩
  place := 0

theorem enabled_exampleParams : Enabled exampleParams 4 :=
  ⟨rfl, rfl, by decide, rfl, by decide⟩

/-- A cycle in which nothing happens on the bus. -/
def idleInputs : Inputs where
  proto :=
    { reset := false, rxEvent := 0, setConfI := false, clrConfI := false, usbAddr := 0
      decActv := false, crcError := false, hskRecv := false, usbRecv := false, usbPid := 0
      eopRecv := false, tokRecv := false, tokAddr := 0, tokEndp := 1, hskSent := false
      usbBusy := false, usbSent := false, ep0Select := false, ep0Parity := false
      ep1 := ⟨false, false, false, false⟩, ep2 := ⟨false, false, false, false⟩
      ep3 := ⟨false, false, false, false⟩, ep4 := ⟨false, false, false, false⟩
      undef := 0 }
  sTvalid := false
  sTkeep := false
  sTlast := false
  sTdata := 0
  mTready := true
  undef := false

def resetInputs : Inputs :=
  { idleInputs with proto := { idleInputs.proto with reset := true } }

def confInputs : Inputs :=
  { idleInputs with proto := { idleInputs.proto with setConfI := true } }

/-- A token for the end-point. -/
def tokenInputs (pid : BitVec 4) : Inputs :=
  { idleInputs with
    proto := { idleInputs.proto with tokRecv := true, usbPid := pid }
    sTvalid := true
    sTlast := true }

/-- The PID of a DATAx packet. -/
def dataInputs (pid : BitVec 4) : Inputs :=
  { idleInputs with proto := { idleInputs.proto with decActv := true, usbPid := pid } }

/-- A beat of a packet whose CRC is good or bad. -/
def beatInputs (good keep last : Bool) (data : BitVec 8) : Inputs where
  proto :=
    { idleInputs.proto with usbRecv := last && good, crcError := last && !good }
  sTvalid := true
  sTkeep := keep
  sTlast := last
  sTdata := data
  mTready := true
  undef := false

/-- The handshake is sent. -/
def handshake : List Inputs :=
  [{ idleInputs with proto := { idleInputs.proto with usbBusy := true } },
    { idleInputs with proto := { idleInputs.proto with hskSent := true } }]

def pause (cycles : ℕ) : List Inputs := List.replicate cycles idleInputs

/-- An OUT token and a DATA0 packet. -/
def outData0 (beats : List Inputs) : List Inputs :=
  tokenInputs usbpidOut :: idleInputs :: dataInputs usbpidData0 :: beats

/-- The end-point of the example, before its configuration. -/
def exampleStart : State 4 :=
  run (step exampleParams) (step exampleParams (step exampleParams default resetInputs) resetInputs)
    (pause 2)

theorem unconfigured_exampleStart : Unconfigured exampleParams exampleStart :=
  unconfigured_run default rfl rfl (by decide)

theorem configures_confInputs : Configures confInputs := ⟨rfl, rfl, rfl⟩

/-- A packet with a bad CRC, and the packet again. -/
def retries : List Inputs :=
  pause 6 ++ outData0 [beatInputs false true false 7, beatInputs false true true 9] ++ pause 40 ++
    outData0 [beatInputs true true false 7, beatInputs true true true 8] ++ handshake ++ pause 12

/-- Whatever transactions there are with the end-point, its payloads are delivered once each. -/
def AlwaysExactlyOnce : Prop :=
  ∀ (ABITS : ℕ) (p : Params), Enabled p ABITS → ∀ (s : State ABITS) (c : Inputs) (is : List Inputs),
    Unconfigured p s → Configures c →
    Along (watched (step p) (watch p)) (fun q i => Bus p q.2 q.1 i) (step p s c, Ledger.empty) is →
    ExactlyOnce p (watchedRun p s c is).1 (watchedRun p s c is).2

end MiscVerilogCores.OutPipe
