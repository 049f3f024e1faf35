import MiscVerilogCores.Verification.Control.CorruptedSetup

/-! # Configured devices

One strobe of the control pipe enables the bulk end-points, whichever request has raised it. A
record of the requests says when it may. -/

namespace MiscVerilogCores.UsbUlpiTop

open Clocked Usb

variable {ABITS : ℕ} {p : Params}

/-! ## Records -/

/-- The requests that raise the event: SET_ADDRESS, SET_CONFIGURATION, with or without a
configuration value, and SET_INTERFACE. -/
inductive Asked where
  | address
  | configuration (value : Bool)
  | interface
deriving DecidableEq

/-- Whether the device has been configured since the last reset or clear-configuration, and whether
the status stage of the request has been acknowledged. -/
inductive Configured where
  | never | started | completed
deriving DecidableEq

/-- The request behind the event, the code of the request behind the error, and whether the device
is configured. -/
structure Ledger where
  asked : Asked
  refused : BitVec 8
  conf : Configured
deriving DecidableEq

def askedBy (d : CtlPipe0.Decoded) (value : BitVec 16) : Asked :=
  if d.setAddr then .address
  else if d.setConf then .configuration (decide (value.setWidth 8 ≠ 0#8))
  else .interface

/-- The status stage of a request is acknowledged. -/
def acknowledged (s : State ABITS p) (i : Inputs) : Bool :=
  Stdreq.endW s.stdreq (stdreqInputs s i) && (i.hskSent || s.dec.hskRecvQ)

/-- What an edge adds to the record. -/
def keep (b : Ledger) (s : State ABITS p) (i : Inputs) : Ledger where
  asked :=
    if s.stdreq.parser.reqCycle && s.ctl.setQs.any then askedBy s.ctl.setQs s.stdreq.parser.value
    else b.asked
  refused :=
    if s.stdreq.parser.reqCycle && s.ctl.startQ && s.ctl.stdReq then s.stdreq.parser.rargs
    else b.refused
  conf :=
    if i.reset || CtlPipe0.errorO s.ctl then .never
    else if CtlPipe0.eventO s.ctl && b.asked = .configuration true && b.conf = .never then .started
    else if b.conf = .started && acknowledged s i then .completed
    else b.conf

/-- The record after reset. -/
def Ledger.start : Ledger := ⟨.address, 0, .never⟩

/-! ## Requests that may change the end-points -/

/-- GET_STATUS, SET_ADDRESS, GET_DESCRIPTOR and SET_INTERFACE. -/
def others : List (BitVec 8) := [0x00, 0x05, 0x06, 0x0b]

/-- The event comes from SET_CONFIGURATION with a value, or from SET_INTERFACE in a configured
device; the error comes from none of the other requests. -/
structure Proper (b : Ledger) (s : State ABITS p) (i : Inputs) : Prop where
  event : i.reset = false → CtlPipe0.eventO s.ctl = true →
    b.asked = .configuration true ∨ b.asked = .interface ∧ b.conf ≠ .never
  error : CtlPipe0.errorO s.ctl = true → b.refused ∉ others

/-- A bulk end-point is enabled, or not stalled. -/
def Enabled (s : State ABITS p) : Prop :=
  s.proto.ep1.en = true ∨ s.proto.ep2.en = true ∨ s.proto.ep3.en = true ∨ s.proto.ep4.en = true ∨
    BulkOut.stalledO s.ep1 = false ∨ BulkIn.stalledO s.ep2 = false ∨ BulkIn.stalledO s.ep3 = false ∨
    BulkOut.stalledO s.ep4 = false

/-- A bulk OUT end-point is not taken out of its stall, its FIFO is not reset, and its sequence bit
only follows the packets. -/
structure OutKept (e e' : BulkOut.State ABITS) (q : Protocol.EpState) : Prop where
  stalled : BulkOut.stalledO e' = false → BulkOut.stalledO e = false
  flush : e'.rstQ = false
  parity : e'.parQ = if e.state == .save && q.ackQ then !e.parQ else e.parQ

/-- A bulk IN end-point likewise. -/
structure InKept {q : BulkIn.Params} (e e' : BulkIn.State ABITS q) (j : BulkIn.Inputs) : Prop where
  stalled : BulkIn.stalledO e' = false → BulkIn.stalledO e = false
  flush : e'.rstQ = false
  parity : e'.parQ = if BulkIn.nextW e j then !e.parQ else e.parQ

/-- No end-point is enabled, reset or flushed at the edge. -/
structure Kept (s : State ABITS p) (i : Inputs) : Prop where
  en1 : (step s i).proto.ep1.en = true → s.proto.ep1.en = true
  en2 : (step s i).proto.ep2.en = true → s.proto.ep2.en = true
  en3 : (step s i).proto.ep3.en = true → s.proto.ep3.en = true
  en4 : (step s i).proto.ep4.en = true → s.proto.ep4.en = true
  ep1 : OutKept s.ep1 (step s i).ep1 s.proto.ep1
  ep2 : InKept s.ep2 (step s i).ep2 (inInputs s i s.proto.ep2 i.ep2)
  ep3 : InKept s.ep3 (step s i).ep3 (inInputs s i s.proto.ep3 i.ep3)
  ep4 : OutKept s.ep4 (step s i).ep4 s.proto.ep4

/-- What may change an end-point: a reset, SET_CONFIGURATION with a value, SET_INTERFACE in a
configured device, and a clear-configuration that none of the other requests has caused. -/
def Permitted (b : Ledger) (s : State ABITS p) (i : Inputs) : Prop :=
  i.reset = true ∨
    (CtlPipe0.eventO s.ctl = true ∧
      (b.asked = .configuration true ∨ b.asked = .interface ∧ b.conf ≠ .never)) ∨
    (CtlPipe0.errorO s.ctl = true ∧ b.refused ∉ others)

/-! ## One edge -/

section Steps

variable {s : State ABITS p} {i : Inputs} {b : Ledger}

theorem en_step_cases {j : Protocol.Inputs} {e : Protocol.BulkEp} {q : Protocol.EpState}
    (h : Protocol.enNext j e q = true) :
    (j.reset = false ∧ j.clrConfI = false) ∧ (j.setConfI = true ∨ q.en = true) := by
  simp only [Protocol.enNext] at h
  grind

theorem out_stalled_cases {q : BulkOut.Params} {e : BulkOut.State ABITS} {j : BulkOut.Inputs}
    (h : BulkOut.stalledO (BulkOut.step q e j) = false) :
    (j.reset = false ∧ j.clrConfI = false) ∧
      (j.setConfI = true ∨ BulkOut.stalledO e = false) := by
  simp only [BulkOut.stalledO, BulkOut.step, BulkOut.stateNext] at h ⊢
  cases hs : e.state <;> grind

theorem in_stalled_cases {q : BulkIn.Params} {e : BulkIn.State ABITS q} {j : BulkIn.Inputs}
    (h : BulkIn.stalledO (BulkIn.step e j) = false) :
    (j.reset = false ∧ j.clrConfI = false) ∧ (j.setConfI = true ∨ BulkIn.stalledO e = false) := by
  simp only [BulkIn.stalledO, BulkIn.step] at h ⊢
  grind

/-- An end-point is enabled by the event, and stays so unless there is a reset or an error. -/
theorem Enabled.cases (h : Enabled (step s i)) :
    (i.reset = false ∧ CtlPipe0.errorO s.ctl = false) ∧
      (CtlPipe0.eventO s.ctl = true ∨ Enabled s) := by
  rw [Enabled] at h ⊢
  rcases h with h | h | h | h | h | h | h | h
  · exact (en_step_cases h).imp_right (.imp_right .inl)
  · exact (en_step_cases h).imp_right (.imp_right fun h => .inr (.inl h))
  · exact (en_step_cases h).imp_right (.imp_right fun h => .inr (.inr (.inl h)))
  · exact (en_step_cases h).imp_right (.imp_right fun h => .inr (.inr (.inr (.inl h))))
  · exact (out_stalled_cases h).imp_right
      (.imp_right fun h => .inr (.inr (.inr (.inr (.inl h)))))
  · exact (in_stalled_cases h).imp_right
      (.imp_right fun h => .inr (.inr (.inr (.inr (.inr (.inl h))))))
  · exact (in_stalled_cases h).imp_right
      (.imp_right fun h => .inr (.inr (.inr (.inr (.inr (.inr (.inl h)))))))
  · exact (out_stalled_cases h).imp_right
      (.imp_right fun h => .inr (.inr (.inr (.inr (.inr (.inr (.inr h)))))))

theorem Proper.conf_ne_never (h : Proper b s i) (hr : i.reset = false)
    (herr : CtlPipe0.errorO s.ctl = false)
    (hcause : CtlPipe0.eventO s.ctl = true ∨ b.conf ≠ .never) : (keep b s i).conf ≠ .never := by
  have hasked : CtlPipe0.eventO s.ctl = true → b.conf = .never → b.asked = .configuration true :=
    fun hevent hnever => (h.event hr hevent).resolve_right fun hface => hface.2 hnever
  simp only [keep, hr, herr]
  cases hconf : b.conf <;> grind

theorem kept_of_quiet (hr : i.reset = false) (hevent : CtlPipe0.eventO s.ctl = false)
    (herr : CtlPipe0.errorO s.ctl = false) : Kept s i := by
  have hset : ∀ {e : Protocol.BulkEp} {q : Protocol.EpState},
      Protocol.enNext (protocolInputs s i) e q = true → q.en = true := by
    intro e q h
    rcases (en_step_cases h).2 with h | h
    · exact absurd (h.symm.trans hevent) (by simp)
    · exact h
  have hout : ∀ (q : BulkOut.Params) (e : BulkOut.State ABITS) (r : Protocol.EpState) (t : Bool),
      OutKept e (BulkOut.step q e (outInputs s i r t)) r := by
    intro q e r t
    refine ⟨fun h => (out_stalled_cases h).2.resolve_left ?_, ?_, ?_⟩
    · simp [outInputs, hevent]
    · simp [BulkOut.step, outInputs, hevent, hr]
    · simp [BulkOut.step, outInputs, hevent, hr]
  have hin : ∀ {q : BulkIn.Params} (e : BulkIn.State ABITS q) (r : Protocol.EpState) (t : InPort),
      InKept e (BulkIn.step e (inInputs s i r t)) (inInputs s i r t) := by
    intro q e r t
    refine ⟨fun h => (in_stalled_cases h).2.resolve_left ?_, ?_, ?_⟩
    · simp [inInputs, hevent]
    · simp [BulkIn.step, inInputs, hevent, herr, hr]
    · have hno : (inInputs s i r t).setConfI = false := hevent
      simp [BulkIn.step, hno]
  exact ⟨hset, hset, hset, hset, hout _ _ _ _, hin _ _ _, hin _ _ _, hout _ _ _ _⟩

theorem Proper.kept_or_permitted (h : Proper b s i) : Kept s i ∨ Permitted b s i := by
  cases hr : i.reset
  · cases hevent : CtlPipe0.eventO s.ctl
    · cases herr : CtlPipe0.errorO s.ctl
      · exact Or.inl (kept_of_quiet hr hevent herr)
      · exact Or.inr (Or.inr (Or.inr ⟨herr, h.error herr⟩))
    · exact Or.inr (Or.inr (Or.inl ⟨hevent, h.event hr hevent⟩))
  · exact Or.inr (Or.inl hr)

end Steps

instance (b : Ledger) (s : State ABITS p) (i : Inputs) : Decidable (Proper b s i) :=
  decidable_of_iff ((i.reset = false → CtlPipe0.eventO s.ctl = true →
      b.asked = .configuration true ∨ b.asked = .interface ∧ b.conf ≠ .never) ∧
    (CtlPipe0.errorO s.ctl = true → b.refused ∉ others))
    ⟨fun ⟨hevent, herror⟩ => ⟨hevent, herror⟩, fun h => ⟨h.event, h.error⟩⟩

/-- A SETUP transaction, after reset. -/
def setupCycles (request : List (BitVec 8)) : List Inputs :=
  [resetCycle] ++ (busCycles setupBytes ++ [busEnds]) ++ (dataCycles request 4).all

/-- The core and the record, after a SETUP transaction. -/
def recorded (request : List (BitVec 8)) : State 3 smallParams × Ledger :=
  run (watched step keep) (afterReset default resetCycle, .start) (setupCycles request)

/-- `SET_CONFIGURATION`, for the configuration 1. -/
def setConfiguration : List (BitVec 8) :=
  [0x00, 0x09, 0x01, 0x00, 0x00, 0x00, 0x00, 0x00, 0x27, 0x25]

/-- `SET_ADDRESS`, for the address 42, with its check sum. -/
def setAddressOk : List (BitVec 8) :=
  [0x00, 0x05, 0x2a, 0x00, 0x00, 0x00, 0x00, 0x00, 0xed, 0x3e]

end MiscVerilogCores.UsbUlpiTop
