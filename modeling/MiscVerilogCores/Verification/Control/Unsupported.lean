import MiscVerilogCores.Verification.Control.Configuration
import MiscVerilogCores.Verification.PacketFifo.Queued
import MiscVerilogCores.Verification.Protocol.Strobes

/-! # Requests that are not supported

The error strobe of the control pipe is the clear-configuration of the end-points. What they hold
and whether they are live is compared before and after such a request. -/

namespace MiscVerilogCores.UsbUlpiTop

open Clocked Usb

variable {ABITS : ℕ} {p : Params}

/-! ## What must be the same -/

/-- A bulk end-point, as its users see it. -/
structure EpStatus where
  en : Bool
  stalled : Bool
  parity : Bool
  queued : List (BitVec 8)
deriving DecidableEq

def outStatus (q : Protocol.EpState) (e : BulkOut.State ABITS) : EpStatus :=
  ⟨q.en, BulkOut.stalledO e, BulkOut.parityO e, PacketFifo.queued e.fifo⟩

def inStatus (q : Protocol.EpState) {r : BulkIn.Params} (e : BulkIn.State ABITS r) : EpStatus :=
  ⟨q.en, BulkIn.stalledO e, BulkIn.parityO e, PacketFifo.queued e.fifo⟩

/-- The end-points, the configuration, and the address that has been set and that is in use. -/
structure Status where
  ep1 : EpStatus
  ep2 : EpStatus
  ep3 : EpStatus
  ep4 : EpStatus
  config : BitVec 8
  address : BitVec 7
  usbAddr : BitVec 7
deriving DecidableEq

def status (s : State ABITS p) : Status where
  ep1 := outStatus s.proto.ep1 s.ep1
  ep2 := inStatus s.proto.ep2 s.ep2
  ep3 := inStatus s.proto.ep3 s.ep3
  ep4 := outStatus s.proto.ep4 s.ep4
  config := s.ctl.cfgQ
  address := s.ctl.adrQ
  usbAddr := s.usbAddrQ

/-- No other traffic: no reset and no supported request, the bulk end-points are not selected, and
neither the applications nor the encoder move bytes. -/
structure Quiet (s : State ABITS p) (i : Inputs) : Prop where
  reset : i.reset = false
  event : CtlPipe0.eventO s.ctl = false
  decoded : s.ctl.setQs.any = false
  sel : ∀ n, (s.proto.bulk n).selQ = false ∧ (s.proto.bulk n).ackQ = false
  err : s.proto.epxErrQ = false
  ep1 : s.ep1.rstQ = false ∧ s.ep1.fifo.saveQ = false ∧ i.ep1Tready = false
  ep2 : i.ep2.tvalid = false
  ep3 : i.ep3.tvalid = false
  ep4 : s.ep4.rstQ = false ∧ s.ep4.fifo.saveQ = false ∧ i.ep4Tready = false

/-- An end-point that is neither enabled nor out of its stall. -/
def EpStatus.Off (e : EpStatus) : Prop := e.en = false ∧ e.stalled = true

/-- No end-point is live, and nothing is queued for the host. -/
structure Status.Down (t : Status) : Prop where
  ep1 : t.ep1.Off
  ep2 : t.ep2.Off ∧ t.ep2.queued = []
  ep3 : t.ep3.Off ∧ t.ep3.queued = []
  ep4 : t.ep4.Off

/-- A control transfer ends in some of the cycles. -/
def Ends (s : State ABITS p) (is : List Inputs) : Prop :=
  ∃ pre i post, is = pre ++ i :: post ∧ (run step s pre).stdreq.endQ = true

/-! ## One edge -/

section Out

variable {q : BulkOut.Params} {e : BulkOut.State ABITS} {s : State ABITS p} {i : Inputs}
  {r : Protocol.EpState} {t : Bool}

theorem out_parity (h : Quiet s i) (hack : r.ackQ = false) :
    BulkOut.parityO (BulkOut.step q e (outInputs s i r t)) = BulkOut.parityO e := by
  simp [BulkOut.parityO, BulkOut.step, outInputs, h.reset, h.event, hack]

theorem out_stalled (h : Quiet s i) (hs : BulkOut.stalledO e = true ∨ CtlPipe0.errorO s.ctl = true) :
    BulkOut.stalledO (BulkOut.step q e (outInputs s i r t)) = true := by
  by_contra hno
  obtain ⟨⟨-, hclr⟩, hset | hstalled⟩ := out_stalled_cases (Bool.eq_false_iff.mpr hno)
  · exact absurd (hset.symm.trans h.event) (by simp)
  · rcases hs with hs | hs
    · simp [hstalled] at hs
    · exact absurd (hs.symm.trans hclr) (by simp)

theorem out_queued (h : Quiet s i) (hs : BulkOut.stalledO e = true) (hrst : e.rstQ = false)
    (hsave : e.fifo.saveQ = false) (ht : t = false) :
    PacketFifo.queued (BulkOut.step q e (outInputs s i r t)).fifo = PacketFifo.queued e.fifo := by
  have hstate : e.state = .halt := by simpa [BulkOut.stalledO] using hs
  exact PacketFifo.queued_step rfl rfl hrst (by simp [BulkOut.fifoInputs, hstate]) h.err rfl hsave ht

end Out

section In

variable {q : BulkIn.Params} {e : BulkIn.State ABITS q} {s : State ABITS p} {i : Inputs}
  {r : Protocol.EpState} {t : InPort}

theorem in_parity (h : Quiet s i) (hsel : r.selQ = false) :
    BulkIn.parityO (BulkIn.step e (inInputs s i r t)) = BulkIn.parityO e := by
  simp [BulkIn.parityO, BulkIn.step, inInputs, h.event, BulkIn.nextW, hsel]

theorem in_stalled (h : Quiet s i) (hs : BulkIn.stalledO e = true ∨ CtlPipe0.errorO s.ctl = true) :
    BulkIn.stalledO (BulkIn.step e (inInputs s i r t)) = true := by
  by_contra hno
  obtain ⟨⟨-, hclr⟩, hset | hstalled⟩ := in_stalled_cases (Bool.eq_false_iff.mpr hno)
  · exact absurd (hset.symm.trans h.event) (by simp)
  · rcases hs with hs | hs
    · simp [hstalled] at hs
    · exact absurd (hs.symm.trans hclr) (by simp)

theorem in_queued (hsel : r.selQ = false) (ht : t.tvalid = false)
    (h : PacketFifo.queued e.fifo = []) :
    PacketFifo.queued (BulkIn.step e (inInputs s i r t)).fifo = [] :=
  PacketFifo.queued_nil_step rfl rfl h ht rfl
    (by simp [BulkIn.fifoInputs, BulkIn.nextW, inInputs, hsel])

theorem in_flushed (h : e.rstQ = true) :
    PacketFifo.queued (BulkIn.step e (inInputs s i r t)).fifo = [] :=
  PacketFifo.queued_reset rfl h

theorem in_rstQ (h : CtlPipe0.errorO s.ctl = true) :
    (BulkIn.step e (inInputs s i r t)).rstQ = true := by
  simp [BulkIn.step, inInputs, h]

end In

section Steps

variable {s : State ABITS p} {i : Inputs}

/-- A quiet edge enables no end-point, and an error disables all. -/
theorem en_step (h : Quiet s i) {e : Protocol.BulkEp} {q : Protocol.EpState}
    (hq : q.en = false ∨ CtlPipe0.errorO s.ctl = true) :
    Protocol.enNext (protocolInputs s i) e q = false := by
  by_contra hno
  obtain ⟨⟨-, hclr⟩, hset | hen⟩ := en_step_cases (Bool.not_eq_false _ ▸ hno)
  · exact absurd (hset.symm.trans h.event) (by simp)
  · rcases hq with hq | hq
    · simp [hen] at hq
    · exact absurd (hq.symm.trans hclr) (by simp)

theorem out_off (h : Quiet s i) {q : BulkOut.Params} {e : BulkOut.State ABITS}
    {r r' : Protocol.EpState} {t : Bool} {d : Protocol.BulkEp}
    (hoff : (outStatus r e).Off ∨ CtlPipe0.errorO s.ctl = true)
    (hr : r'.en = Protocol.enNext (protocolInputs s i) d r) :
    (outStatus r' (BulkOut.step q e (outInputs s i r t))).Off :=
  ⟨hr.trans (en_step h (hoff.imp_left And.left)), out_stalled h (hoff.imp_left And.right)⟩

theorem in_off (h : Quiet s i) {q : BulkIn.Params} {e : BulkIn.State ABITS q}
    {r r' : Protocol.EpState} {t : InPort} {d : Protocol.BulkEp}
    (hoff : (inStatus r e).Off ∨ CtlPipe0.errorO s.ctl = true)
    (hr : r'.en = Protocol.enNext (protocolInputs s i) d r) :
    (inStatus r' (BulkIn.step e (inInputs s i r t))).Off :=
  ⟨hr.trans (en_step h (hoff.imp_left And.left)), in_stalled h (hoff.imp_left And.right)⟩

/-- An end-point that is off stays as it is. -/
theorem out_same (h : Quiet s i) {q : BulkOut.Params} {e : BulkOut.State ABITS}
    {r r' : Protocol.EpState} {t : Bool} {d : Protocol.BulkEp} (hoff : (outStatus r e).Off)
    (hr : r'.en = Protocol.enNext (protocolInputs s i) d r) (hack : r.ackQ = false)
    (hport : e.rstQ = false ∧ e.fifo.saveQ = false ∧ t = false) :
    outStatus r' (BulkOut.step q e (outInputs s i r t)) = outStatus r e := by
  have hoff' := out_off h (q := q) (t := t) (Or.inl hoff) hr
  rw [outStatus, outStatus, EpStatus.mk.injEq]
  exact ⟨hoff'.1.trans hoff.1.symm, hoff'.2.trans hoff.2.symm, out_parity h hack,
    out_queued h hoff.2 hport.1 hport.2.1 hport.2.2⟩

theorem in_same (h : Quiet s i) {q : BulkIn.Params} {e : BulkIn.State ABITS q}
    {r r' : Protocol.EpState} {t : InPort} {d : Protocol.BulkEp}
    (hoff : (inStatus r e).Off ∧ (inStatus r e).queued = [])
    (hr : r'.en = Protocol.enNext (protocolInputs s i) d r) (hsel : r.selQ = false)
    (ht : t.tvalid = false) :
    inStatus r' (BulkIn.step e (inInputs s i r t)) = inStatus r e := by
  have hoff' := in_off h (e := e) (t := t) (Or.inl hoff.1) hr
  rw [inStatus, inStatus, EpStatus.mk.injEq]
  exact ⟨hoff'.1.trans hoff.1.1.symm, hoff'.2.trans hoff.1.2.symm, in_parity h hsel,
    (in_queued hsel ht hoff.2).trans hoff.2.symm⟩

/-- The error has reached the end-points: the FIFOs of the bulk IN end-points are about to be reset,
unless they are empty. -/
structure Dropped (s : State ABITS p) : Prop where
  ep1 : (status s).ep1.Off
  ep2 : (status s).ep2.Off ∧ (s.ep2.rstQ = true ∨ (status s).ep2.queued = [])
  ep3 : (status s).ep3.Off ∧ (s.ep3.rstQ = true ∨ (status s).ep3.queued = [])
  ep4 : (status s).ep4.Off

theorem Quiet.dropped (h : Quiet s i) (herr : CtlPipe0.errorO s.ctl = true) : Dropped (step s i) :=
  ⟨out_off h (Or.inr herr) rfl, ⟨in_off h (Or.inr herr) rfl, Or.inl (in_rstQ herr)⟩,
    ⟨in_off h (Or.inr herr) rfl, Or.inl (in_rstQ herr)⟩, out_off h (Or.inr herr) rfl⟩

theorem Dropped.next (h : Dropped s) (hi : Quiet s i) : (status (step s i)).Down := by
  refine ⟨out_off hi (Or.inl h.ep1) rfl, ⟨in_off hi (Or.inl h.ep2.1) rfl, ?_⟩,
    ⟨in_off hi (Or.inl h.ep3.1) rfl, ?_⟩, out_off hi (Or.inl h.ep4) rfl⟩
  · exact h.ep2.2.elim in_flushed (in_queued (hi.sel 1).1 hi.ep2)
  · exact h.ep3.2.elim in_flushed (in_queued (hi.sel 2).1 hi.ep3)

theorem Status.Down.dropped (h : (status s).Down) : Dropped s :=
  ⟨h.ep1, ⟨h.ep2.1, Or.inr h.ep2.2⟩, ⟨h.ep3.1, Or.inr h.ep3.2⟩, h.ep4⟩

/-- Without a supported request the configuration and the address stay as they are. -/
theorem Quiet.config (h : Quiet s i) :
    (step s i).ctl.cfgQ = s.ctl.cfgQ ∧ (step s i).ctl.adrQ = s.ctl.adrQ := by
  have hnone : (s.ctl.setQs.setAddr = false ∧ s.ctl.setQs.setConf = false) ∧
      s.ctl.setQs.setFace = false := by
    simpa [CtlPipe0.Decoded.any] using h.decoded
  simp [step, CtlPipe0.step, ctlInputs, h.reset, hnone]

/-- With no end-point live nothing changes but the address in use. -/
theorem Status.Down.next (h : (status s).Down) (hi : Quiet s i) :
    status (step s i) = { status s with usbAddr := (step s i).usbAddrQ } := by
  rw [status, Status.mk.injEq]
  exact ⟨out_same hi h.ep1 rfl (hi.sel 0).2 hi.ep1, in_same hi h.ep2 rfl (hi.sel 1).1 hi.ep2,
    in_same hi h.ep3 rfl (hi.sel 2).1 hi.ep3, out_same hi h.ep4 rfl (hi.sel 3).2 hi.ep4,
    hi.config.1, hi.config.2, rfl⟩

end Steps

/-! ## Runs -/

section Runs

variable {s : State ABITS p} {i j : Inputs} {is pre post : List Inputs}

theorem not_ends_nil : ¬ Ends s [] := by
  rintro ⟨pre, i, post, hsplit, -⟩
  simp at hsplit

theorem ends_cons : Ends s (i :: is) ↔ s.stdreq.endQ = true ∨ Ends (step s i) is := by
  constructor
  · rintro ⟨pre, j, post, hsplit, hend⟩
    cases pre with
    | nil => exact Or.inl hend
    | cons k pre =>
        obtain ⟨rfl, rfl⟩ := List.cons.inj hsplit
        exact Or.inr ⟨pre, j, post, rfl, hend⟩
  · rintro (hend | ⟨pre, j, post, rfl, hend⟩)
    · exact ⟨[], i, is, rfl, hend⟩
    · exact ⟨i :: pre, j, post, rfl, hend⟩

/-- The address that has been set is put in use when a control transfer ends. -/
theorem usbAddrQ_run (h : Along step Quiet s is) :
    (Ends s is → (run step s is).usbAddrQ = s.ctl.adrQ) ∧
      (¬ Ends s is → (run step s is).usbAddrQ = s.usbAddrQ) := by
  induction is generalizing s with
  | nil => exact ⟨fun hends => absurd hends not_ends_nil, fun _ => rfl⟩
  | cons i is ih =>
      obtain ⟨hends, hkeeps⟩ := ih h.2
      have hadr := h.1.config.2
      have husb : (step s i).usbAddrQ = if s.stdreq.endQ then s.ctl.adrQ else s.usbAddrQ := by
        simp [step, h.1.reset]
      rw [ends_cons, run_cons]
      by_cases hlater : Ends (step s i) is
      · exact ⟨fun _ => (hends hlater).trans hadr, fun hno => absurd (Or.inr hlater) hno⟩
      · rw [hkeeps hlater, husb]
        refine ⟨fun hor => ?_, fun hno => ?_⟩
        · rw [if_pos (hor.resolve_right hlater)]
        · rw [if_neg fun hend => hno (Or.inl hend)]

theorem Status.Down.run (h : (status s).Down) (his : Along step Quiet s is) :
    status (run step s is) = { status s with usbAddr := (Clocked.run step s is).usbAddrQ } := by
  induction is generalizing s with
  | nil => rfl
  | cons i is ih =>
      have hnext := h.next his.1
      rw [run_cons, ih (h.dropped.next his.1) his.2, hnext]

/-- Behind an error no end-point is live. -/
theorem down_of_error (his : Along step Quiet s (pre ++ i :: j :: post))
    (herr : CtlPipe0.errorO (run step s pre).ctl = true) :
    (status (run step s (pre ++ i :: j :: post))).Down := by
  obtain ⟨-, hi, hj, hpost⟩ := (along_append step Quiet s pre _).mp his
  rw [run_append, run_cons, run_cons]
  refine run_invariant (fun s => (status s).Down) (fun s i h hi => h.dropped.next hi) ?_ hpost
  exact (hi.dropped herr).next hj

end Runs

/-- A request that is not supported disturbs nothing exactly when no end-point is live before it and
nothing is queued for the host, and no address waits for the end of the transfer. -/
theorem undisturbed_iff (s₀ : State ABITS p) (i₀ : Inputs) (is pre : List Inputs) (i j : Inputs)
    (post : List Inputs) (his : Along step Quiet (reached s₀ i₀ is) (pre ++ i :: j :: post))
    (herr : CtlPipe0.errorO (run step (reached s₀ i₀ is) pre).ctl = true) :
    status (run step (reached s₀ i₀ is) (pre ++ i :: j :: post)) = status (reached s₀ i₀ is) ↔
      (status (reached s₀ i₀ is)).Down ∧ (Ends (reached s₀ i₀ is) (pre ++ i :: j :: post) →
        (reached s₀ i₀ is).ctl.adrQ = (reached s₀ i₀ is).usbAddrQ) := by
  obtain ⟨hends, hkeeps⟩ := usbAddrQ_run his
  constructor
  · intro hsame
    refine ⟨hsame ▸ down_of_error his herr, fun hend => (hends hend).symm.trans ?_⟩
    exact congrArg Status.usbAddr hsame
  · rintro ⟨hdown, haddr⟩
    rw [hdown.run his]
    by_cases hend : Ends (reached s₀ i₀ is) (pre ++ i :: j :: post)
    · rw [hends hend, haddr hend]
      rfl
    · rw [hkeeps hend]
      rfl

/-! ## A configured device -/

instance (s : State ABITS p) (i : Inputs) : Decidable (Quiet s i) :=
  decidable_of_iff (i.reset = false ∧ CtlPipe0.eventO s.ctl = false ∧ s.ctl.setQs.any = false ∧
    (∀ n, (s.proto.bulk n).selQ = false ∧ (s.proto.bulk n).ackQ = false) ∧
    s.proto.epxErrQ = false ∧
    (s.ep1.rstQ = false ∧ s.ep1.fifo.saveQ = false ∧ i.ep1Tready = false) ∧ i.ep2.tvalid = false ∧
    i.ep3.tvalid = false ∧
    (s.ep4.rstQ = false ∧ s.ep4.fifo.saveQ = false ∧ i.ep4Tready = false))
    ⟨fun ⟨hr, hevent, hdec, hsel, herr, h1, h2, h3, h4⟩ =>
        ⟨hr, hevent, hdec, hsel, herr, h1, h2, h3, h4⟩,
      fun h => ⟨h.reset, h.event, h.decoded, h.sel, h.err, h.ep1, h.ep2, h.ep3, h.ep4⟩⟩

/-- The device acknowledges the packet of SET_CONFIGURATION, is polled for the status stage, sends
its empty packet, and receives the acknowledgement; then comes another SETUP token. -/
def configuredCycles : List Inputs :=
  setupCycles setConfiguration ++ [{ resetCycle with hskSent := true }, resetCycle] ++
    (busCycles [0x69, 0x00, 0x10] ++ [busEnds]) ++
    [resetCycle, { resetCycle with usbBusy := true, usbSent := true }] ++
    (busCycles [0xd2] ++ [busEnds]) ++ List.replicate 4 resetCycle ++
    (busCycles setupBytes ++ [busEnds]) ++ List.replicate 2 resetCycle

/-- SET_DESCRIPTOR, which is not supported. -/
def setDescriptor : List (BitVec 8) :=
  [0x00, 0x07, 0x00, 0x00, 0x00, 0x00, 0x00, 0x00, 0xc9, 0x34]

/-- The core when the packet of the request comes. -/
abbrev configuredCore : State 3 smallParams := reached default resetCycle configuredCycles

/-- The request in a configured device. -/
theorem undisturbed_iff_setDescriptor :
    status (run step configuredCore ((dataCycles setDescriptor 2).all ++ [resetCycle, resetCycle])) =
        status configuredCore ↔
      (status configuredCore).Down ∧
        (Ends configuredCore ((dataCycles setDescriptor 2).all ++ [resetCycle, resetCycle]) →
          configuredCore.ctl.adrQ = configuredCore.usbAddrQ) :=
  undisturbed_iff default resetCycle configuredCycles (dataCycles setDescriptor 2).all resetCycle
    resetCycle [] (by decide +kernel) (by decide +kernel)

/-- It disables the end-points. -/
theorem disturbed_setDescriptor :
    configuredCore.ctl.setQ = true ∧
      CtlPipe0.errorO (run step configuredCore (dataCycles setDescriptor 2).all).ctl = true ∧
      (status configuredCore).ep1 = ⟨true, false, false, []⟩ ∧
      (status (run step configuredCore
        ((dataCycles setDescriptor 2).all ++ [resetCycle, resetCycle]))).ep1 =
          ⟨false, true, false, []⟩ ∧
      status (run step configuredCore
        ((dataCycles setDescriptor 2).all ++ [resetCycle, resetCycle])) ≠ status configuredCore := by
  refine ⟨by decide +kernel, by decide +kernel, by decide +kernel, by decide +kernel, ?_⟩
  decide +kernel

end MiscVerilogCores.UsbUlpiTop
