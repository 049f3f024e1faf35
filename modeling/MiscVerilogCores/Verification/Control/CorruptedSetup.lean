import MiscVerilogCores.Verification.Control.Requests

/-! # Corrupted SETUP packets

The check sum of a packet is known once its bytes have been parsed. Without a request the control
pipe and the end-points stay as they are, whatever the packet. -/

namespace MiscVerilogCores.UsbUlpiTop

open Clocked Usb

variable {ABITS : ℕ} {p : Params}

/-! ## What must not happen -/

section Ports

variable (s : State ABITS p) (i : Inputs)

/-- The port of the FIFO of each bulk end-point. -/
def ep1Fifo : PacketFifo.Inputs 8 :=
  BulkOut.fifoInputs s.ep1 (outInputs s i s.proto.ep1 i.ep1Tready)

def ep2Fifo : PacketFifo.Inputs 8 := BulkIn.fifoInputs s.ep2 (inInputs s i s.proto.ep2 i.ep2)

def ep3Fifo : PacketFifo.Inputs 8 := BulkIn.fifoInputs s.ep3 (inInputs s i s.proto.ep3 i.ep3)

def ep4Fifo : PacketFifo.Inputs 8 :=
  BulkOut.fifoInputs s.ep4 (outInputs s i s.proto.ep4 i.ep4Tready)

end Ports

/-- What a bulk OUT FIFO holds for the application is left alone: the FIFO is not reset, and no
packet is saved. -/
structure OutLeft (j j' : PacketFifo.Inputs 8) : Prop where
  reset : j'.reset = true → j.reset = true
  save : j'.saveI = false

/-- What a bulk IN FIFO holds for the host is left alone: the FIFO is not reset, and no packet is
taken back or released. -/
structure InLeft (j j' : PacketFifo.Inputs 8) : Prop where
  reset : j'.reset = true → j.reset = true
  redo : j'.redoI = false
  next : j'.nextI = false

/-- What an edge from `s` to `s'` leaves alone. -/
structure Calm (s s' : State ABITS p) : Prop where
  request : s'.stdreq.parser.reqStart = false
  event : CtlPipe0.eventO s'.ctl = true → CtlPipe0.eventO s.ctl = true
  error : CtlPipe0.errorO s'.ctl = true → CtlPipe0.errorO s.ctl = true
  address : s'.ctl.adrQ = s.ctl.adrQ
  config : s'.ctl.cfgQ = s.ctl.cfgQ
  flags : s'.ctl.enmQ = s.ctl.enmQ ∧ s'.ctl.setQ = s.ctl.setQ
  en1 : s'.proto.ep1.en = s.proto.ep1.en
  en2 : s'.proto.ep2.en = s.proto.ep2.en
  en3 : s'.proto.ep3.en = s.proto.ep3.en
  en4 : s'.proto.ep4.en = s.proto.ep4.en
  fifo1 : ∀ i, OutLeft (ep1Fifo s i) (ep1Fifo s' i)
  fifo2 : ∀ i, InLeft (ep2Fifo s i) (ep2Fifo s' i)
  fifo3 : ∀ i, InLeft (ep3Fifo s i) (ep3Fifo s' i)
  fifo4 : ∀ i, OutLeft (ep4Fifo s i) (ep4Fifo s' i)

/-- Some cycles have no effect. -/
def NoEffect (s : State ABITS p) (is : List Inputs) : Prop :=
  Along step (fun s i => Calm s (step s i)) s is

/-- Fewer than eight bytes, or eight and a check sum that is not theirs. -/
def Corrupted (rest : List (BitVec 8)) : Prop :=
  rest.length < 10 ∨ ∃ payload crc₀ crc₁, rest = payload ++ [crc₀, crc₁] ∧ payload.length = 8 ∧
    wire crc₀ ++ wire crc₁ ≠ checkBits payload

/-! ## The control pipe at rest -/

/-- The effects of an error have spread to the end-points. -/
structure Flushed (s : State ABITS p) : Prop where
  en1 : s.proto.ep1.en = false
  en2 : s.proto.ep2.en = false
  en3 : s.proto.ep3.en = false
  en4 : s.proto.ep4.en = false
  rst2 : s.ep2.rstQ = true
  rst3 : s.ep3.rstQ = true

/-- No request is on its way through the registers of the control pipe. -/
structure Settled (s : State ABITS p) : Prop where
  start : s.stdreq.parser.reqStart = false
  startQ : s.ctl.startQ = false
  decoded : s.ctl.setQs = ⟨false, false, false⟩
  event : s.ctl.ctlDoneQ = false
  error : s.ctl.errQ = true → Flushed s

/-- The bulk end-points are not selected, or are about to be deselected by a token. -/
structure Apart (s : State ABITS p) : Prop where
  hsk : s.dec.hskRecvQ = false
  sel : (s.dec.tokRecvQ = true ∧ s.dec.addrQ = s.usbAddrQ ∧ s.dec.endpQ = 0) ∨
    (s.dec.tokRecvQ = false ∧ s.proto.ep1.selQ = false ∧ s.proto.ep2.selQ = false ∧
      s.proto.ep3.selQ = false ∧ s.proto.ep4.selQ = false)

section Rest

variable {s : State ABITS p} {i : Inputs} {is : List Inputs}

/-- A token for end-point 0 selects no other. -/
theorem selNext_token (hp : Protocol.Params) {q : Protocol.State} {j : Protocol.Inputs}
    (htok : Protocol.tokenW j = true) (hendp : j.tokEndp = 0) {n : Fin 5} (hn : n ≠ 0)
    (en sel : Bool) : Protocol.selNext hp q j n en sel = false := by
  have hsel : Protocol.tokenSel hp j = some 0 := by rw [Protocol.tokenSel, if_pos hendp]
  rw [Protocol.selNext, hsel, htok]
  cases q.endQ <;> simp [hn.symm]

theorem selNext_none (hp : Protocol.Params) {q : Protocol.State} {j : Protocol.Inputs}
    (htok : j.tokRecv = false) (n : Fin 5) (en : Bool) :
    Protocol.selNext hp q j n en false = false := by
  simp [Protocol.selNext, Protocol.tokenW, htok]

theorem Apart.deselected (h : Apart s) (i : Inputs) :
    (step s i).proto.ep1.selQ = false ∧ (step s i).proto.ep2.selQ = false ∧
      (step s i).proto.ep3.selQ = false ∧ (step s i).proto.ep4.selQ = false := by
  rcases h.sel with ⟨htok, haddr, hendp⟩ | ⟨htok, h1, h2, h3, h4⟩
  · have htoken : Protocol.tokenW (protocolInputs s i) = true := by
      simp [Protocol.tokenW, protocolInputs, htok, haddr]
    refine ⟨?_, ?_, ?_, ?_⟩ <;>
      exact selNext_token (protocolParams p) htoken hendp (by decide) _ _
  · have hsel := selNext_none (protocolParams p) (q := s.proto) (j := protocolInputs s i) htok
    simp only [step, Protocol.step, Protocol.epNext, h1, h2, h3, h4]
    exact ⟨hsel 1 _, hsel 2 _, hsel 3 _, hsel 4 _⟩

theorem Apart.next (h : Apart s) (hi : Behind s i) : Apart (step s i) :=
  ⟨hi.dec.hsk, Or.inr ⟨hi.dec.tok, h.deselected i⟩⟩

theorem Apart.no_ack (h : Apart s) (hi : Behind s i) (e : Protocol.BulkEp)
    (q : Protocol.EpState) : Protocol.ackNext s.proto (protocolInputs s i) e q = false := by
  have hsent : (protocolInputs s i).hskSent = false := hi.silent
  have hrecv : (protocolInputs s i).hskRecv = false := h.hsk
  simp [Protocol.ackNext, hsent, hrecv]

theorem enNext_eq (h : Settled s) (hi : Behind s i) (e : Protocol.BulkEp) (q : Protocol.EpState)
    (hq : s.ctl.errQ = true → q.en = false) :
    Protocol.enNext (protocolInputs s i) e q = q.en := by
  have hreset : (protocolInputs s i).reset = false := hi.reset
  have hset : (protocolInputs s i).setConfI = false := h.event
  have hclr : (protocolInputs s i).clrConfI = s.ctl.errQ := rfl
  rw [Protocol.enNext, hreset, hset, hclr]
  cases herr : s.ctl.errQ
  · rfl
  · simp [hq herr]

/-- An error is not raised by itself. -/
theorem Settled.errQ_step (h : Settled s) (i : Inputs) :
    (step s i).ctl.errQ = true → s.ctl.errQ = true := by
  intro herr
  simp only [step, CtlPipe0.step, CtlPipe0.errNext, h.startQ] at herr
  simp at herr
  exact herr.2

theorem Settled.next (h : Settled s) (hi : Behind s i)
    (hstart : (step s i).stdreq.parser.reqStart = false) : Settled (step s i) := by
  have hreset : (ctlInputs s i).reset = false := hi.reset
  have hstartI : (ctlInputs s i).startI = false := h.start
  refine ⟨hstart, h.start, ?_, ?_, fun herr => ?_⟩
  · simp [step, CtlPipe0.step, CtlPipe0.decode, hstartI]
  · simp [step, CtlPipe0.step, CtlPipe0.ctlDoneNext, h.decoded, h.event, CtlPipe0.Decoded.any]
  · have hflushed := h.error (h.errQ_step i herr)
    refine ⟨?_, ?_, ?_, ?_, ?_, ?_⟩
    · exact (enNext_eq h hi _ _ fun _ => hflushed.en1).trans hflushed.en1
    · exact (enNext_eq h hi _ _ fun _ => hflushed.en2).trans hflushed.en2
    · exact (enNext_eq h hi _ _ fun _ => hflushed.en3).trans hflushed.en3
    · exact (enNext_eq h hi _ _ fun _ => hflushed.en4).trans hflushed.en4
    · simp [step, BulkIn.step, inInputs, CtlPipe0.errorO, h.errQ_step i herr]
    · simp [step, BulkIn.step, inInputs, CtlPipe0.errorO, h.errQ_step i herr]

/-- The FIFO of a bulk OUT end-point is only reset for a configuration. -/
theorem outLeft (h : Settled s) (hi : Behind s i) (q : BulkOut.Params) (e : BulkOut.State ABITS)
    (r : Protocol.EpState) (t : Bool) (j j' : BulkOut.Inputs) (hack : j'.ackSentI = false) :
    OutLeft (BulkOut.fifoInputs e j)
      (BulkOut.fifoInputs (BulkOut.step q e (outInputs s i r t)) j') := by
  have hrst : (BulkOut.step q e (outInputs s i r t)).rstQ = false := by
    simp [BulkOut.step, outInputs, hi.reset, CtlPipe0.eventO, h.event]
  exact ⟨fun hr => by simp [BulkOut.fifoInputs, hrst] at hr, hack⟩

/-- That of a bulk IN end-point, for an error too. -/
theorem inLeft (h : Settled s) (hi : Behind s i) {q : BulkIn.Params} (e : BulkIn.State ABITS q)
    (r : Protocol.EpState) (t : InPort) (j j' : BulkIn.Inputs)
    (hrst : s.ctl.errQ = true → e.rstQ = true) (hsel : j'.selectedI = false) :
    InLeft (BulkIn.fifoInputs e j) (BulkIn.fifoInputs (BulkIn.step e (inInputs s i r t)) j') := by
  refine ⟨fun hr => ?_, ?_, ?_⟩
  · apply hrst
    simpa [BulkIn.fifoInputs, BulkIn.step, inInputs, hi.reset, CtlPipe0.eventO, h.event,
      CtlPipe0.errorO] using hr
  · simp [BulkIn.fifoInputs, BulkIn.redoW, hsel]
  · simp [BulkIn.fifoInputs, BulkIn.nextW, hsel]

theorem Settled.calm (h : Settled s) (ha : Apart s) (hi : Behind s i)
    (hstart : (step s i).stdreq.parser.reqStart = false) : Calm s (step s i) := by
  have hreset : (ctlInputs s i).reset = false := hi.reset
  have hnext := h.next hi hstart
  obtain ⟨-, hsel2, hsel3, -⟩ := ha.deselected i
  refine ⟨hstart, fun hevent => ?_, h.errQ_step i, ?_, ?_, ⟨?_, ?_⟩, ?_, ?_, ?_, ?_, fun j => ?_,
    fun j => ?_, fun j => ?_, fun j => ?_⟩
  · rw [CtlPipe0.eventO, hnext.event] at hevent
    cases hevent
  · simp [step, CtlPipe0.step, hreset, h.decoded]
  · simp [step, CtlPipe0.step, hreset, h.decoded]
  · simp [step, CtlPipe0.step, hreset, h.decoded]
  · simp [step, CtlPipe0.step, hreset, h.decoded]
  · exact enNext_eq h hi _ _ fun herr => (h.error herr).en1
  · exact enNext_eq h hi _ _ fun herr => (h.error herr).en2
  · exact enNext_eq h hi _ _ fun herr => (h.error herr).en3
  · exact enNext_eq h hi _ _ fun herr => (h.error herr).en4
  · exact outLeft h hi _ _ _ _ _ _ (ha.no_ack hi _ _)
  · exact inLeft h hi _ _ _ _ _ (fun herr => (h.error herr).rst2) hsel2
  · exact inLeft h hi _ _ _ _ _ (fun herr => (h.error herr).rst3) hsel3
  · exact outLeft h hi _ _ _ _ _ _ (ha.no_ack hi _ _)

/-- Cycles in which no request is started have no effect, and only they. -/
theorem Settled.noEffect_iff_requests (h : Settled s) (ha : Apart s) (his : Along step Behind s is) :
    NoEffect s is ↔ requests s is = [] := by
  induction is generalizing s with
  | nil => simp [NoEffect, requests]
  | cons i is ih =>
      rw [NoEffect, along_cons, requests, emitted_cons, List.append_eq_nil_iff]
      constructor
      · rintro ⟨hcalm, hrest⟩
        refine ⟨by simp [request, hcalm.request], ?_⟩
        exact (ih (h.next his.1 hcalm.request) (ha.next his.1) his.2).mp hrest
      · rintro ⟨hnone, hrest⟩
        have hstart : (step s i).stdreq.parser.reqStart = false := by
          cases hs : (step s i).stdreq.parser.reqStart
          · rfl
          · simp [request, hs] at hnone
        exact ⟨h.calm ha his.1 hstart,
          (ih (h.next his.1 hstart) (ha.next his.1) his.2).mpr hrest⟩

end Rest

/-! ## A token lets the control pipe come to rest -/

/-- How far a request that was started before may still be on its way, after `n` cycles in which
no byte was put out. -/
structure Draining (n : ℕ) (s : State ABITS p) : Prop where
  kept : 1 ≤ n → UlpiDecoder.kept s.dec = none
  start : 2 ≤ n → s.stdreq.parser.reqStart = false
  ctl : 3 ≤ n → s.ctl.startQ = false ∧ s.ctl.setQs = ⟨false, false, false⟩
  status : 1 ≤ n → s.stdreq.zdpQ = false
  event : 4 ≤ n → s.ctl.ctlDoneQ = false
  error : 4 ≤ n → s.ctl.errQ = true → Flushed s

section Drain

variable {s : State ABITS p} {i : Inputs} {is mid : List Inputs} {last : Inputs} {n : ℕ}

theorem zdpC_of_silent (r : Stdreq.State) {j : Stdreq.Inputs} (h : j.hskSent = false) :
    Stdreq.zdpC r j = false := by
  cases hs : r.state <;> simp [Stdreq.zdpC, hs, h]

theorem reqStart_of_kept (h : UlpiDecoder.kept s.dec = none) (i : Inputs) :
    (step s i).stdreq.parser.reqStart = false := by
  have hstep : (step s i).stdreq.parser = Stdreq.parserNext s.stdreq (stdreqInputs s i) := rfl
  rw [hstep, Stdreq.parserNext, not_takes h]
  cases s.stdreq.cycQ <;> rfl

theorem flushed_step (h : s.ctl.errQ = true) (i : Inputs) : Flushed (step s i) := by
  have hclr : (protocolInputs s i).clrConfI = true := h
  have hen : ∀ (e : Protocol.BulkEp) (q : Protocol.EpState),
      Protocol.enNext (protocolInputs s i) e q = false := fun e q => by
    simp [Protocol.enNext, hclr]
  refine ⟨hen _ _, hen _ _, hen _ _, hen _ _, ?_, ?_⟩ <;>
    simp [step, BulkIn.step, inInputs, CtlPipe0.errorO, h]

theorem Draining.next (h : Draining n s) (hi : i.hskSent = false)
    (hkept : UlpiDecoder.kept (step s i).dec = none) : Draining (n + 1) (step s i) := by
  refine ⟨fun _ => hkept, fun hn => reqStart_of_kept (h.kept (by omega)) i, fun hn => ?_, fun _ => ?_,
    fun hn => ?_, fun hn herr => ?_⟩
  · have hstart : (ctlInputs s i).startI = false := h.start (by omega)
    exact ⟨hstart, by simp [step, CtlPipe0.step, CtlPipe0.decode, hstart]⟩
  · have hsent : (stdreqInputs s i).hskSent = false := hi
    simp [step, Stdreq.step, zdpC_of_silent _ hsent]
  · have hstatus : (ctlInputs s i).statusI = false := h.status (by omega)
    simp [step, CtlPipe0.step, CtlPipe0.ctlDoneNext, (h.ctl (by omega)).2, CtlPipe0.Decoded.any,
      hstatus]
  · apply flushed_step
    simp only [step, CtlPipe0.step, CtlPipe0.errNext, (h.ctl (by omega)).1] at herr
    simp at herr
    exact herr.2

theorem Draining.run (h : Draining n s) (his : ∀ i ∈ is, i.hskSent = false)
    (hkept : Along step (fun s i => UlpiDecoder.kept (step s i).dec = none) s is) :
    Draining (n + is.length) (Clocked.run step s is) := by
  induction is generalizing s n with
  | nil => exact h
  | cons i is ih =>
      have hrest := ih (h.next (his i (by simp)) hkept.1)
        (fun j hj => his j (List.mem_cons_of_mem i hj)) hkept.2
      rwa [Nat.add_assoc, Nat.add_comm 1] at hrest

theorem Draining.settled (h : Draining n s) (hn : 4 ≤ n) : Settled s :=
  ⟨h.start (by omega), (h.ctl (by omega)).1, (h.ctl (by omega)).2, h.event hn, h.error hn⟩

/-- A SETUP token takes long enough. -/
theorem SetupToken.settled (h : SetupToken s mid last) (hclean : UlpiDecoder.Clean s.dec) :
    Settled (Clocked.run step s (mid ++ [last])) := by
  have htoken := UlpiDecoder.kept_token h.start hclean h.receiving_map h.ending h.bytes
  have hmap : mid.map decInputs ++ [decInputs last] = (mid ++ [last]).map decInputs := by simp
  rw [hmap] at htoken
  have hkept := along_dec htoken
  have hstart : Draining 0 s := by
    refine ⟨?_, ?_, ?_, ?_, ?_, ?_⟩ <;> intro hn <;> omega
  refine (hstart.run h.silent hkept).settled ?_
  obtain ⟨b₀, b₁, hbytes, -⟩ := h.bytes
  have hlen := congrArg List.length hbytes
  have hle := UlpiDecoder.length_bytes_le (mid.map decInputs)
  simp at hlen hle ⊢
  omega

theorem AtToken.apart (h : AtToken s) : Apart s :=
  ⟨h.heard.hsk, Or.inl ⟨h.heard.tok, h.heard.addr, h.heard.endp⟩⟩

theorem Settled.entry_start (h : Settled s) : (entry s).reqStart = false := by
  rw [entry]
  cases s.stdreq.cycQ
  · rfl
  · exact h.start

theorem NoEffect.address (h : NoEffect s is) :
    (Clocked.run step s is).ctl.adrQ = s.ctl.adrQ := by
  induction is generalizing s with
  | nil => rfl
  | cons i is ih => exact (ih h.2).trans h.1.address

end Drain

/-- A SETUP transaction has no effect exactly when its bytes do not fill up the parser, from any
state that a run from reset has reached: the check sum of the packet plays no part. -/
theorem noEffect_iff (s₀ : State ABITS p) (i₀ : Inputs) (is mid : List Inputs) (last : Inputs)
    (ht : SetupToken (reached s₀ i₀ is) mid last) (c : Cycles) (rest : List (BitVec 8))
    (hd : SetupData (reached s₀ i₀ (is ++ (mid ++ [last]))) c rest) :
    NoEffect (reached s₀ i₀ (is ++ (mid ++ [last]))) c.all ↔
      ¬ StartsRequest (reached s₀ i₀ (is ++ (mid ++ [last]))) (rest.length - 2) := by
  have hat := ht.atToken
  have hclean := clean_reached s₀ i₀ (is ++ (mid ++ [last]))
  have hsettled := ht.settled (clean_reached s₀ i₀ is)
  rw [← reached_append] at hsettled
  rw [hsettled.noEffect_iff_requests hat.apart (hd.behind hat.between hclean).1]
  exact hat.requests_eq_nil_iff hclean hsettled.entry_start hd

/-- The cycle after reset. -/
abbrev resetCycle : Inputs := busCycle UlpiDecoder.activeCmd

theorem setupToken_reset :
    SetupToken (reached (default : State 3 smallParams) resetCycle [resetCycle])
      (busCycles setupBytes) busEnds := by
  apply setupToken_busCycles
  · exact ⟨by decide +kernel, by decide +kernel⟩
  · have haddr : (run step (reached (default : State 3 smallParams) resetCycle [resetCycle])
        (busCycles setupBytes ++ [busEnds])).usbAddrQ = 0 := by decide +kernel
    rw [haddr]
    exact tokenFor_setupBytes

/-- `SET_ADDRESS`, for the address 42, with a wrong check sum. -/
def setAddress : List (BitVec 8) := [0x00, 0x05, 0x2a, 0x00, 0x00, 0x00, 0x00, 0x00, 0x12, 0x34]

theorem setupData_setAddress :
    SetupData (reached (default : State 3 smallParams) resetCycle
      ([resetCycle] ++ (busCycles setupBytes ++ [busEnds]))) (dataCycles setAddress 4) setAddress :=
  setupData_dataCycles (by decide +kernel) setAddress 4

/-- The first transaction after reset, in which the host asks for an address. -/
theorem noEffect_iff_setAddress :
    NoEffect (reached (default : State 3 smallParams) resetCycle
        ([resetCycle] ++ (busCycles setupBytes ++ [busEnds]))) (dataCycles setAddress 4).all ↔
      ¬ StartsRequest (reached (default : State 3 smallParams) resetCycle
        ([resetCycle] ++ (busCycles setupBytes ++ [busEnds]))) (setAddress.length - 2) :=
  noEffect_iff default resetCycle [resetCycle] (busCycles setupBytes) busEnds setupToken_reset
    (dataCycles setAddress 4) setAddress setupData_setAddress

/-- A `SET_ADDRESS` request with a wrong check sum sets the address. -/
theorem not_alwaysNoEffect :
    ¬ ∀ (s₀ : State 3 smallParams) (i₀ : Inputs) (is mid : List Inputs) (last : Inputs),
      SetupToken (reached s₀ i₀ is) mid last → ∀ (c : Cycles) (rest : List (BitVec 8)),
        Corrupted rest → SetupData (reached s₀ i₀ (is ++ (mid ++ [last]))) c rest →
          NoEffect (reached s₀ i₀ (is ++ (mid ++ [last]))) c.all := by
  intro h
  have hcorrupted : Corrupted setAddress :=
    Or.inr ⟨[0x00, 0x05, 0x2a, 0x00, 0x00, 0x00, 0x00, 0x00], 0x12, 0x34, rfl, rfl,
      by decide +kernel⟩
  have haddr := (h default resetCycle [resetCycle] (busCycles setupBytes) busEnds setupToken_reset
    (dataCycles setAddress 4) setAddress hcorrupted setupData_setAddress).address
  have hset : (run step (reached (default : State 3 smallParams) resetCycle
      ([resetCycle] ++ (busCycles setupBytes ++ [busEnds]))) (dataCycles setAddress 4).all).ctl.adrQ =
        42 := by decide +kernel
  have hbefore : (reached (default : State 3 smallParams) resetCycle
      ([resetCycle] ++ (busCycles setupBytes ++ [busEnds]))).ctl.adrQ = 0 := by decide +kernel
  rw [hset, hbefore] at haddr
  exact absurd haddr (by decide)

end MiscVerilogCores.UsbUlpiTop
