import MiscVerilogCores.Verification.Vpi.Hearing

/-! # Bulk OUT transactions of the host model

The simulator sends the token and the data of a transaction, and the decoder reports them, whatever
wait states the host puts in. -/

namespace MiscVerilogCores.VpiUsb

open Stepping Usb

/-! ## What a step keeps -/

section Types

variable {x next : Transfer} {xfer xfer' : HostXfer} {bus out out' : UlpiBus} {wait : Bool}

theorem driveEop_type (h : driveEop x bus out = some (0, next, out')) : next.type = x.type := by
  unfold driveEop at h
  split at h
  all_goals try split at h
  all_goals simp_all
  all_goals rw [← h.1]

theorem hostDriveEop_type (h : hostDriveEop xfer bus out = .ok (0, xfer', out')) :
    xfer'.type = xfer.type := by
  rw [hostDriveEop] at h
  cases hdrive : driveEop xfer.toTransfer bus out with
  | none => simp [hdrive] at h
  | some r =>
      obtain ⟨result, next, out₁⟩ := r
      simp only [hdrive, Except.ok.injEq, Prod.mk.injEq] at h
      obtain ⟨rfl, rfl, rfl⟩ := h
      exact driveEop_type hdrive

theorem tokenSendStep_type (htoken : xfer.type.IsToken)
    (h : tokenSendStep xfer bus = .ok (0, xfer', out)) : xfer'.type = xfer.type := by
  have hbus : xfer.stage = .noXfer ∨ xfer.stage = .lineIdle ∨ bus.dir = .sig1 := by
    by_contra hno
    simp only [not_or] at hno
    have hlast : xfer.stage.ctorIdx < XferStage.lineIdle.ctorIdx := by
      cases hstage : xfer.stage <;> first | exact absurd hstage hno.2.1 | decide
    rw [tokenSendStep, if_pos ⟨hno.1, hlast, hno.2.2⟩] at h
    simp at h
  have hstep := tokenSendStep_at htoken xfer.stage hbus
  rw [show xfer.at xfer.stage = xfer from rfl, h] at hstep
  split at hstep
  case h_5 =>
    split at hstep
    · simp only [Except.ok.injEq, Prod.mk.injEq] at hstep
      rw [hstep.2.1]
      rfl
    · cases hstep
  case h_6 => exact hostDriveEop_type hstep.symm
  all_goals
    simp only [Except.ok.injEq, Prod.mk.injEq] at hstep
    rw [hstep.2.1]
    rfl

theorem sendByte_type (h : sendByte x bus = some (0, next, out)) : next.type = x.type := by
  unfold sendByte at h
  split at h
  · simp only [Option.some.injEq, Prod.mk.injEq] at h
    rw [← h.2.1]
  · cases h

theorem dataxSendStep_type (h : dataxSendStep x bus = some (0, next, out)) : next.type = x.type := by
  rw [dataxSendStep] at h
  by_cases hseq : checkSeq x ((if x.type = .dnDATA0 then 0xC3 else 0x4B) &&& 0x0f) = true
  · rw [if_pos hseq] at h
    generalize (if x.type = .dnDATA0 then 0xC3 else 0x4B : BitVec 8) = pid at h
    split at h
    case h_3 => simp at h
    all_goals
      split at h
      all_goals try split at h
      all_goals first
        | exact driveEop_type h
        | exact sendByte_type h
        | simp at h
      all_goals rw [← h.1]
  · rw [if_neg hseq] at h
    simp at h

theorem bulkOutData_type (h : bulkOutData wait x bus = some (0, next, out)) : next.type = x.type := by
  unfold bulkOutData at h
  split at h
  · simp only [Option.some.injEq, Prod.mk.injEq] at h
    rw [← h.2.1]
  · exact dataxSendStep_type h

end Types

/-! ## The simulator -/

/-- The run of the simulator, with the buses at the clock edges. -/
abbrev Simulates {τ : Type} (test : TestStep τ) (t : Timers) :
    (ℕ → UtInputs) → UtState τ → List UlpiBus → UtState τ → Prop :=
  Runs (utEdge test t) UtState.bus

section Simulator

variable {τ : Type} {test : TestStep τ} {t : Timers} {s : UtState τ} {i : UtInputs}
  {xfer : HostXfer} {xfer' : BitVec 64 → HostXfer} {bus out : UlpiBus}

theorem usbhBegin_of_busy {host : UsbHost} (hrst : bus.rstN = .sig1) (hop : host.op ≠ .idle) :
    usbhBegin t host bus = ({ host with cycle := host.cycle + 1 }, bus) := by
  simp [usbhBegin, hrst, hop]

theorem usbhStep_bulkOUT {host : UsbHost} {wait : Bool} (hrst : bus.rstN = .sig1)
    (hop : host.op = .bulkOUT) :
    usbhStep t wait host bus =
      { host with cycle := host.cycle + 1 }.after
        (bulkOutStep (host.cycle + 1) wait host.xfer bus) := by
  rw [usbhStep, usbhBegin_of_busy hrst (by simp [hop])]
  simp only [hop]

/-- The simulator steps a test-case, and the host is in the middle of a bulk OUT transaction. -/
structure Transacts (xfer : HostXfer) (bus : UlpiBus) (s : UtState τ) : Prop where
  op : s.op = .test
  hostOp : s.host.op = .bulkOUT
  xfer_eq : s.host.xfer = xfer
  bus_eq : s.bus = bus
  rstN : bus.rstN = .sig1

variable (test t) in
/-- A step of the transaction is one of the simulator. -/
theorem Transacts.edge (h : Transacts xfer bus s) (hi : i.lines = quietLines)
    (hstep : ∀ cycle, bulkOutStep cycle i.wait xfer bus = some (0, xfer' cycle, out)) :
    ∃ s', utEdge test t i s = some s' ∧ s'.tests = s.tests ∧
      Transacts (xfer' (s.host.cycle + 1)) (shellBus out i.lines) s' := by
  have husbh : usbhStep t i.wait s.host s.bus =
      some (0, { s.host with cycle := s.host.cycle + 1, xfer := xfer' (s.host.cycle + 1) }, out) := by
    rw [usbhStep_bulkOUT (h.bus_eq ▸ h.rstN) h.hostOp, h.xfer_eq, h.bus_eq, hstep]
    rfl
  refine ⟨{ s with
    host := { s.host with cycle := s.host.cycle + 1, xfer := xfer' (s.host.cycle + 1) }
    bus := shellBus out i.lines }, ?_, rfl, ⟨h.op, h.hostOp, rfl, rfl, ?_⟩⟩
  · simp [utEdge, utStep, h.op, husbh]
  · simp [shellBus, hi, quietLines]

variable (test t) in
/-- A run of a step function that the transaction follows is one of the simulator. -/
theorem Transacts.simulates {σ : Type} {f : Bool → σ → UlpiBus → Option (ℤ × σ × UlpiBus)}
    (xferOf : σ → HostXfer) (P : σ → Prop)
    (hf : ∀ cycle wait x bus x' out, P x → f wait x bus = some (0, x', out) →
      bulkOutStep cycle wait (xferOf x) bus = some (0, xferOf x', out) ∧ P x')
    {is : ℕ → UtInputs} {x : σ} {buses : List UlpiBus} {last : σ × UlpiBus}
    (hsends : Sends f is (x, bus) buses last) (hquiet : Quiet is) (hx : P x)
    (h : Transacts (xferOf x) bus s) :
    ∃ s', Simulates test t is s buses s' ∧ Transacts (xferOf last.1) last.2 s' ∧
      s'.tests = s.tests := by
  let R (p : σ × UlpiBus) (s' : UtState τ) : Prop :=
    Transacts (xferOf p.1) p.2 s' ∧ P p.1 ∧ s'.tests = s.tests
  have hfollow : ∀ i p s₁ next, i.lines = quietLines → R p s₁ → busStep f i p = some next →
      ∃ s', utEdge test t i s₁ = some s' ∧ R next s' := by
    rintro i ⟨x, bus⟩ s₁ next hi ⟨h, hx, htests⟩ hstep
    obtain ⟨x', out, hone, rfl⟩ := busStep_eq_some hstep
    obtain ⟨s', hedge, htests', hnext⟩ :=
      h.edge test t hi (fun cycle => (hf cycle _ _ _ _ _ hx hone).1)
    exact ⟨s', hedge, hnext, (hf 0 _ _ _ _ _ hx hone).2, htests'.trans htests⟩
  obtain ⟨s', hrun, hlast, -, htests⟩ := hsends.simulate (utEdge test t) UtState.bus
    (fun i => i.lines = quietLines) R (fun p s h => h.1.bus_eq.symm) hfollow hquiet ⟨h, hx, rfl⟩
  exact ⟨s', hrun, hlast, htests⟩

variable (test t) in
/-- The token of the transaction, up to the start of its data. -/
theorem Transacts.token {is : ℕ → UtInputs} {x : HostXfer} {b : UlpiBus} (hquiet : Quiet is)
    (hx : x.type = .out) (hep : x.endpoint.toNat < 16) (h : Transacts (x.at .noXfer) (released b) s)
    (hrst : b.rstN = .sig1) :
    ∃ s', Simulates test t is s (tokenBuses x b) s' ∧ s'.tests = s.tests ∧
      Transacts { x with type := (startSend x.toTransfer).type, stage := .noXfer } (released b) s' := by
  have htoken : x.type.IsToken := Or.inr (Or.inl hx)
  have hf : ∀ cycle wait x bus x' out, x.type = .out → tokenStep wait x bus = some (0, x', out) →
      bulkOutStep cycle wait x bus = some (0, x', out) ∧ x'.type = .out := by
    intro cycle wait x bus x' out hx hstep
    have hok : tokenSendStep x bus = .ok (0, x', out) := by
      rw [tokenStep] at hstep
      cases hsend : tokenSendStep x bus with
      | error e => simp [hsend, Except.toOption] at hstep
      | ok r => simpa [hsend, Except.toOption] using hstep
    refine ⟨?_, (tokenSendStep_type (Or.inr (Or.inl hx)) hok).trans hx⟩
    simp [bulkOutStep, hx, hok, Except.toOption]
  obtain ⟨s₁, hrun, h₁, htests₁⟩ := Transacts.simulates test t id (fun x => x.type = .out) hf
    (token_sends htoken hrst hquiet) hquiet hx h
  have hlast : ∀ cycle, bulkOutStep cycle (is 8).wait (x.at .lineIdle) (released b) =
      some (0, { x with type := (startSend x.toTransfer).type, stage := .noXfer }, released b) := by
    intro cycle
    have htype : (x.at .lineIdle).type = .out := hx
    rw [bulkOutStep, htype]
    simp only [tokenSendStep_lineIdle htoken]
    simp [Except.toOption, HostXfer.seq, hep, startSend]
  obtain ⟨s₂, hedge, htests₂, h₂⟩ := h₁.edge test t (hquiet 8) hlast
  rw [hquiet 8, show released b = { released b with data := ⟨0x00, 0x00⟩ } from rfl,
    shellBus_released hrst] at h₂
  refine ⟨s₂, ?_, htests₂.trans htests₁, h₂⟩
  have htail : Simulates test t (fun k => is (k + 8)) s₁ [s₁.bus] s₂ := Runs.one hedge
  rw [h₁.bus_eq] at htail
  exact hrun.append htail

/-- A step that does not end the packet, and the one that does. -/
theorem bulkOutStep_data {cycle : BitVec 64} {wait : Bool} (xfer : HostXfer) {next : Transfer}
    (htype : xfer.type = .dnDATA0 ∨ xfer.type = .dnDATA1) :
    (bulkOutData wait xfer.toTransfer bus = some (0, next, out) →
      bulkOutStep cycle wait xfer bus = some (0, { xfer with toTransfer := next }, out)) ∧
    (bulkOutData wait xfer.toTransfer bus = some (1, next, out) →
      bulkOutStep cycle wait xfer bus = some (0, setTimer cycle
        { xfer with toTransfer := { next with type := .upACK, stage := .noXfer } }, out)) := by
  rw [bulkOutStep]
  constructor <;> intro h <;> rcases htype with htype | htype <;> rw [htype] <;> simp only [h] <;> rfl

variable (test t) in
/-- The data of the transaction. The host waits for the handshake then. -/
theorem Transacts.data {is : ℕ → UtInputs} {x : HostXfer} {b : UlpiBus} (hquiet : Quiet is)
    (hvalid : SeqValid x.toTransfer) (hptr : x.txPtr = 0) (hlen : x.txLen ≤ maxPacketSize)
    (h : Transacts { x with type := (startSend x.toTransfer).type, stage := .noXfer } (released b) s)
    (hrst : b.rstN = .sig1) :
    ∃ buses s', Simulates test t is s buses s' ∧ s'.tests = s.tests ∧
      PacketBuses (sendPid x.toTransfer :: payload x.toTransfer ++ [sentCrc1 x.toTransfer, x.crc2])
        buses ∧ buses.length ≤ 2 * x.txLen + 10 ∧
      ∃ cycle, Transacts (setTimer cycle
        { x with type := .upACK, stage := .noXfer, txPtr := x.txLen }) (released b) s' := by
  let xferOf (next : Transfer) : HostXfer := { x with toTransfer := next }
  have hstart : { x with type := (startSend x.toTransfer).type, stage := .noXfer } =
      xferOf (sender x.toTransfer .noXfer 0) := by
    simp [xferOf, sender, startSend, hptr]
  have hf : ∀ cycle wait next bus next' out, next.type = .dnDATA0 ∨ next.type = .dnDATA1 →
      bulkOutData wait next bus = some (0, next', out) →
      bulkOutStep cycle wait (xferOf next) bus = some (0, xferOf next', out) ∧
        (next'.type = .dnDATA0 ∨ next'.type = .dnDATA1) := by
    intro cycle wait next bus next' out htype hstep
    exact ⟨(bulkOutStep_data (xferOf next) htype).1 hstep, by rwa [bulkOutData_type hstep]⟩
  have htype : ∀ stage sent, (sender x.toTransfer stage sent).type = .dnDATA0 ∨
      (sender x.toTransfer stage sent).type = .dnDATA1 := by
    intro stage sent
    rcases hvalid with hv | hv <;> simp [sender, startSend, hv]
  obtain ⟨buses, hsends, hpacket, hlength⟩ := datax_sends hvalid hrst hlen hquiet
  rw [hstart] at h
  obtain ⟨s₁, hrun, h₁, htests₁⟩ := Transacts.simulates test t xferOf _ hf hsends
    hquiet (htype _ _) h
  have hlast : ∀ cycle, bulkOutStep cycle (is buses.length).wait
      (xferOf (sender x.toTransfer .lineIdle x.txLen)) (released b) =
        some (0, setTimer cycle { x with type := .upACK, stage := .noXfer, txPtr := x.txLen },
          released b) := by
    intro cycle
    exact (bulkOutStep_data (xferOf _) (htype _ _)).2 (bulkOutData_lineIdle hvalid _ b)
  obtain ⟨s₂, hedge, htests₂, h₂⟩ := h₁.edge test t (hquiet _) hlast
  rw [hquiet, show released b = { released b with data := ⟨0x00, 0x00⟩ } from rfl,
    shellBus_released hrst] at h₂
  have htail : Simulates test t (fun k => is (k + buses.length)) s₁ [s₁.bus] s₂ :=
    Runs.one (by simpa using hedge)
  rw [h₁.bus_eq] at htail
  refine ⟨_, s₂, hrun.append htail, htests₂.trans htests₁, hpacket, ?_, _, h₂⟩
  simp only [List.length_append, List.length_singleton]
  omega

end Simulator

/-! ## The transaction on the bus of the core -/

/-- What the decoder reports of the transaction. -/
def outReports (addr : BitVec 7) (endp pid : BitVec 4) (data : List (BitVec 8)) :
    List UlpiDecoder.Report :=
  .token usbpidOut addr endp :: data.map (.byte pid) ++ [.received pid]

/-- The PID of the data, by the sequence bit of the end-point. -/
def dataPid (seq : Bit) : BitVec 4 := if seq = .sig0 then Usb.usbpidData0 else Usb.usbpidData1

section Transaction

variable (host : UsbHost) (ep : BitVec 8) {data : List (BitVec 8)}

theorem payload_bulkOutXfer (hlen : data.length ≤ maxPacketSize) :
    payload (bulkOutXfer host ep data).xfer.toTransfer = data := by
  apply List.ext_getElem?
  intro k
  by_cases hk : k < data.length
  · have hmax : k < maxPacketSize := Nat.lt_of_lt_of_le hk hlen
    simp [payload, bulkOutXfer, hk, hmax]
  · simp [payload, bulkOutXfer, hk]

/-- The address and the end-point go into the token side by side. -/
theorem tokenData_fields (addr ep : BitVec 8) :
    let dat : BitVec 16 := (addr.setWidth 16 &&& (0x7F : BitVec 16)) ||| ((ep &&& 0x0F).setWidth 16 <<< 7)
    (dat.setWidth 7 : BitVec 7) = addr.setWidth 7 ∧ dat.extractLsb' 7 4 = ep.setWidth 4 := by
  have haddr : ∀ k < 16, (0x7F : BitVec 16).getLsbD k = decide (k < 7) := by decide
  have hep : ∀ k < 8, (0x0F : BitVec 8).getLsbD k = decide (k < 4) := by decide
  refine ⟨?_, ?_⟩ <;> apply BitVec.eq_of_getLsbD_eq <;> intro k hk
  · rw [BitVec.getLsbD_setWidth, BitVec.getLsbD_or, BitVec.getLsbD_and, BitVec.getLsbD_shiftLeft,
      haddr k (by omega)]
    simp [hk, show k < 16 by omega]
  · rw [BitVec.getLsbD_extractLsb', BitVec.getLsbD_or, BitVec.getLsbD_and, BitVec.getLsbD_shiftLeft,
      haddr (7 + k) (by omega), Nat.add_sub_cancel_left, BitVec.getLsbD_setWidth, BitVec.getLsbD_setWidth,
      BitVec.getLsbD_and, hep k (by omega)]
    simp [hk, show 7 + k < 16 by omega, show k < 16 by omega]

theorem tokenFor_bulkOutXfer (data : List (BitVec 8)) :
    UlpiDecoder.TokenFor usbpidOut (host.addr.setWidth 7) (ep.setWidth 4)
      [transferTypeToPid (bulkOutXfer host ep data).xfer, (bulkOutXfer host ep data).xfer.tok1,
        (bulkOutXfer host ep data).xfer.tok2] := by
  obtain ⟨haddr, hep⟩ := tokenData_fields host.addr ep
  have htoken := UsbCrc.tokenFor_crc5Calc usbpidOut
    ((host.addr.setWidth 16 &&& (0x7F : BitVec 16)) ||| ((ep &&& 0x0F).setWidth 16 <<< 7))
  rwa [haddr, hep] at htoken

/-- The bytes behind the PID are the data with their check sum. -/
theorem packet_bulkOutXfer (hlen : data.length ≤ maxPacketSize) :
    payload (bulkOutXfer host ep data).xfer.toTransfer ++
        [sentCrc1 (bulkOutXfer host ep data).xfer.toTransfer, (bulkOutXfer host ep data).xfer.crc2] =
      UsbCrc.packet data := by
  have hcrc : sentCrc1 (bulkOutXfer host ep data).xfer.toTransfer =
      (UsbCrc.crc16Calc data).setWidth 8 := by
    by_cases hnil : data = []
    · have hzero : (UsbCrc.crc16Calc []).setWidth 8 = zdpCrc16Byte1 := by decide
      simp [sentCrc1, bulkOutXfer, hnil, hzero]
    · simp [sentCrc1, bulkOutXfer, hnil]
  simp only [payload_bulkOutXfer host ep hlen, hcrc]
  rfl

theorem sendPid_bulkOutXfer (hseq : host.xfer.epSeq (ep.setWidth 4) = .sig0 ∨
    host.xfer.epSeq (ep.setWidth 4) = .sig1) :
    sendPid (bulkOutXfer host ep data).xfer.toTransfer =
      UlpiDecoder.pidByte (dataPid (host.xfer.epSeq (ep.setWidth 4))) := by
  have hx : ((bulkOutXfer host ep data).xfer.epSeq
      ((bulkOutXfer host ep data).xfer.endpoint.setWidth 4)) = host.xfer.epSeq (ep.setWidth 4) := rfl
  rw [sendPid, startSend, hx]
  rcases hseq with h | h <;> simp only [h] <;> rfl

/-- The host sends the token and the data of a bulk OUT transaction, to a link that leaves the bus to
it, and the decoder reports them: the token once, with the address and the end-point, then the data
in their order, and that the packet was received. Wait states make no difference. -/
theorem bulkOut_heard {τ : Type} (test : TestStep τ) (t : Timers) (tests : τ) (b : UlpiBus)
    (hrst : b.rstN = .sig1) (hep : ep.toNat < 16) (hlen : data.length ≤ maxPacketSize)
    (hseq : host.xfer.epSeq (ep.setWidth 4) = .sig0 ∨ host.xfer.epSeq (ep.setWidth 4) = .sig1)
    (is : ℕ → UtInputs) (hquiet : Quiet is) :
    ∃ buses s, Simulates test t is ⟨.test, bulkOutXfer host ep data, tests, released b⟩ buses s ∧
      s.op = .test ∧ s.host.xfer.type = .upACK ∧ buses.length ≤ 2 * data.length + 19 ∧
      ∀ s₀ i₀ js₀ js, (UlpiDecoder.reached s₀ i₀ js₀).cycQ = false →
        List.Forall₂ Sampled buses js →
        UlpiDecoder.reported (UlpiDecoder.reached s₀ i₀ js₀) js =
          outReports (host.addr.setWidth 7) (ep.setWidth 4)
            (dataPid (host.xfer.epSeq (ep.setWidth 4))) data := by
  have hstart : Transacts ((bulkOutXfer host ep data).xfer.at .noXfer) (released b)
      ⟨.test, bulkOutXfer host ep data, tests, released b⟩ := ⟨rfl, rfl, rfl, rfl, hrst⟩
  obtain ⟨s₁, htoken, -, h₁⟩ := hstart.token test t hquiet rfl hep hrst
  obtain ⟨buses, s₂, hdata, -, hpacket, hlength, cycle, h₂⟩ := h₁.data test t
    (x := (bulkOutXfer host ep data).xfer) (hquiet.shift 9) hseq rfl hlen hrst
  refine ⟨_, s₂, htoken.append hdata, h₂.op, ?_, ?_, ?_⟩
  · rw [h₂.xfer_eq]
    rfl
  · rw [List.length_append]
    have hnine : (tokenBuses (bulkOutXfer host ep data).xfer b).length = 9 := rfl
    have htx : (bulkOutXfer host ep data).xfer.txLen = data.length := rfl
    omega
  · intro s₀ i₀ js₀ js hcyc hjs
    obtain ⟨js₁, js₂, rfl, hjs₁, hjs₂⟩ := forall₂_append_left hjs
    have hhunting := UlpiDecoder.clean_reached s₀ i₀ js₀ hcyc
    obtain ⟨d₁, mid₁, last₁, hs₁, hclean₁, hmid₁, hlast₁, hbytes₁, hreported₁, hhunting₁⟩ :=
      (packetBuses_token _ b).heard hjs₁ hhunting
    obtain ⟨d₂, mid₂, last₂, hs₂, hclean₂, hmid₂, hlast₂, hbytes₂, hreported₂, -⟩ :=
      hpacket.heard hjs₂ hhunting₁
    have hfor := tokenFor_bulkOutXfer host ep data
    rw [← hbytes₁] at hfor
    rw [List.cons_append, packet_bulkOutXfer host ep hlen, sendPid_bulkOutXfer host ep hseq] at hbytes₂
    have hclass : UlpiDecoder.pidClass (dataPid (host.xfer.epSeq (ep.setWidth 4))) =
        UlpiDecoder.pidData := by
      rcases hseq with h | h <;> rw [h] <;> decide
    have hcheck : crc16s (UsbCrc.packet data) = 0x800d :=
      (UsbCrc.crc16Check_iff _).mp (UsbCrc.crc16Check_packet data)
    have htake : (UsbCrc.packet data).take ((UsbCrc.packet data).length - 2) = data := by
      simp [UsbCrc.packet]
    rw [UlpiDecoder.reported_append, hreported₁, hreported₂,
      UlpiDecoder.reported_token hs₁ hclean₁ hmid₁ hlast₁ hfor (by decide) (by decide),
      UlpiDecoder.reported_data hs₂ hclean₂ hmid₂ hlast₂ hclass hbytes₂, if_pos hcheck, htake]
    rfl

end Transaction

end MiscVerilogCores.VpiUsb
