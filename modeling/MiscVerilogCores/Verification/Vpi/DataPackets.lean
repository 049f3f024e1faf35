import Mathlib.Tactic.SplitIfs
import MiscVerilogCores.Model.VpiUsb

/-! # DATAx packets between the VPI models

A packet arrives if the host puts no wait state into it. The receiver takes the RX CMD of a wait
state for the end of the packet, or for the RX CMD that the packet starts with. -/

namespace MiscVerilogCores.VpiUsb

/-! ## Exchanges -/

section Exchanges

variable {waits : ℕ → Bool} {l l' next : Link}

/-- The sender reports completion after some number of cycles, and neither model has failed. -/
def Completes (waits : ℕ → Bool) (l l' : Link) : Prop :=
  ∃ cycles, exchange waits cycles l = some (1, l')

theorem completes_of_running (h : linkStep (waits 0) l = some (0, next)) :
    Completes waits l l' ↔ Completes (fun k => waits (k + 1)) next l' := by
  constructor
  · rintro ⟨cycles, hc⟩
    cases cycles with
    | zero => simp [exchange] at hc
    | succ cycles => exact ⟨cycles, by simpa [exchange, h] using hc⟩
  · rintro ⟨cycles, hc⟩
    exact ⟨cycles + 1, by simpa [exchange, h] using hc⟩

theorem completes_of_done (h : linkStep (waits 0) l = some (1, next)) :
    Completes waits l l' ↔ next = l' := by
  constructor
  · rintro ⟨cycles, hc⟩
    cases cycles with
    | zero => simp [exchange] at hc
    | succ cycles => simpa [exchange, h] using hc
  · rintro rfl
    exact ⟨1, by simp [exchange, h]⟩

theorem not_completes_of_failed (h : linkStep (waits 0) l = some (-1, next)) :
    ¬Completes waits l l' := by
  rintro ⟨cycles, hc⟩
  cases cycles with
  | zero => simp [exchange] at hc
  | succ cycles => simp [exchange, h] at hc

/-- What every cycle keeps holds at the end. -/
theorem Completes.invariant {P : Link → Prop}
    (hstep : ∀ wait l result l', P l → linkStep wait l = some (result, l') → P l')
    (h : Completes waits l l') (hl : P l) : P l' := by
  obtain ⟨cycles, hc⟩ := h
  induction cycles generalizing waits l with
  | zero => simp [exchange] at hc
  | succ cycles ih =>
      rw [exchange] at hc
      cases hlink : linkStep (waits 0) l with
      | none => simp [hlink] at hc
      | some next =>
          obtain ⟨result, next⟩ := next
          have hnext := hstep _ _ _ _ hl hlink
          by_cases hr : result = 0
          · exact ih hnext (by simpa [hlink, hr] using hc)
          · simp only [hlink, Option.bind_eq_bind, Option.bind_some, hr, if_false] at hc
            have heq : next = l' := by simp_all
            exact heq ▸ hnext

end Exchanges

/-! ## The cycles of a packet -/

variable (x : Transfer) (b : UlpiBus) (f : UsbFunc)

/-- The bytes that are to be sent. -/
def payload : List (BitVec 8) := x.tx.toList.take x.txLen

def sender (stage : XferStage) (sent : ℕ) : Transfer :=
  { startSend x with stage := stage, txPtr := sent }

/-- The bus while the PHY drives it. -/
def driven (nxt : Bit) (data : Byte) : UlpiBus :=
  { b with dir := .sig1, nxt := nxt, stp := .sig0, data := data }

def waiting (stage : XferStage) : UsbFunc :=
  { f with xfer := { f.xfer with stage := stage } }

def receiving (rx : Vector (BitVec 8) maxPacketSize) (received : ℕ) : UsbFunc :=
  { f with xfer := { f.xfer with stage := .dataxPID, rx := rx, rxPtr := received, rxLen := 0 } }

/-- The receiver after the RX CMD that it takes for the end of the packet. -/
def ended (rx : Vector (BitVec 8) maxPacketSize) (received : ℕ) (type : XferType) : UsbFunc :=
  { f with
    step := f.step + 1
    xfer := { f.xfer with
      stage := .endRXCMD, type := type, rx := rx, rxPtr := received, rxLen := received - 2 } }

def sendPid : BitVec 8 := if (startSend x).type = .dnDATA0 then 0xC3 else 0x4B

/-- The sequence bits of the two models are a valid level, and the same. -/
structure Sequenced : Prop where
  valid : x.epSeq (x.endpoint.setWidth 4) = .sig0 ∨ x.epSeq (x.endpoint.setWidth 4) = .sig1
  same : f.xfer.epSeq (f.xfer.endpoint.setWidth 4) = x.epSeq (x.endpoint.setWidth 4)

variable {x b f}

theorem Sequenced.checkSeq_sender (h : Sequenced x f) (stage : XferStage) (sent : ℕ) :
    checkSeq (sender x stage sent) (sendPid x &&& 0x0f) = true := by
  rcases h.valid with hv | hv <;>
    simp [checkSeq, sender, startSend, sendPid, hv, usbpidDATA0, usbpidDATA1]

/-- A step of the sender is one of its stage: the sequence bit is right. -/
theorem Sequenced.dataxSendStep_sender (h : Sequenced x f) (stage : XferStage) (sent : ℕ)
    (bus : UlpiBus) :
    dataxSendStep (sender x stage sent) bus =
      match stage with
      | .noXfer =>
          if bus.data.a ≠ 0x00 ∨ bus.stp ≠ .sig0 then some (-1, sender x .noXfer sent, bus)
          else
            some (0, sender x .assertDir sent,
              { bus with dir := .sig1, nxt := .sig1, data := ⟨0x00, 0xff⟩ })
      | .assertDir =>
          some (0, sender x .initRXCMD sent, { bus with nxt := .sig0, data := ⟨0x5D, 0x00⟩ })
      | .initRXCMD =>
          some (0, sender x .dataxPID sent, { bus with nxt := .sig1, data := ⟨sendPid x, 0x00⟩ })
      | .dataxPID =>
          if x.txLen > 0 then sendByte (sender x .dataxPID sent) bus
          else
            some (0, sender x .dataxCRC1 sent,
              { bus with nxt := .sig1, data := ⟨zdpCrc16Byte1, 0x00⟩ })
      | .dataxBody =>
          if sent < x.txLen then sendByte (sender x .dataxBody sent) bus
          else
            some (0, sender x .dataxCRC1 sent, { bus with nxt := .sig1, data := ⟨x.crc1, 0x00⟩ })
      | .dataxCRC1 =>
          some (0, sender x .dataxCRC2 sent, { bus with nxt := .sig1, data := ⟨x.crc2, 0x00⟩ })
      | stage => driveEop (sender x stage sent) bus bus := by
  have hseq := h.checkSeq_sender stage sent
  have hpid : sendPid x = if (sender x stage sent).type = .dnDATA0 then 0xC3 else 0x4B := rfl
  rw [dataxSendStep, ← hpid, if_pos hseq]
  rcases h.valid with hv | hv <;> cases stage <;> simp [sender, startSend, hv]

/-- A cycle in which the sender steps, and both go on. -/
theorem linkStep_of_steps {wait : Bool} {l : Link} {result : ℤ} {xfer : Transfer} {bus : UlpiBus}
    {func : UsbFunc} (hno : ¬(l.xfer.txPtr < l.xfer.txLen ∧ l.bus.nxt = .sig1 ∧ wait = true))
    (hsend : dataxSendStep l.xfer l.bus = some (result, xfer, bus)) (hresult : 0 ≤ result)
    (hrecv : fnDataxRecvStep l.func bus = some (0, func, bus)) :
    linkStep wait l = some (result, ⟨xfer, bus, func⟩) := by
  simp [linkStep, bulkOutData, if_neg hno, hsend, hrecv, Int.not_lt.mpr hresult]

/-- A cycle in which the receiver fails. -/
theorem linkStep_of_failure {wait : Bool} {l : Link} {result : ℤ} {xfer : Transfer} {bus : UlpiBus}
    {func : UsbFunc} (hno : ¬(l.xfer.txPtr < l.xfer.txLen ∧ l.bus.nxt = .sig1 ∧ wait = true))
    (hsend : dataxSendStep l.xfer l.bus = some (result, xfer, bus)) (hresult : 0 ≤ result)
    (hrecv : fnDataxRecvStep l.func bus = some (-1, func, bus)) :
    linkStep wait l = some (-1, ⟨xfer, bus, func⟩) := by
  simp [linkStep, bulkOutData, if_neg hno, hsend, hrecv, Int.not_lt.mpr hresult]

/-- A cycle in which the host puts a wait state in. -/
theorem linkStep_of_wait {l : Link} (hnxt : l.bus.nxt = .sig1) (hptr : l.xfer.txPtr < l.xfer.txLen)
    {func : UsbFunc} {bus : UlpiBus}
    (hrecv : fnDataxRecvStep l.func
      { l.bus with nxt := .sig0, data := { l.bus.data with a := 0x5D } } = some (0, func, bus)) :
    linkStep true l = some (0, ⟨l.xfer, bus, func⟩) := by
  rw [linkStep, bulkOutData, if_pos ⟨hptr, hnxt, rfl⟩]
  simp only [Option.bind_eq_bind, Option.bind_some]
  rw [hrecv]
  rfl

/-- A byte on the bus is stored. -/
theorem receive_byte (rx : Vector (BitVec 8) maxPacketSize) {received : ℕ}
    (hbound : received < maxPacketSize) (data : Byte) :
    fnDataxRecvStep (receiving f rx received) (driven b .sig1 data) =
      some (0, receiving f (rx.set received data.a) (received + 1), driven b .sig1 data) := by
  simp [fnDataxRecvStep, driven, receiving, hbound]

theorem take_set_of_le (rx : Vector (BitVec 8) maxPacketSize) {n i : ℕ} (hi : i < maxPacketSize)
    (hn : n ≤ i) (v : BitVec 8) : (rx.set i v).toList.take n = rx.toList.take n := by
  rw [Vector.toList_set, List.take_set_of_le hn]

theorem take_set_succ (rx : Vector (BitVec 8) maxPacketSize) {n : ℕ} (hn : n < maxPacketSize)
    (v : BitVec 8) : (rx.set n v).toList.take (n + 1) = rx.toList.take n ++ [v] := by
  rw [List.take_add_one, take_set_of_le rx hn (Nat.le_refl n)]
  simp [Vector.toList_set, hn]

section Cycles

variable (h : Sequenced x f) (wait : Bool)

include h

theorem start_step : linkStep wait (start x b f) =
    some (0, ⟨sender x .assertDir 0, driven b .sig1 ⟨0x00, 0xff⟩, waiting f .assertDir⟩) := by
  apply linkStep_of_steps
  · simp [start]
  · refine (h.dataxSendStep_sender .noXfer 0 _).trans ?_
    simp [start, driven]
  · exact Int.le_refl 0
  · simp [fnDataxRecvStep, start, driven, waiting]

theorem assertDir_step {wait : Bool} (hno : x.txLen = 0 ∨ wait = false) :
    linkStep wait
      ⟨sender x .assertDir 0, driven b .sig1 ⟨0x00, 0xff⟩, waiting f .assertDir⟩ =
    some (0, ⟨sender x .initRXCMD 0, driven b .sig0 ⟨0x5D, 0x00⟩, waiting f .initRXCMD⟩) := by
  apply linkStep_of_steps
  · rcases hno with hzero | hwait
    · simp [sender, startSend, hzero]
    · simp [hwait]
  · exact h.dataxSendStep_sender .assertDir 0 _
  · exact Int.le_refl 0
  · simp [fnDataxRecvStep, driven, waiting, rxEventMask, rxActiveBits, XferStage.ctorIdx]

theorem initRXCMD_step :
    linkStep wait
      ⟨sender x .initRXCMD 0, driven b .sig0 ⟨0x5D, 0x00⟩, waiting f .initRXCMD⟩ =
    some (0, ⟨sender x .dataxPID 0, driven b .sig1 ⟨sendPid x, 0x00⟩, receiving f f.xfer.rx 0⟩) := by
  apply linkStep_of_steps
  · simp [driven]
  · exact h.dataxSendStep_sender .initRXCMD 0 _
  · exact Int.le_refl 0
  · rcases h.valid with hv | hv <;>
      simp [fnDataxRecvStep, driven, waiting, receiving, checkPid, checkSeq, sendPid, startSend, hv,
        h.same, usbpidDATA0, usbpidDATA1, XferStage.ctorIdx]

/-- A byte of the payload is sent and stored. -/
theorem byte_step {sent : ℕ} (hsent : sent < x.txLen) (hbound : sent < maxPacketSize) (data : Byte)
    (rx : Vector (BitVec 8) maxPacketSize) :
    linkStep false
      ⟨sender x (if sent = 0 then .dataxPID else .dataxBody) sent, driven b .sig1 data,
        receiving f rx sent⟩ =
    some (0, ⟨sender x .dataxBody (sent + 1), driven b .sig1 ⟨x.tx[sent], 0x00⟩,
      receiving f (rx.set sent x.tx[sent]) (sent + 1)⟩) := by
  apply linkStep_of_steps
  · simp
  · refine (h.dataxSendStep_sender _ sent _).trans ?_
    have hpos : 0 < x.txLen := Nat.lt_of_le_of_lt (Nat.zero_le sent) hsent
    by_cases hz : sent = 0
    · simp [hz, hpos, sendByte, sender, startSend, driven, maxPacketSize]
    · simp [hz, hsent, sendByte, sender, startSend, driven, hbound]
  · exact Int.le_refl 0
  · exact receive_byte rx hbound _

/-- The first byte of the CRC follows the payload. -/
theorem crc1_step (hbound : x.txLen < maxPacketSize) (data : Byte)
    (rx : Vector (BitVec 8) maxPacketSize) :
    ∃ crc1 : BitVec 8, linkStep wait
      ⟨sender x (if x.txLen = 0 then .dataxPID else .dataxBody) x.txLen, driven b .sig1 data,
        receiving f rx x.txLen⟩ =
    some (0, ⟨sender x .dataxCRC1 x.txLen, driven b .sig1 ⟨crc1, 0x00⟩,
      receiving f (rx.set x.txLen crc1) (x.txLen + 1)⟩) := by
  refine ⟨if x.txLen = 0 then zdpCrc16Byte1 else x.crc1, ?_⟩
  apply linkStep_of_steps
  · simp [sender, startSend]
  · refine (h.dataxSendStep_sender _ x.txLen _).trans ?_
    by_cases hz : x.txLen = 0 <;> simp [hz, driven]
  · exact Int.le_refl 0
  · exact receive_byte rx hbound _

theorem crc2_step (hbound : x.txLen + 1 < maxPacketSize) (data : Byte)
    (rx : Vector (BitVec 8) maxPacketSize) :
    linkStep wait ⟨sender x .dataxCRC1 x.txLen, driven b .sig1 data, receiving f rx (x.txLen + 1)⟩ =
    some (0, ⟨sender x .dataxCRC2 x.txLen, driven b .sig1 ⟨x.crc2, 0x00⟩,
      receiving f (rx.set (x.txLen + 1) x.crc2) (x.txLen + 2)⟩) := by
  apply linkStep_of_steps
  · simp [sender, startSend]
  · exact h.dataxSendStep_sender .dataxCRC1 x.txLen _
  · exact Int.le_refl 0
  · exact receive_byte rx hbound _

/-- The RX CMD that ends the packet has its lowest bit clear: the receiver goes on. -/
theorem crc2_eop (crc2 : BitVec 8) (rx : Vector (BitVec 8) maxPacketSize) :
    linkStep wait ⟨sender x .dataxCRC2 x.txLen, driven b .sig1 ⟨crc2, 0x00⟩,
      receiving f rx (x.txLen + 2)⟩ =
    some (0, ⟨sender x .endRXCMD x.txLen, driven b .sig0 ⟨0x4C, 0x00⟩,
      receiving f rx (x.txLen + 2)⟩) := by
  apply linkStep_of_steps
  · simp [sender, startSend]
  · refine (h.dataxSendStep_sender .dataxCRC2 x.txLen _).trans ?_
    simp [driveEop, sender, driven]
  · exact Int.le_refl 0
  · simp [fnDataxRecvStep, driven, receiving, rxEventMask, rxActiveBits]

theorem endRXCMD_step (rx : Vector (BitVec 8) maxPacketSize) :
    linkStep wait ⟨sender x .endRXCMD x.txLen, driven b .sig0 ⟨0x4C, 0x00⟩,
      receiving f rx (x.txLen + 2)⟩ =
    some (0, ⟨sender x .eop x.txLen, driven b .sig0 ⟨0x4D, 0x00⟩,
      ended f rx (x.txLen + 2) f.xfer.type⟩) := by
  apply linkStep_of_steps
  · simp [sender, startSend]
  · refine (h.dataxSendStep_sender .endRXCMD x.txLen _).trans ?_
    simp [driveEop, sender, driven]
  · exact Int.le_refl 0
  · simp [fnDataxRecvStep, driven, receiving, ended, rxEventMask, rxActiveBits]

/-- The bus is given back. -/
theorem eop_step (rx : Vector (BitVec 8) maxPacketSize) :
    linkStep wait ⟨sender x .eop x.txLen, driven b .sig0 ⟨0x4D, 0x00⟩,
      ended f rx (x.txLen + 2) f.xfer.type⟩ =
    some (0, ⟨sender x .lineIdle x.txLen,
      { driven b .sig0 ⟨0x00, 0xFF⟩ with dir := .sig0 }, ended f rx (x.txLen + 2) .upACK⟩) := by
  apply linkStep_of_steps
  · simp [sender, startSend]
  · refine (h.dataxSendStep_sender .eop x.txLen _).trans ?_
    simp [driveEop, sender, driven]
  · exact Int.le_refl 0
  · simp [fnDataxRecvStep, ended]

theorem lineIdle_step (rx : Vector (BitVec 8) maxPacketSize) :
    linkStep wait ⟨sender x .lineIdle x.txLen,
      { driven b .sig0 ⟨0x00, 0xFF⟩ with dir := .sig0 }, ended f rx (x.txLen + 2) .upACK⟩ =
    some (1, ⟨{ sender x .noXfer x.txLen with type := .xferIdle },
      { driven b .sig0 ⟨0x00, 0xFF⟩ with dir := .sig0 }, ended f rx (x.txLen + 2) .upACK⟩) := by
  apply linkStep_of_steps
  · simp [sender, startSend]
  · refine (h.dataxSendStep_sender .lineIdle x.txLen _).trans ?_
    simp [driveEop, sender, driven]
  · decide
  · simp [fnDataxRecvStep, ended]

end Cycles

/-! ## Delivery -/

variable (x f) in
/-- The receiver has got the packet: exactly the bytes of the payload. -/
structure Delivered (l : Link) : Prop where
  stage : l.func.xfer.stage = .endRXCMD
  type : l.func.xfer.type = .upACK
  step : l.func.step = f.step + 1
  rxLen : l.func.xfer.rxLen = x.txLen
  rx : l.func.xfer.rx.toList.take x.txLen = payload x

variable (x b f) in
/-- The sender reports completion, and the receiver has the packet. -/
def Transferred (waits : ℕ → Bool) : Prop :=
  ∃ l, Completes waits (start x b f) l ∧ Delivered x f l

/-- After the last byte of the payload no wait state is put in. -/
theorem delivered_of_sent (h : Sequenced x f) (hlen : x.txLen ≤ 510) (waits : ℕ → Bool) (data : Byte)
    {rx : Vector (BitVec 8) maxPacketSize} (hrx : rx.toList.take x.txLen = payload x) :
    ∃ l, Completes waits ⟨sender x (if x.txLen = 0 then .dataxPID else .dataxBody) x.txLen,
      driven b .sig1 data, receiving f rx x.txLen⟩ l ∧ Delivered x f l := by
  have hone : x.txLen < maxPacketSize := Nat.lt_of_le_of_lt hlen (by decide)
  have htwo : x.txLen + 1 < maxPacketSize := Nat.lt_of_le_of_lt (Nat.succ_le_succ hlen) (by decide)
  obtain ⟨crc1, hcrc1⟩ := crc1_step (b := b) h (waits 0) hone data rx
  refine ⟨_, (completes_of_running hcrc1).mpr <|
    (completes_of_running (crc2_step h _ htwo _ _)).mpr <|
    (completes_of_running (crc2_eop h _ _ _)).mpr <|
    (completes_of_running (endRXCMD_step h _ _)).mpr <|
    (completes_of_running (eop_step h _ _)).mpr <|
    (completes_of_done (lineIdle_step h _ _)).mpr rfl, rfl, rfl, rfl, ?_, ?_⟩
  · simp [ended]
  · simp only [ended]
    rw [take_set_of_le _ htwo (Nat.le_succ _), take_set_of_le _ hone (Nat.le_refl _), hrx]

/-! ## Wait states -/

variable (x) in
/-- The receiver has taken a wait state for the end of the packet. -/
structure Truncated (l : Link) : Prop where
  stage : l.func.xfer.stage = .endRXCMD
  rxLen : l.func.xfer.rxLen < x.txLen

theorem Truncated.next {l l' : Link} {wait : Bool} {result : ℤ} (h : Truncated x l)
    (hstep : linkStep wait l = some (result, l')) : Truncated x l' := by
  rw [linkStep] at hstep
  cases hsend : bulkOutData wait l.xfer l.bus with
  | none => simp [hsend] at hstep
  | some sent =>
      obtain ⟨r, xfer, bus⟩ := sent
      have hrecv : fnDataxRecvStep l.func bus =
          some (0, { l.func with xfer := { l.func.xfer with type := .upACK } }, bus) := by
        simp [fnDataxRecvStep, h.stage]
      simp only [hsend, Option.bind_eq_bind, Option.bind_some, hrecv] at hstep
      by_cases hneg : r < 0
      · simp [hneg] at hstep
        rw [← hstep.2]
        exact ⟨h.stage, h.rxLen⟩
      · simp [hneg] at hstep
        rw [← hstep.2]
        exact ⟨h.stage, h.rxLen⟩

theorem Truncated.not_delivered {waits : ℕ → Bool} {l l' : Link} (h : Truncated x l)
    (hl : Completes waits l l') : ¬Delivered x f l' := by
  intro hd
  have hend := hl.invariant (fun _ _ _ _ hl hstep => hl.next hstep) h
  have hlt := hend.rxLen
  rw [hd.rxLen] at hlt
  exact Int.lt_irrefl _ hlt

/-- The lowest bit of the RX CMD of a wait state is set. -/
theorem wait_step {sent : ℕ} (hsent : sent < x.txLen) (data : Byte) (stage : XferStage)
    (rx : Vector (BitVec 8) maxPacketSize) :
    ∃ l, linkStep true ⟨sender x stage sent, driven b .sig1 data, receiving f rx sent⟩ =
      some (0, l) ∧ Truncated x l := by
  have hrecv : fnDataxRecvStep (receiving f rx sent) (driven b .sig0 { data with a := 0x5D }) =
      some (0, ended f rx sent f.xfer.type, driven b .sig0 { data with a := 0x5D }) := by
    simp [fnDataxRecvStep, driven, receiving, ended, rxEventMask, rxActiveBits]
  refine ⟨_, linkStep_of_wait rfl hsent hrecv, rfl, ?_⟩
  · simp only [ended]
    omega

/-- The rest of the payload is delivered if no wait state comes into it. -/
theorem sending_iff (h : Sequenced x f) (hlen : x.txLen ≤ 510) {sent left : ℕ}
    (hleft : sent + left = x.txLen) (waits : ℕ → Bool) (data : Byte)
    {rx : Vector (BitVec 8) maxPacketSize} (hrx : rx.toList.take sent = (payload x).take sent) :
    (∃ l, Completes waits ⟨sender x (if sent = 0 then .dataxPID else .dataxBody) sent,
      driven b .sig1 data, receiving f rx sent⟩ l ∧ Delivered x f l) ↔
      ∀ k < left, waits k = false := by
  induction left generalizing sent waits data rx with
  | zero =>
      have hall : sent = x.txLen := hleft
      subst hall
      have hfull : (payload x).take x.txLen = payload x := by
        rw [payload, List.take_take, Nat.min_self]
      exact iff_of_true (delivered_of_sent h hlen waits data (hrx.trans hfull)) (by simp)
  | succ left ih =>
      have hsent : sent < x.txLen := by omega
      have hbound : sent < maxPacketSize := Nat.lt_trans hsent (Nat.lt_of_le_of_lt hlen (by decide))
      cases hwait : waits 0
      · have hstep := byte_step (b := b) h hsent hbound data rx
        rw [← hwait] at hstep
        have hbyte : (payload x)[sent]? = some x.tx[sent] := by
          rw [payload, List.getElem?_take_of_lt hsent]
          simp [hbound]
        have hnext : (rx.set sent x.tx[sent]).toList.take (sent + 1) =
            (payload x).take (sent + 1) := by
          rw [take_set_succ rx hbound, hrx, List.take_add_one, hbyte]
          rfl
        simp only [completes_of_running hstep]
        have hrest := ih (by omega) (fun k => waits (k + 1)) ⟨x.tx[sent], 0x00⟩ hnext
        rw [if_neg (Nat.succ_ne_zero sent)] at hrest
        rw [hrest]
        constructor
        · intro hall k hk
          cases k with
          | zero => exact hwait
          | succ k => exact hall k (by omega)
        · intro hall k hk
          exact hall (k + 1) (by omega)
      · obtain ⟨l, hstep, htruncated⟩ := wait_step (b := b) (f := f) hsent data
          (if sent = 0 then .dataxPID else .dataxBody) rx
        rw [← hwait] at hstep
        refine iff_of_false ?_ fun hall => by simp [hall 0 (Nat.succ_pos left)] at hwait
        rintro ⟨l', hl', hdelivered⟩
        rw [completes_of_running hstep] at hl'
        exact htruncated.not_delivered hl' hdelivered

/-- A wait state before the first RX CMD: the receiver takes the latter for the PID. -/
theorem not_transferred_of_early (h : Sequenced x f) (hlen : 0 < x.txLen) {waits : ℕ → Bool}
    (hwait : waits 1 = true) : ¬Transferred x b f waits := by
  rintro ⟨l, hl, -⟩
  have hfirst : linkStep (waits 1)
      ⟨sender x .assertDir 0, driven b .sig1 ⟨0x00, 0xff⟩, waiting f .assertDir⟩ =
      some (0, ⟨sender x .assertDir 0, driven b .sig0 ⟨0x5D, 0xff⟩, waiting f .initRXCMD⟩) := by
    rw [hwait]
    refine linkStep_of_wait rfl hlen ?_
    simp [fnDataxRecvStep, driven, waiting, rxEventMask, rxActiveBits, XferStage.ctorIdx]
  have hsecond : ∀ wait, linkStep wait
      ⟨sender x .assertDir 0, driven b .sig0 ⟨0x5D, 0xff⟩, waiting f .initRXCMD⟩ =
      some (-1, ⟨sender x .initRXCMD 0, driven b .sig0 ⟨0x5D, 0x00⟩, waiting f .initRXCMD⟩) := by
    intro wait
    apply linkStep_of_failure
    · simp [driven]
    · exact h.dataxSendStep_sender .assertDir 0 _
    · exact Int.le_refl 0
    · simp [fnDataxRecvStep, driven, waiting, XferStage.ctorIdx]
  rw [completes_of_running (start_step h _), completes_of_running hfirst] at hl
  exact not_completes_of_failed (hsecond _) hl

variable (x) in
/-- No wait state is asked for where the host can put one in. -/
def Unstalled (waits : ℕ → Bool) : Prop :=
  x.txLen = 0 ∨ waits 1 = false ∧ ∀ k < x.txLen, waits (k + 3) = false

/-- If the receiver sees the first RX CMD in time, only the payload matters. -/
theorem transferred_iff_payload (h : Sequenced x f) (hlen : x.txLen ≤ 510) {waits : ℕ → Bool}
    (hno : x.txLen = 0 ∨ waits 1 = false) :
    Transferred x b f waits ↔ ∀ k < x.txLen, waits (k + 3) = false := by
  have hbody := sending_iff (b := b) h hlen (Nat.zero_add x.txLen) (fun k => waits (k + 3))
    ⟨sendPid x, 0x00⟩ (show f.xfer.rx.toList.take 0 = (payload x).take 0 by simp)
  have hstart : ∀ l, Completes waits (start x b f) l ↔ _ := fun l =>
    (completes_of_running (start_step h _)).trans <|
      (completes_of_running (assertDir_step h hno)).trans <|
        completes_of_running (initRXCMD_step h _)
  rw [Transferred]
  simp only [hstart]
  exact hbody

/-- A packet is transferred in exactly the exchanges without a wait state. -/
theorem transferred_iff (h : Sequenced x f) (hlen : x.txLen ≤ 510) (waits : ℕ → Bool) :
    Transferred x b f waits ↔ Unstalled x waits := by
  by_cases hno : x.txLen = 0 ∨ waits 1 = false
  · refine (transferred_iff_payload h hlen hno).trans ⟨fun hall => ?_, fun hall => ?_⟩
    · exact hno.imp_right fun hfirst => ⟨hfirst, hall⟩
    · rcases hall with hzero | ⟨-, hall⟩
      · simp [hzero]
      · exact hall
  · have hpos : 0 < x.txLen := Nat.pos_of_ne_zero fun hzero => hno (Or.inl hzero)
    have hwait : waits 1 = true := by simpa using fun hw => hno (Or.inr hw)
    refine iff_of_false (not_transferred_of_early h hpos hwait) fun hall => hno ?_
    exact hall.imp_right And.left

/-- A packet of one byte, with sequence bit 0. -/
def oneByte : Transfer := { (default : Transfer) with txLen := 1 }

theorem sequenced_oneByte : Sequenced oneByte default :=
  ⟨Or.inl rfl, rfl⟩

theorem transferred_iff_oneByte : Transferred oneByte default default fun _ => false :=
  (transferred_iff sequenced_oneByte (by decide) _).mpr (Or.inr ⟨rfl, fun _ _ => rfl⟩)

/-- A wait state in front of the byte. -/
theorem not_alwaysTransferred :
    ¬ ∀ (x : Transfer) (b : UlpiBus) (f : UsbFunc) (waits : ℕ → Bool), Sequenced x f →
      x.txLen ≤ 510 → Transferred x b f waits := by
  intro hall
  have hone := hall oneByte default default (· == 3) sequenced_oneByte (by decide)
  rw [transferred_iff_payload sequenced_oneByte (by decide) (Or.inr rfl)] at hone
  exact absurd (hone 0 (by decide)) (by decide)

end MiscVerilogCores.VpiUsb
