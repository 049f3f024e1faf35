import MiscVerilogCores.Library.Stepping
import MiscVerilogCores.Model.VpiHost
import MiscVerilogCores.Verification.Vpi.DataPackets

/-! # The packets that the host model sends

The buses that the clock edges see while the host sends a token or a DATAx packet to a link that
leaves the bus to it, with any wait states. -/

namespace MiscVerilogCores.VpiUsb

open Stepping

/-! ## A step function on the bus -/

/-- The link asks for nothing: it drives zeros while the bus is its own. -/
def quietLines : Lines := ⟨.sig1, .sig0, ⟨0x00, 0x00⟩⟩

/-- From one clock edge to the next, while the step function goes on. -/
def busStep {σ : Type} (f : Bool → σ → UlpiBus → Option (ℤ × σ × UlpiBus)) (i : UtInputs)
    (s : σ × UlpiBus) : Option (σ × UlpiBus) := do
  let (result, x, out) ← f i.wait s.1 s.2
  if result = 0 then return (x, shellBus out i.lines) else none

theorem busStep_eq_some {σ : Type} {f : Bool → σ → UlpiBus → Option (ℤ × σ × UlpiBus)} {i : UtInputs}
    {x : σ} {bus : UlpiBus} {next : σ × UlpiBus} (h : busStep f i (x, bus) = some next) :
    ∃ x' out, f i.wait x bus = some (0, x', out) ∧ next = (x', shellBus out i.lines) := by
  rw [busStep] at h
  cases hf : f i.wait x bus with
  | none => simp [hf] at h
  | some r =>
      obtain ⟨result, x', out⟩ := r
      by_cases hzero : result = 0
      · refine ⟨x', out, by rw [hzero], ?_⟩
        simpa [hf, hzero, eq_comm] using h
      · simp [hf, hzero] at h

/-- The run of a step function, with the buses at the clock edges. -/
abbrev Sends {σ : Type} (f : Bool → σ → UlpiBus → Option (ℤ × σ × UlpiBus)) :
    (ℕ → UtInputs) → σ × UlpiBus → List UlpiBus → σ × UlpiBus → Prop :=
  Runs (busStep f) Prod.snd

/-- The bus while it is left to the link. -/
def released (b : UlpiBus) : UlpiBus :=
  { b with dir := .sig0, nxt := .sig0, stp := .sig0, data := ⟨0x00, 0x00⟩ }

def Quiet (is : ℕ → UtInputs) : Prop := ∀ k, (is k).lines = quietLines

section Bus

variable {σ : Type} {f : Bool → σ → UlpiBus → Option (ℤ × σ × UlpiBus)} {is : ℕ → UtInputs}
  {x : σ} {b bus : UlpiBus} {buses : List UlpiBus} {last : σ × UlpiBus}

theorem Quiet.shift (h : Quiet is) (n : ℕ) : Quiet fun k => is (k + n) := fun k => h (k + n)

theorem shellBus_driven (hrst : b.rstN = .sig1) (nxt : Bit) (data : Byte) :
    shellBus (driven b nxt data) quietLines = driven b nxt data := by
  simp [shellBus, driven, quietLines, hrst]

theorem shellBus_released (hrst : b.rstN = .sig1) (data : Byte) :
    shellBus { released b with data := data } quietLines = released b := by
  simp [shellBus, released, quietLines, hrst]

/-- A step that drives the bus. -/
theorem Sends.drive (hquiet : Quiet is) (hrst : b.rstN = .sig1) (next : σ) {nxt : Bit} {data : Byte}
    (h : f (is 0).wait x bus = some (0, next, driven b nxt data))
    (rest : Sends f (fun k => is (k + 1)) (next, driven b nxt data) buses last) :
    Sends f is (x, bus) (bus :: buses) last := by
  have hstep : busStep f (is 0) (x, bus) = some (next, driven b nxt data) := by
    simp [busStep, h, hquiet 0, shellBus_driven hrst]
  exact .cons hstep rest

/-- A step that gives the bus back. -/
theorem Sends.release (hquiet : Quiet is) (hrst : b.rstN = .sig1) {next : σ} (data : Byte)
    (h : f (is 0).wait x bus = some (0, next, { released b with data := data })) :
    Sends f is (x, bus) [bus] (next, released b) := by
  refine Runs.one ?_
  simp [busStep, h, hquiet 0, shellBus_released hrst]

end Bus

/-! ## What the buses carry -/

/-- The host hands over a byte, or an RX CMD with `RxActive` set. -/
structure Carried (bus : UlpiBus) : Prop where
  dir : bus.dir = .sig1
  known : bus.data.b = 0
  active : bus.nxt = .sig1 ∨ bus.nxt = .sig0 ∧ bus.data.a.extractLsb' 4 2 = 1

/-- The bytes that are handed over. -/
def busBytes (buses : List UlpiBus) : List (BitVec 8) :=
  (buses.filter fun bus => bus.nxt == .sig1).map fun bus => bus.data.a

/-- The buses of a packet, from an idle bus to the end of it. -/
structure PacketBuses (bytes : List (BitVec 8)) (buses : List UlpiBus) : Prop where
  split : ∃ idle turn gap mid command rest,
    buses = idle :: turn :: gap ++ mid ++ command :: rest ∧
    idle.dir = .sig0 ∧ turn.dir = .sig1 ∧ (∀ bus ∈ gap, bus.dir = .sig1 ∧ bus.nxt = .sig0) ∧
    (∀ bus ∈ mid, Carried bus) ∧ busBytes mid = bytes ∧
    (command.dir = .sig1 ∧ command.nxt = .sig0 ∧ command.data = ⟨0x4C, 0x00⟩) ∧
    ∀ bus ∈ rest, bus.nxt = .sig0

theorem carried_byte (b : UlpiBus) (a : BitVec 8) : Carried (driven b .sig1 ⟨a, 0x00⟩) :=
  ⟨rfl, rfl, Or.inl rfl⟩

theorem carried_command (b : UlpiBus) : Carried (driven b .sig0 ⟨0x5D, 0x00⟩) :=
  ⟨rfl, rfl, Or.inr ⟨rfl, by simp [driven]⟩⟩

theorem busBytes_append (buses buses' : List UlpiBus) :
    busBytes (buses ++ buses') = busBytes buses ++ busBytes buses' := by
  simp [busBytes]

@[simp] theorem busBytes_byte (b : UlpiBus) (a : BitVec 8) (buses : List UlpiBus) :
    busBytes (driven b .sig1 ⟨a, 0x00⟩ :: buses) = a :: busBytes buses := rfl

@[simp] theorem busBytes_command (b : UlpiBus) (data : Byte) (buses : List UlpiBus) :
    busBytes (driven b .sig0 data :: buses) = busBytes buses := rfl

/-! ## Tokens -/

def HostXfer.at (x : HostXfer) (stage : XferStage) : HostXfer := { x with stage := stage }

def tokenStep : Bool → HostXfer → UlpiBus → Option (ℤ × HostXfer × UlpiBus) :=
  fun _ xfer bus => (tokenSendStep xfer bus).toOption

/-- The types that `token_send_step` takes. -/
def XferType.IsToken (type : XferType) : Prop :=
  type = .setup ∨ type = .out ∨ type = .in ∨ type = .sof

section Token

variable {x : HostXfer} {b : UlpiBus}

/-- A step of the token is one of its stage. -/
theorem tokenSendStep_at (htype : x.type.IsToken) (stage : XferStage) {bus : UlpiBus} :
    stage = .noXfer ∨ stage = .lineIdle ∨ bus.dir = .sig1 → tokenSendStep (x.at stage) bus =
      match stage with
      | .noXfer =>
          .ok (0, x.at .assertDir, { bus with dir := .sig1, nxt := .sig1, data := ⟨0x00, 0xFF⟩ })
      | .assertDir => .ok (0, x.at .initRXCMD, { bus with nxt := .sig0, data := ⟨0x5D, 0x00⟩ })
      | .initRXCMD =>
          .ok (0, x.at .tokenPID,
            { bus with
              dir := .sig1, nxt := .sig1, data := { bus.data with a := transferTypeToPid x } })
      | .tokenPID =>
          .ok (0, x.at .token1, { bus with nxt := .sig1, data := ⟨x.tok1, 0x00⟩ })
      | .token1 =>
          if bus.dir = .sig1 ∧ bus.nxt = .sig1 ∧ bus.data.b = 0x00 then
            .ok (0, x.at .token2, { bus with data := { bus.data with a := x.tok2 } })
          else .error .assertion
      | stage => hostDriveEop (x.at stage) bus bus := by
  intro hbus
  have hguard : ¬((x.at stage).stage ≠ .noXfer ∧
      (x.at stage).stage.ctorIdx < XferStage.lineIdle.ctorIdx ∧ bus.dir ≠ .sig1) := by
    rintro ⟨hstart, hend, hdir⟩
    rcases hbus with rfl | rfl | hbus
    · exact hstart rfl
    · exact Nat.lt_irrefl _ hend
    · exact hdir hbus
  rw [tokenSendStep, if_neg hguard]
  split
  all_goals try (cases stage <;> rfl)
  next hsetup hout hin hsof => rcases htype with h | h | h | h <;> contradiction

/-- The token is sent: nine clock edges, of which the last finds the bus given back. -/
theorem token_sends (htype : x.type.IsToken) (hrst : b.rstN = .sig1) {is : ℕ → UtInputs}
    (hquiet : Quiet is) :
    Sends tokenStep is (x.at .noXfer, released b)
      [released b, driven b .sig1 ⟨0x00, 0xFF⟩, driven b .sig0 ⟨0x5D, 0x00⟩,
        driven b .sig1 ⟨transferTypeToPid x, 0x00⟩, driven b .sig1 ⟨x.tok1, 0x00⟩,
        driven b .sig1 ⟨x.tok2, 0x00⟩, driven b .sig0 ⟨0x4C, 0x00⟩, driven b .sig0 ⟨0x4D, 0x00⟩]
      (x.at .lineIdle, released b) := by
  have hstep := tokenSendStep_at htype
  refine .drive hquiet hrst (x.at .assertDir) ?_ <|
    .drive (hquiet.shift 1) hrst (x.at .initRXCMD) ?_ <|
    .drive (hquiet.shift 2) hrst (x.at .tokenPID) ?_ <|
    .drive (hquiet.shift 3) hrst (x.at .token1) ?_ <|
    .drive (hquiet.shift 4) hrst (x.at .token2) ?_ <|
    .drive (hquiet.shift 5) hrst (x.at .endRXCMD) ?_ <|
    .drive (hquiet.shift 6) hrst (x.at .eop) ?_ <|
    .release (hquiet.shift 7) hrst ⟨0x00, 0xFF⟩ ?_ <;>
  · rw [tokenStep, hstep _ (by simp [driven])]
    simp [released, driven, hostDriveEop, driveEop, HostXfer.at, Except.toOption]

/-- The bus is given back behind the token. -/
theorem tokenSendStep_lineIdle (htype : x.type.IsToken) (b : UlpiBus) :
    tokenSendStep (x.at .lineIdle) (released b) =
      .ok (1, { x with type := .xferIdle, stage := .noXfer }, released b) := by
  rw [tokenSendStep_at htype _ (by simp)]
  simp [hostDriveEop, driveEop, HostXfer.at, released]

/-- The clock edges of a token, with the one that finds the bus given back. -/
def tokenBuses (x : HostXfer) (b : UlpiBus) : List UlpiBus :=
  [released b, driven b .sig1 ⟨0x00, 0xFF⟩, driven b .sig0 ⟨0x5D, 0x00⟩,
    driven b .sig1 ⟨transferTypeToPid x, 0x00⟩, driven b .sig1 ⟨x.tok1, 0x00⟩,
    driven b .sig1 ⟨x.tok2, 0x00⟩, driven b .sig0 ⟨0x4C, 0x00⟩, driven b .sig0 ⟨0x4D, 0x00⟩,
    released b]

theorem packetBuses_token (x : HostXfer) (b : UlpiBus) :
    PacketBuses [transferTypeToPid x, x.tok1, x.tok2] (tokenBuses x b) := by
  refine ⟨⟨released b, driven b .sig1 ⟨0x00, 0xFF⟩, [],
    [driven b .sig0 ⟨0x5D, 0x00⟩, driven b .sig1 ⟨transferTypeToPid x, 0x00⟩,
      driven b .sig1 ⟨x.tok1, 0x00⟩, driven b .sig1 ⟨x.tok2, 0x00⟩],
    driven b .sig0 ⟨0x4C, 0x00⟩, [driven b .sig0 ⟨0x4D, 0x00⟩, released b],
    rfl, rfl, rfl, by simp, ?_, rfl, ⟨rfl, rfl, rfl⟩, by simp [driven, released]⟩⟩
  exact List.forall_mem_cons.mpr ⟨carried_command b, List.forall_mem_cons.mpr ⟨carried_byte b _,
    List.forall_mem_cons.mpr ⟨carried_byte b _, List.forall_mem_singleton.mpr (carried_byte b _)⟩⟩⟩

end Token

/-! ## DATAx packets -/

/-- The stage in which the byte behind `sent` others is sent, or the check sum. -/
def sendStage (sent : ℕ) : XferStage := if sent = 0 then .dataxPID else .dataxBody

/-- The first byte behind the payload. -/
def sentCrc1 (x : Transfer) : BitVec 8 := if x.txLen = 0 then zdpCrc16Byte1 else x.crc1

/-- The sequence bit is a valid level. -/
def SeqValid (x : Transfer) : Prop :=
  x.epSeq (x.endpoint.setWidth 4) = .sig0 ∨ x.epSeq (x.endpoint.setWidth 4) = .sig1

section Data

variable {x : Transfer} {b : UlpiBus} {is : ℕ → UtInputs} {sent : ℕ}

theorem SeqValid.sequenced (h : SeqValid x) : Sequenced x { (default : UsbFunc) with xfer := x } :=
  ⟨h, rfl⟩

theorem bulkOutData_wait (hsent : sent < x.txLen) (stage : XferStage) (data : Byte) :
    bulkOutData true (sender x stage sent) (driven b .sig1 data) =
      some (0, sender x stage sent, driven b .sig0 { data with a := 0x5D }) := by
  simp [bulkOutData, sender, startSend, hsent, driven]

theorem bulkOutData_send (stage : XferStage) {wait : Bool} {bus : UlpiBus}
    (hno : ¬(sent < x.txLen ∧ bus.nxt = .sig1 ∧ wait = true)) :
    bulkOutData wait (sender x stage sent) bus = dataxSendStep (sender x stage sent) bus :=
  if_neg hno

/-- The next byte of the payload. -/
theorem dataxSendStep_byte (hvalid : SeqValid x) (hsent : sent < x.txLen)
    (hbound : sent < maxPacketSize) (nxt : Bit) (data : Byte) :
    dataxSendStep (sender x (sendStage sent) sent) (driven b nxt data) =
      some (0, sender x (sendStage (sent + 1)) (sent + 1), driven b .sig1 ⟨x.tx[sent], 0x00⟩) := by
  have hpos : 0 < x.txLen := Nat.zero_lt_of_lt hsent
  refine (hvalid.sequenced.dataxSendStep_sender _ sent _).trans ?_
  by_cases hz : sent = 0
  · simp [sendStage, hz, hpos, sendByte, sender, startSend, driven, maxPacketSize]
  · simp [sendStage, hz, hsent, sendByte, sender, startSend, driven, hbound]

/-- The check sum, and the end of the packet. -/
theorem crc_sends (hvalid : SeqValid x) (hrst : b.rstN = .sig1) (hquiet : Quiet is) (data : Byte) :
    Sends bulkOutData is (sender x (sendStage x.txLen) x.txLen, driven b .sig1 data)
      [driven b .sig1 data, driven b .sig1 ⟨sentCrc1 x, 0x00⟩, driven b .sig1 ⟨x.crc2, 0x00⟩,
        driven b .sig0 ⟨0x4C, 0x00⟩, driven b .sig0 ⟨0x4D, 0x00⟩]
      (sender x .lineIdle x.txLen, released b) := by
  have hstep := hvalid.sequenced.dataxSendStep_sender
  refine .drive hquiet hrst (sender x .dataxCRC1 x.txLen) ?_ <|
    .drive (hquiet.shift 1) hrst (sender x .dataxCRC2 x.txLen) ?_ <|
    .drive (hquiet.shift 2) hrst (sender x .endRXCMD x.txLen) ?_ <|
    .drive (hquiet.shift 3) hrst (sender x .eop x.txLen) ?_ <|
    .release (hquiet.shift 4) hrst ⟨0x00, 0xFF⟩ ?_
  · rw [bulkOutData_send _ (by simp), hstep]
    by_cases hz : x.txLen = 0 <;> simp [sendStage, sentCrc1, hz, driven]
  all_goals
    rw [bulkOutData_send _ (by simp), hstep]
    simp [released, driven, driveEop, sender]

/-- The rest of a packet, from the bus on which the byte before it stands. A wait state puts an RX CMD
in front of a byte. -/
theorem body_sends (hvalid : SeqValid x) (hrst : b.rstN = .sig1) (hlen : x.txLen ≤ maxPacketSize)
    {left : ℕ} (hleft : sent + left = x.txLen) (hquiet : Quiet is) (data : BitVec 8) :
    ∃ mid, Sends bulkOutData is (sender x (sendStage sent) sent, driven b .sig1 ⟨data, 0x00⟩)
        (mid ++ [driven b .sig0 ⟨0x4C, 0x00⟩, driven b .sig0 ⟨0x4D, 0x00⟩])
        (sender x .lineIdle x.txLen, released b) ∧
      (∀ bus ∈ mid, Carried bus) ∧ mid.length ≤ 2 * left + 3 ∧
      busBytes mid = data :: (payload x).drop sent ++ [sentCrc1 x, x.crc2] := by
  induction left generalizing sent is data with
  | zero =>
      have hall : sent = x.txLen := hleft
      subst hall
      refine ⟨[driven b .sig1 ⟨data, 0x00⟩, driven b .sig1 ⟨sentCrc1 x, 0x00⟩,
        driven b .sig1 ⟨x.crc2, 0x00⟩], crc_sends hvalid hrst hquiet _, ?_, by simp, ?_⟩
      · exact List.forall_mem_cons.mpr ⟨carried_byte b _, List.forall_mem_cons.mpr
          ⟨carried_byte b _, List.forall_mem_singleton.mpr (carried_byte b _)⟩⟩
      · have hnone : (payload x).drop x.txLen = [] := by simp [payload]
        rw [hnone]
        rfl
  | succ left ih =>
      have hsent : sent < x.txLen := by omega
      have hbound : sent < maxPacketSize := Nat.lt_of_lt_of_le hsent hlen
      have hdrop : (payload x).drop sent = x.tx[sent] :: (payload x).drop (sent + 1) := by
        have hget : sent < (payload x).length := by
          rw [payload, List.length_take, Vector.length_toList]
          exact Nat.lt_min.mpr ⟨hsent, hbound⟩
        rw [List.drop_eq_getElem_cons hget]
        simp [payload]
      cases hwait : (is 0).wait
      · obtain ⟨mid, hsends, hmid, hlength, hbytes⟩ :=
          ih (show sent + 1 + left = x.txLen by omega) (hquiet.shift 1) x.tx[sent]
        refine ⟨driven b .sig1 ⟨data, 0x00⟩ :: mid, .drive hquiet hrst _ ?_ hsends, ?_, ?_, ?_⟩
        · rw [bulkOutData_send _ (by simp [hwait]), dataxSendStep_byte hvalid hsent hbound]
        · exact List.forall_mem_cons.mpr ⟨carried_byte b _, hmid⟩
        · simp only [List.length_cons]
          omega
        · rw [busBytes_byte, hbytes, hdrop]
          rfl
      · obtain ⟨mid, hsends, hmid, hlength, hbytes⟩ :=
          ih (show sent + 1 + left = x.txLen by omega) (hquiet.shift 2) x.tx[sent]
        refine ⟨driven b .sig1 ⟨data, 0x00⟩ :: driven b .sig0 ⟨0x5D, 0x00⟩ :: mid,
          .drive hquiet hrst (sender x (sendStage sent) sent) ?_
            (.drive (hquiet.shift 1) hrst _ ?_ hsends), ?_, ?_, ?_⟩
        · rw [hwait, bulkOutData_wait hsent]
        · rw [bulkOutData_send _ (by simp [driven]), dataxSendStep_byte hvalid hsent hbound]
        · exact List.forall_mem_cons.mpr
            ⟨carried_byte b _, List.forall_mem_cons.mpr ⟨carried_command b, hmid⟩⟩
        · simp only [List.length_cons]
          omega
        · rw [busBytes_byte, busBytes_command, hbytes, hdrop]
          rfl

/-- The bus is given back behind the packet. -/
theorem bulkOutData_lineIdle (hvalid : SeqValid x) (wait : Bool) (b : UlpiBus) :
    bulkOutData wait (sender x .lineIdle x.txLen) (released b) =
      some (1, { sender x .noXfer x.txLen with type := .xferIdle }, released b) := by
  rw [bulkOutData_send _ (by simp [released]), hvalid.sequenced.dataxSendStep_sender]
  simp [driveEop, sender, released]

/-- A DATAx packet is sent, with any wait states. Another clock edge finds the bus given back. -/
theorem datax_sends (hvalid : SeqValid x) (hrst : b.rstN = .sig1) (hlen : x.txLen ≤ maxPacketSize)
    (hquiet : Quiet is) :
    ∃ buses, Sends bulkOutData is (sender x .noXfer 0, released b) buses
        (sender x .lineIdle x.txLen, released b) ∧
      PacketBuses (sendPid x :: payload x ++ [sentCrc1 x, x.crc2]) (buses ++ [released b]) ∧
      buses.length ≤ 2 * x.txLen + 9 := by
  have hstep := hvalid.sequenced.dataxSendStep_sender
  have hstart : bulkOutData (is 0).wait (sender x .noXfer 0) (released b) =
      some (0, sender x .assertDir 0, driven b .sig1 ⟨0x00, 0xFF⟩) := by
    rw [bulkOutData_send _ (by simp [released]), hstep]
    simp [released, driven]
  -- From the RX CMD that starts the packet on.
  have hrest : ∀ (is : ℕ → UtInputs) (nxt : Bit) (data : Byte), Quiet is →
      bulkOutData (is 0).wait (sender x .assertDir 0) (driven b nxt data) =
        dataxSendStep (sender x .assertDir 0) (driven b nxt data) →
      ∃ mid, Sends bulkOutData is (sender x .assertDir 0, driven b nxt data)
          (driven b nxt data :: mid ++ [driven b .sig0 ⟨0x4C, 0x00⟩, driven b .sig0 ⟨0x4D, 0x00⟩])
          (sender x .lineIdle x.txLen, released b) ∧
        (∀ bus ∈ mid, Carried bus) ∧ mid.length ≤ 2 * x.txLen + 4 ∧
        busBytes mid = sendPid x :: payload x ++ [sentCrc1 x, x.crc2] := by
    intro is nxt data hquiet hsend
    obtain ⟨mid, hsends, hmid, hlength, hbytes⟩ := body_sends hvalid
      hrst hlen (Nat.zero_add x.txLen) (hquiet.shift 2) (sendPid x)
    refine ⟨driven b .sig0 ⟨0x5D, 0x00⟩ :: mid,
      .drive hquiet hrst (sender x .initRXCMD 0) ?_
        (.drive (hquiet.shift 1) hrst _ ?_ hsends),
      List.forall_mem_cons.mpr ⟨carried_command b, hmid⟩, ?_, hbytes⟩
    · rw [hsend, hstep]
      rfl
    · rw [bulkOutData_send _ (by simp [driven]), hstep]
      rfl
    · simp only [List.length_cons]
      omega
  have hpacket : ∀ gap mid : List UlpiBus, (∀ bus ∈ gap, bus.dir = .sig1 ∧ bus.nxt = .sig0) →
      (∀ bus ∈ mid, Carried bus) → PacketBuses (busBytes mid)
        ((released b :: driven b .sig1 ⟨0x00, 0xFF⟩ :: gap ++
          (mid ++ [driven b .sig0 ⟨0x4C, 0x00⟩, driven b .sig0 ⟨0x4D, 0x00⟩])) ++ [released b]) := by
    intro gap mid hgap hmid
    exact ⟨⟨released b, driven b .sig1 ⟨0x00, 0xFF⟩, gap, mid, driven b .sig0 ⟨0x4C, 0x00⟩,
      [driven b .sig0 ⟨0x4D, 0x00⟩, released b], by simp, rfl, rfl, hgap, hmid, rfl,
      ⟨rfl, rfl, rfl⟩, by simp [driven, released]⟩⟩
  by_cases hwait : 0 < x.txLen ∧ (is 1).wait = true
  · obtain ⟨mid, hsends, hmid, hlength, hbytes⟩ := hrest (fun k => is (k + 1 + 1)) .sig0
      ⟨0x5D, 0xFF⟩ (hquiet.shift 2) (bulkOutData_send _ (by simp [driven]))
    have hfirst : bulkOutData (is 1).wait (sender x .assertDir 0) (driven b .sig1 ⟨0x00, 0xFF⟩) =
        some (0, sender x .assertDir 0, driven b .sig0 ⟨0x5D, 0xFF⟩) := by
      rw [hwait.2, bulkOutData_wait hwait.1]
    rw [← hbytes]
    refine ⟨_, .drive hquiet hrst _ hstart (.drive (hquiet.shift 1) hrst _ hfirst hsends),
      hpacket [driven b .sig0 ⟨0x5D, 0xFF⟩] mid (by simp [driven]) hmid, ?_⟩
    simp only [List.length_cons, List.length_append, List.length_nil]
    omega
  · obtain ⟨mid, hsends, hmid, hlength, hbytes⟩ := hrest (fun k => is (k + 1)) .sig1
      ⟨0x00, 0xFF⟩ (hquiet.shift 1) (bulkOutData_send _ fun h => hwait ⟨h.1, h.2.2⟩)
    rw [← hbytes]
    refine ⟨_, .drive hquiet hrst _ hstart hsends, hpacket [] mid (by simp) hmid, ?_⟩
    simp only [List.length_cons, List.length_append, List.length_nil]
    omega

end Data

end MiscVerilogCores.VpiUsb
