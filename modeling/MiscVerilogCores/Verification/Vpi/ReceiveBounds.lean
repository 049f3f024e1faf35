import MiscVerilogCores.Library.Clocked
import MiscVerilogCores.Model.VpiBulkIn
import MiscVerilogCores.Verification.Usb.HostCrc
import MiscVerilogCores.Verification.Vpi.DataPackets

/-! # The receive buffer of the host model

The buffer has room for the longest payload, but the two bytes of the check sum are stored behind the
payload and the index is not compared with the size. A packet stays inside the buffer exactly if there
are no more than 512 bytes behind its PID. -/

namespace MiscVerilogCores.VpiUsb

open Clocked UsbCrc

/-- The function that is called until the packet is received. -/
inductive Receiver where
  | dataxRecv | bulkIn

/-- What the receiver sees in a call, next to the transfer. -/
structure Call where
  bus : UlpiBus
  cycle : BitVec 64
  wait : Bool

/-- The result of the last call, and the transfer. -/
abbrev Progress : Type := Except Fault (ℤ × HostXfer)

/-- The bytes of the packet behind its PID, and whether the last call was the one of its end. -/
structure Packet where
  bytes : List (BitVec 8)
  ended : Bool

namespace Receiver

def step : Receiver → HostXfer → Call → Outcome
  | .dataxRecv, x, c => dataxRecvStep x c.bus
  | .bulkIn, x, c => bulkInStep c.cycle c.wait x c.bus

/-- The next call, unless there was a fault. -/
def call (r : Receiver) (s : Progress) (c : Call) : Progress := do
  let (_, x) ← s
  let (result, x, _) ← r.step x c
  return (result, x)

/-- The receiver is called in the body of a packet. -/
def receives (r : Receiver) (x : HostXfer) (c : Call) : Bool :=
  x.stage == .dataxBody && c.bus.dir == .sig0 &&
    match r, x.type with
    | _, .upDATA0 | _, .upDATA1 => true
    | .bulkIn, .timeOut => !timedOut c.cycle x && c.bus.data.b == 0x00
    | _, _ => false

/-- A byte of the packet is on the bus. -/
def takesByte (r : Receiver) (x : HostXfer) (c : Call) : Bool :=
  r.receives x c && c.bus.stp != .sig1 && c.bus.nxt == .sig1

def watch (r : Receiver) (p : Packet) (s : Progress) (c : Call) : Packet :=
  match s with
  | .error _ => p
  | .ok (_, x) =>
      { bytes :=
          if r.takesByte x c then p.bytes ++ [c.bus.data.a]
          else if x.stage = .dataxPID then []
          else p.bytes
        ended := r.receives x c && c.bus.stp == .sig1 }

/-- All the calls of a run, from a transfer whose stage is `NoXfer`. -/
def calls (r : Receiver) (x : HostXfer) (cs : List Call) : Progress × Packet :=
  run (watched r.call r.watch) (.ok (0, { x with stage := .noXfer }), ⟨[], false⟩) cs

end Receiver

/-- No byte is stored outside of the buffer, a packet that is too long is an error, and the length of
one that is not, and whose check sum is right, is that of its payload. -/
structure Bounded (s : Progress) (p : Packet) : Prop where
  inside : ∀ index, s ≠ .error (.store index)
  overlong : p.ended = true → maxPacketSize + 2 < p.bytes.length →
    ∃ result x, s = .ok (result, x) ∧ result < 0
  recorded : p.ended = true → ∀ payload, p.bytes = packet payload →
    payload.length ≤ maxPacketSize → ∃ result x, s = .ok (result, x) ∧ x.rxLen = payload.length

def AlwaysBounded (r : Receiver) : Prop :=
  ∀ (x : HostXfer) (cs : List Call), Bounded (r.calls x cs).1 (r.calls x cs).2

/-- A byte comes only while fewer than 512 of its packet have been received. -/
def Receiver.Short (r : Receiver) (q : Progress × Packet) (c : Call) : Prop :=
  ∀ result x, q.1 = .ok (result, x) → r.takesByte x c = true → q.2.bytes.length < maxPacketSize

/-! ## The check sum -/

theorem checkCode_iff (bytes : List (BitVec 8)) : crc16Calc bytes = 0x4FFE ↔ crc16Check bytes = true := by
  have hresid : ~~~crc16ResidReflected = 0x4FFE := by decide
  rw [crc16Check, beq_iff_eq, ← hresid]
  exact ⟨fun h => by rw [h, BitVec.not_not], fun h => by rw [← h, BitVec.not_not]⟩

/-- The comparisons with the buffer accept the packets whose check code is right. -/
theorem accepts_iff (payload : List (BitVec 8)) (lo hi : BitVec 8) :
    ((crc16Calc payload).setWidth 8 = lo ∧ (crc16Calc payload >>> 8).setWidth 8 = hi ∧
      crc16Calc (payload ++ [lo, hi]) = 0x4FFE) ↔ crc16Check (payload ++ [lo, hi]) = true := by
  rw [checkCode_iff]
  refine ⟨fun h => h.2.2, fun h => ⟨?_, ?_, h⟩⟩
  · have hsum := (crc16Check_append_iff payload lo hi).mp h
    apply BitVec.eq_of_toNat_eq
    rw [BitVec.toNat_setWidth, ← hsum]
    omega
  · have hsum := (crc16Check_append_iff payload lo hi).mp h
    apply BitVec.eq_of_toNat_eq
    rw [BitVec.toNat_setWidth, BitVec.toNat_ushiftRight, Nat.shiftRight_eq_div_pow, ← hsum]
    omega

/-- The bytes are those at the front of the buffer. -/
structure Filled (x : HostXfer) (bytes : List (BitVec 8)) : Prop where
  pointer : x.rxPtr = bytes.length
  room : bytes.length ≤ maxPacketSize
  stored : x.rx.toList.take bytes.length = bytes

section Filled

variable {x : HostXfer} {bytes : List (BitVec 8)}

theorem filled_nil (h : x.rxPtr = 0) : Filled x [] :=
  ⟨h, Nat.zero_le _, by simp⟩

/-- Only the buffer and its index matter. -/
theorem Filled.congr (h : Filled x bytes) {y : HostXfer} (hrx : y.rx = x.rx)
    (hptr : y.rxPtr = x.rxPtr) : Filled y bytes :=
  ⟨hptr.trans h.pointer, h.room, hrx ▸ h.stored⟩

theorem Filled.getElem (h : Filled x bytes) {k : ℕ} (hk : k < bytes.length)
    (hlt : k < maxPacketSize) : x.rx[k] = bytes[k] := by
  have hget := congrArg (fun l => l[k]?) h.stored
  simp only [List.getElem?_take_of_lt hk, List.getElem?_eq_getElem hk] at hget
  simpa [hlt] using hget

theorem Filled.load (h : Filled x bytes) {k : ℕ} (hk : k < bytes.length) :
    x.load k = .ok bytes[k] := by
  have hlt := Nat.lt_of_lt_of_le hk h.room
  rw [HostXfer.load, dif_pos hlt, h.getElem hk hlt]

theorem Filled.received (h : Filled x bytes) {n : ℕ} (hn : n ≤ bytes.length) :
    x.received n = .ok (bytes.take n) := by
  have hfront : (x.rx.toList.take bytes.length).take n = bytes.take n := by rw [h.stored]
  rw [List.take_take, Nat.min_eq_left hn] at hfront
  rw [HostXfer.received, if_pos (Nat.le_trans hn h.room), hfront]

/-- The bytes behind a payload are compared with its check sum. -/
theorem Filled.checkRxCrc16_payload {payload : List (BitVec 8)} {lo hi : BitVec 8}
    (h : Filled x (payload ++ [lo, hi])) (hlen : x.rxLen = payload.length) (hne : payload ≠ []) :
    checkRxCrc16 x = .ok (crc16Check (payload ++ [lo, hi]), { x with
      crc1 := (crc16Calc payload).setWidth 8
      crc2 := (crc16Calc payload >>> 8).setWidth 8 }) := by
  have hpos : x.rxLen > 0 := by
    rw [hlen]
    exact Int.natCast_pos.mpr (List.length_pos_iff.mpr hne)
  have hnat : x.rxLen.toNat = payload.length := by rw [hlen, Int.toNat_natCast]
  have hfront : x.received payload.length = .ok payload := by
    rw [h.received (by simp), List.take_left]
  have hall : x.received x.rxPtr = .ok (payload ++ [lo, hi]) := by
    rw [h.pointer, h.received (Nat.le_refl _), List.take_length]
  have hload : ∀ crc1 crc2, HostXfer.load { x with crc1 := crc1, crc2 := crc2 } payload.length = .ok lo ∧
      HostXfer.load { x with crc1 := crc1, crc2 := crc2 } (payload.length + 1) = .ok hi := by
    intro crc1 crc2
    have hx : Filled { x with crc1 := crc1, crc2 := crc2 } (payload ++ [lo, hi]) := h.congr rfl rfl
    exact ⟨by rw [hx.load (by simp)]; simp, by rw [hx.load (by simp)]; simp⟩
  have hiff := accepts_iff payload lo hi
  simp only [checkRxCrc16, if_pos hpos, hnat, hfront, hall, bind, Except.bind, (hload _ _).1,
    (hload _ _).2, pure, Except.pure]
  by_cases hlo : (crc16Calc payload).setWidth 8 = lo
  · simp only [hlo, ne_eq, not_true_eq_false, if_false]
    congr 2
    rw [Bool.eq_iff_iff, Bool.and_eq_true, beq_iff_eq, beq_iff_eq, ← hiff]
    exact ⟨fun h => ⟨hlo, h⟩, fun h => h.2⟩
  · have hcheck : crc16Check (payload ++ [lo, hi]) = false := by
      rw [← Bool.not_eq_true, ← hiff]
      exact fun h => hlo h.1
    simp only [hlo, ne_eq, not_false_eq_true, if_true, hcheck]

/-- A packet without a payload has the check sum zero. -/
theorem Filled.checkRxCrc16_empty {lo hi : BitVec 8} (h : Filled x [lo, hi]) (hlen : x.rxLen = 0) :
    checkRxCrc16 x = .ok (crc16Check [lo, hi], x) := by
  have hlo : x.rx[0] = lo := h.getElem (k := 0) (by simp) (by decide)
  have hhi : x.rx[1] = hi := h.getElem (k := 1) (by simp) (by decide)
  have hnil : (crc16Calc []).toNat = 0 := by decide
  have hiff := crc16Check_append_iff [] lo hi
  rw [checkRxCrc16, if_neg (by omega), hlo, hhi]
  simp only [pure, Except.pure]
  congr 2
  rw [Bool.eq_iff_iff, Bool.and_eq_true, beq_iff_eq, beq_iff_eq, ← List.nil_append [lo, hi], hiff, hnil]
  constructor
  · rintro ⟨rfl, rfl⟩
    rfl
  · intro hzero
    exact ⟨BitVec.eq_of_toNat_eq (by simp; omega), BitVec.eq_of_toNat_eq (by simp; omega)⟩

/-- The check of what is in the buffer neither fails nor changes it. -/
theorem Filled.checkRxCrc16 (h : Filled x bytes) (hlen : x.rxLen = x.rxPtr - 2) :
    ∃ accepted next, checkRxCrc16 x = .ok (accepted, next) ∧ next.stage = x.stage ∧
      next.rxLen = x.rxLen ∧ Filled next bytes ∧
      (2 ≤ bytes.length → accepted = crc16Check bytes) := by
  have hptr := h.pointer
  by_cases hlong : 2 ≤ bytes.length
  · obtain ⟨payload, lo, hi, rfl⟩ : ∃ payload lo hi, bytes = payload ++ [lo, hi] := by
      obtain ⟨lo, hi, htail⟩ := List.length_eq_two.mp
        (show (bytes.drop (bytes.length - 2)).length = 2 by simp; omega)
      exact ⟨bytes.take (bytes.length - 2), lo, hi, by rw [← htail, List.take_append_drop]⟩
    by_cases hne : payload = []
    · subst hne
      exact ⟨_, x, h.checkRxCrc16_empty (by simp at hptr; omega), rfl, rfl, h, fun _ => rfl⟩
    · exact ⟨_, _, h.checkRxCrc16_payload (by simp at hptr; omega) hne, rfl, rfl,
        h.congr rfl rfl, fun _ => rfl⟩
  · refine ⟨x.rx[0] == 0x00 && x.rx[1] == 0x00, x, ?_, rfl, rfl, h, fun h => absurd h hlong⟩
    rw [VpiUsb.checkRxCrc16, if_neg (by omega)]
    rfl

/-! ## The body of a packet -/

/-- What is known of a packet at its end, with the result of the last call. -/
structure Received (result : ℤ) (x : HostXfer) (bytes : List (BitVec 8)) : Prop where
  filled : Filled x bytes
  length : x.rxLen = bytes.length - 2
  checked : 2 ≤ bytes.length → result = if crc16Check bytes then 0 else -1

variable {bus : UlpiBus}

/-- At its end the packet is checked, and the length leaves the two bytes of the check sum out. -/
theorem Filled.body_end (h : Filled x bytes) (hstp : bus.stp = .sig1) :
    ∃ result next out, dataxBodyStep x bus = .ok (result, next, out) ∧
      (result = 0 ∨ result = -1) ∧ next.stage = .dataxStop ∧ Received result next bytes := by
  have hx : Filled { x with stage := .dataxStop, rxLen := x.rxPtr - 2 } bytes := h.congr rfl rfl
  obtain ⟨accepted, next, hcheck, hstage, hlen, hnext, hacc⟩ := hx.checkRxCrc16 rfl
  refine ⟨if accepted then 0 else -1, next, { bus with dir := .sig1, nxt := .sig0, data := ⟨0x00, 0xFF⟩ },
    ?_, ?_, hstage, ⟨hnext, ?_, fun hlong => by rw [hacc hlong]⟩⟩
  · simp only [dataxBodyStep, if_pos hstp, hcheck, bind, Except.bind, pure, Except.pure]
  · cases accepted <;> simp
  · rw [hlen, ← h.pointer]

theorem Filled.body_byte (h : Filled x bytes) (hstp : bus.stp ≠ .sig1) (hnxt : bus.nxt = .sig1)
    (hroom : bytes.length < maxPacketSize) :
    ∃ next, dataxBodyStep x bus = .ok (0, next, bus) ∧ next.stage = x.stage ∧ next.type = x.type ∧
      Filled next (bytes ++ [bus.data.a]) := by
  have hlt : x.rxPtr < maxPacketSize := h.pointer ▸ hroom
  refine ⟨{ x with rx := x.rx.set x.rxPtr bus.data.a, rxPtr := x.rxPtr + 1 }, ?_, rfl, rfl, ?_⟩
  · simp only [dataxBodyStep, if_neg hstp, if_pos hnxt, HostXfer.store, dif_pos hlt, bind, Except.bind,
      pure, Except.pure]
  · refine ⟨by simp [h.pointer], by simpa using Nat.succ_le_of_lt hroom, ?_⟩
    rw [List.length_append, ← h.pointer, List.length_singleton, take_set_succ x.rx hlt, h.pointer,
      h.stored]

/-- The byte behind a full buffer is stored all the same. -/
theorem Filled.body_full (h : Filled x bytes) (hstp : bus.stp ≠ .sig1) (hnxt : bus.nxt = .sig1)
    (hroom : ¬bytes.length < maxPacketSize) :
    dataxBodyStep x bus = .error (.store x.rxPtr) := by
  have hge : ¬x.rxPtr < maxPacketSize := h.pointer ▸ hroom
  simp only [dataxBodyStep, if_neg hstp, if_pos hnxt, HostXfer.store, dif_neg hge, bind, Except.bind]

end Filled

/-! ## The two receivers -/

namespace Receiver

variable {r : Receiver} {x : HostXfer} {c : Call}

theorem receives_iff : r.receives x c = true ↔
    x.stage = .dataxBody ∧ c.bus.dir = .sig0 ∧
      ((x.type = .upDATA0 ∨ x.type = .upDATA1) ∨
        r = .bulkIn ∧ x.type = .timeOut ∧ timedOut c.cycle x = false ∧ c.bus.data.b = 0x00) := by
  cases r <;> cases ht : x.type <;> simp [receives, ht, and_assoc]

theorem dataxRecvStep_body {bus : UlpiBus} (hs : x.stage = .dataxBody) (hdir : bus.dir = .sig0)
    (ht : x.type = .upDATA0 ∨ x.type = .upDATA1) : dataxRecvStep x bus = dataxBodyStep x bus := by
  rcases ht with ht | ht <;> simp only [dataxRecvStep, ht, hs, if_pos hdir]

/-- A result and a transfer are passed on; without a byte the time-out may come. -/
structure Passes (result : ℤ) (x : HostXfer) (result' : ℤ) (x' : HostXfer) : Prop where
  stage : x'.stage = x.stage
  rxLen : x'.rxLen = x.rxLen
  filled : ∀ bytes, Filled x bytes → Filled x' bytes
  same : x.rxPtr ≠ 0 → result' = result ∧ x' = x

theorem passes_refl (result : ℤ) (x : HostXfer) : Passes result x result x :=
  ⟨rfl, rfl, fun _ h => h, fun _ => ⟨rfl, rfl⟩⟩

/-- `bulk_in_step` looks for the time-out, and puts in wait states. -/
theorem bulkInData_body (cycle : BitVec 64) (wait : Bool) {result : ℤ} (next : HostXfer) (out : UlpiBus)
    (hresult : result = 0 ∨ result = -1) :
    ∃ result' next' out', bulkInData cycle wait (result, next, out) = (result', next', out') ∧
      Passes result next result' next' := by
  have hnot : ¬result < -2 ∧ ¬result > 0 := by omega
  rw [bulkInData, if_neg hnot.1, if_neg hnot.2]
  split_ifs with hdue hneg hwait
  · exact ⟨_, _, _, rfl, rfl, rfl, fun _ h => h.congr rfl rfl, fun hne => absurd hdue.1 hne⟩
  · exact ⟨_, _, _, rfl, passes_refl _ _⟩
  · exact ⟨_, _, _, rfl, rfl, rfl, fun _ h => h, fun _ => ⟨by omega, rfl⟩⟩
  · exact ⟨_, _, _, rfl, rfl, rfl, fun _ h => h, fun _ => ⟨by omega, rfl⟩⟩

theorem bulkInStep_data {cycle : BitVec 64} {wait : Bool} {bus : UlpiBus}
    (ht : x.type = .upDATA0 ∨ x.type = .upDATA1) :
    bulkInStep cycle wait x bus = bulkInData cycle wait <$> dataxRecvStep x bus := by
  rcases ht with ht | ht <;> simp only [bulkInStep, ht]

theorem bulkInStep_timeOut {cycle : BitVec 64} {wait : Bool} {bus : UlpiBus} (ht : x.type = .timeOut)
    (hdue : timedOut cycle x = false) (hs : x.stage = .dataxBody) (hdir : bus.dir = .sig0)
    (hb : bus.data.b = 0x00) : bulkInStep cycle wait x bus = dataxBodyStep x bus := by
  simp only [bulkInStep, ht, hdue, hs, hdir, hb, Bool.false_eq_true, and_self, if_true, if_false]

/-- A fault in the body of a packet is one of the receiver. -/
theorem step_fault (h : r.receives x c = true) {f : Fault}
    (hbody : dataxBodyStep x c.bus = .error f) : r.step x c = .error f := by
  obtain ⟨hs, hdir, ht | ⟨rfl, ht, hdue, hb⟩⟩ := receives_iff.mp h
  · have hrecv := dataxRecvStep_body hs hdir ht
    cases r with
    | dataxRecv => rw [step, hrecv, hbody]
    | bulkIn =>
        rw [step, bulkInStep_data ht, hrecv, hbody]
        rfl
  · rw [step, bulkInStep_timeOut ht hdue hs hdir hb, hbody]

/-- In the body of a packet the two receivers do the same. -/
theorem step_body (h : r.receives x c = true) {result : ℤ} {next : HostXfer} {out : UlpiBus}
    (hbody : dataxBodyStep x c.bus = .ok (result, next, out)) (hresult : result = 0 ∨ result = -1) :
    ∃ result' next' out', r.step x c = .ok (result', next', out') ∧
      Passes result next result' next' := by
  obtain ⟨hs, hdir, ht | ⟨rfl, ht, hdue, hb⟩⟩ := receives_iff.mp h
  · have hrecv := dataxRecvStep_body hs hdir ht
    cases r with
    | dataxRecv => exact ⟨result, next, out, by rw [step, hrecv, hbody], passes_refl result next⟩
    | bulkIn =>
        obtain ⟨result', next', out', hdata, hpasses⟩ := bulkInData_body c.cycle c.wait next out hresult
        refine ⟨result', next', out', ?_, hpasses⟩
        rw [step, bulkInStep_data ht, hrecv, hbody, ← hdata]
        rfl
  · refine ⟨result, next, out, ?_, passes_refl result next⟩
    rw [step, bulkInStep_timeOut ht hdue hs hdir hb, hbody]

end Receiver

/-! ## Outside of the body of a packet -/

/-- Nothing is stored, and the bytes are in the buffer where the body of a packet goes on. -/
def Settled (bytes : List (BitVec 8)) : Outcome → Prop
  | .error f => ∀ index, f ≠ .store index
  | .ok (_, next, _) => next.stage = .dataxBody → Filled next bytes

section Settled

variable {x : HostXfer} {bytes : List (BitVec 8)} {bus : UlpiBus}

theorem Settled.bind {o : Outcome} (ho : Settled bytes o) {f : ℤ × HostXfer × UlpiBus → Outcome}
    (hf : ∀ result next out, (next.stage = .dataxBody → Filled next bytes) →
      Settled bytes (f (result, next, out))) : Settled bytes (o >>= f) := by
  cases o with
  | error fault => exact ho
  | ok p =>
      obtain ⟨result, next, out⟩ := p
      exact hf result next out ho

theorem Settled.bulkInData {o : Outcome} (ho : Settled bytes o) (cycle : BitVec 64) (wait : Bool) :
    Settled bytes (bulkInData cycle wait <$> o) := by
  cases o with
  | error fault => exact ho
  | ok p =>
      obtain ⟨result, next, out⟩ := p
      show Settled bytes (.ok (VpiUsb.bulkInData cycle wait (result, next, out)))
      rw [VpiUsb.bulkInData]
      split_ifs
      · exact fun h => (ho h).congr rfl rfl
      · exact fun h => (ho h).congr rfl rfl
      · exact ho
      · exact fun h => nomatch h
      · exact ho
      · exact ho

theorem settled_stage {next : HostXfer} (hs : next.stage ≠ .dataxBody) (result : ℤ) (out : UlpiBus) :
    Settled bytes (.ok (result, next, out)) :=
  fun h => absurd h hs

theorem settled_assertion : Settled bytes (.error .assertion) :=
  fun _ h => nomatch h

theorem Settled.ite {p : Prop} [Decidable p] {o o' : Outcome} (h : Settled bytes o)
    (h' : Settled bytes o') : Settled bytes (if p then o else o') := by
  split_ifs
  · exact h
  · exact h'

/-- The end of a packet does not lead back into the body. -/
theorem driveEop_stage {x next : Transfer} {out out' : UlpiBus} {result : ℤ}
    (h : driveEop x bus out = some (result, next, out')) : next = x ∨ next.stage ≠ .dataxBody := by
  rw [driveEop] at h
  split at h
  case h_1 | h_9 =>
    cases h
    exact .inl rfl
  all_goals
    split_ifs at h
    cases h
    exact .inr (by simp)

theorem settled_hostDriveEop (h : x.stage = .dataxBody → Filled x bytes) (out : UlpiBus) :
    Settled bytes (hostDriveEop x bus out) := by
  rw [hostDriveEop]
  split
  next result next out' heop =>
    rcases driveEop_stage heop with hsame | hstage
    · rw [hsame]
      exact h
    · exact settled_stage hstage result out'
  · exact settled_assertion

theorem settled_tokenSendStep (h : x.stage = .dataxBody → Filled x bytes) :
    Settled bytes (tokenSendStep x bus) := by
  rw [tokenSendStep]
  refine Settled.ite h ?_
  split
  case h_5 => exact h
  all_goals
    split
    case h_5 => exact (settled_stage (by simp) _ _).ite settled_assertion
    case h_6 => exact settled_hostDriveEop h bus
    all_goals exact settled_stage (by simp) _ _

theorem settled_ackSendStep (h : x.stage = .dataxBody → Filled x bytes) :
    Settled bytes (ackSendStep x bus) := by
  rw [ackSendStep]
  refine Settled.ite h ?_
  split
  case h_1 => exact (settled_stage (by simp) _ _).ite h
  case h_2 | h_3 => exact (settled_stage (by simp) _ _).ite settled_assertion
  case h_4 => exact settled_hostDriveEop h bus

theorem settled_transferAck (x : HostXfer) (result : ℤ) (out : UlpiBus) :
    Settled bytes (do
      let x ← transferAck x
      return (result, { x with type := .xferIdle, stage := .noXfer }, out)) := by
  rw [transferAck, HostXfer.seq]
  split_ifs
  · exact settled_stage (by simp) _ _
  · exact fun _ h => nomatch h

theorem settled_turn (cycle : BitVec 64) (x : HostXfer) (out : UlpiBus) :
    Settled bytes (do
      let type : XferType := if (← x.seq) = .sig0 then .upDATA0 else .upDATA1
      return (0, setTimer cycle { x with type := type, stage := .noXfer }, out)) := by
  rw [HostXfer.seq]
  split_ifs
  · exact settled_stage (by simp [setTimer]) _ _
  · exact fun _ h => nomatch h

/-- Behind the PID the buffer is empty. -/
theorem settled_dataxRecvStep (h : x.stage = .dataxBody → Filled x bytes)
    (hpid : x.stage = .dataxPID → bytes = [])
    (hbody : x.stage = .dataxBody → (x.type = .upDATA0 ∨ x.type = .upDATA1) → bus.dir ≠ .sig0) :
    Settled bytes (dataxRecvStep x bus) := by
  rw [dataxRecvStep]
  split
  case h_3 => exact h
  all_goals
    split
    case h_1 hs => exact (settled_stage (by simp) _ _).ite fun hb => absurd (hs.symm.trans hb) (by simp)
    case h_2 hs =>
      refine Settled.ite (fun _ => ?_) settled_assertion
      rw [hpid hs]
      exact filled_nil rfl
    case h_3 ht _ hs =>
      rw [if_neg (hbody hs (by simp [ht]))]
      exact settled_assertion
    case h_4 => exact settled_hostDriveEop h bus

/-- A call outside of the body of a packet stores nothing. -/
theorem Receiver.settled {r : Receiver} {c : Call} (h : x.stage = .dataxBody → Filled x bytes)
    (hpid : x.stage = .dataxPID → bytes = []) (hr : r.receives x c = false) :
    Settled bytes (r.step x c) := by
  have hout : ∀ {P : Prop}, r.receives x c = true → P := fun htrue => by simp [hr] at htrue
  have hrecv : Settled bytes (dataxRecvStep x c.bus) :=
    settled_dataxRecvStep h hpid fun hs ht hdir => hout (receives_iff.mpr ⟨hs, hdir, .inl ht⟩)
  cases r with
  | dataxRecv => exact hrecv
  | bulkIn =>
      rw [step, bulkInStep]
      split
      case h_1 =>
        refine (settled_tokenSendStep h).bind fun result next out hnext => ?_
        exact Settled.ite hnext (Settled.ite (settled_turn c.cycle next out) hnext)
      case h_2 | h_3 => exact hrecv.bulkInData c.cycle c.wait
      case h_4 =>
        refine (settled_ackSendStep h).bind fun result next out hnext => ?_
        exact Settled.ite (settled_transferAck next result out) hnext
      case h_5 ht =>
        by_cases hdue : timedOut c.cycle x = true
        · rw [if_pos hdue]
          exact settled_stage (by simp) _ _
        · by_cases hs : x.stage = .dataxBody
          · have hbus : ¬(c.bus.dir = .sig0 ∧ c.bus.data.b = 0x00) := fun ⟨hdir, hb⟩ =>
              hout (receives_iff.mpr ⟨hs, hdir, .inr ⟨rfl, ht, by simpa using hdue, hb⟩⟩)
            rw [if_neg hdue, if_pos hs, if_neg hbus]
            exact settled_assertion
          · rw [if_neg hdue, if_neg hs]
            refine (settled_hostDriveEop h c.bus).bind fun result next out hnext => ?_
            exact Settled.ite hnext fun hn => (hnext hn).congr rfl rfl
      case h_6 => exact h
      case h_7 => exact h

end Settled

/-! ## Runs -/

/-- What is known between the calls. -/
structure Kept (s : Progress) (p : Packet) : Prop where
  inside : ∀ index, s ≠ .error (.store index)
  body : ∀ result x, s = .ok (result, x) → x.stage = .dataxBody → Filled x p.bytes
  ended : p.ended = true → ∃ result x, s = .ok (result, x) ∧ Received result x p.bytes

theorem Kept.bounded {s : Progress} {p : Packet} (h : Kept s p) : Bounded s p where
  inside := h.inside
  overlong hend hlong := by
    obtain ⟨_, _, _, hx⟩ := h.ended hend
    have hroom := hx.filled.room
    omega
  recorded hend payload hbytes _ := by
    obtain ⟨result, x, hs, hx⟩ := h.ended hend
    refine ⟨result, x, hs, ?_⟩
    rw [hx.length, hbytes]
    simp [packet]

namespace Receiver

variable {r : Receiver} {result : ℤ} {x : HostXfer} {c : Call} {p : Packet}

theorem call_ok (r : Receiver) (result : ℤ) (x : HostXfer) (c : Call) :
    r.call (.ok (result, x)) c = (fun q => (q.1, q.2.1)) <$> r.step x c := by
  show r.step x c >>= _ = _
  cases r.step x c <;> rfl

theorem kept_idle (x : HostXfer) : Kept (.ok (0, { x with stage := .noXfer })) ⟨[], false⟩ where
  inside _ h := nomatch h
  body _ y hy hstage := by
    cases hy
    exact nomatch hstage
  ended h := nomatch h

theorem kept_of_settled (h : Settled p.bytes (r.step x c)) (hend : p.ended = false) :
    Kept (r.call (.ok (result, x)) c) p := by
  rw [call_ok]
  cases hstep : r.step x c with
  | error f =>
      rw [hstep] at h
      exact ⟨fun index hf => h index (Except.error.inj hf), fun _ _ hy => (nomatch hy),
        fun htrue => by simp [hend] at htrue⟩
  | ok q =>
      obtain ⟨result', next, out⟩ := q
      rw [hstep] at h
      refine ⟨fun _ hf => (nomatch hf), fun _ y hy hstage => ?_, fun htrue => by simp [hend] at htrue⟩
      cases hy
      exact h hstage

/-- The packet ends. -/
theorem kept_end (h : Filled x p.bytes) (hr : r.receives x c = true) (hstp : c.bus.stp = .sig1) :
    Kept (r.call (.ok (result, x)) c) ⟨p.bytes, true⟩ := by
  obtain ⟨bodyResult, next, out, hbody, hresult, hstage, hnext⟩ := h.body_end hstp
  obtain ⟨result', next', out', hstep, hpasses⟩ := step_body hr hbody hresult
  have hreceived : Received result' next' p.bytes := by
    refine ⟨hpasses.filled _ hnext.filled, hpasses.rxLen.trans hnext.length, fun hlong => ?_⟩
    have hptr := hnext.filled.pointer
    rw [(hpasses.same (by omega)).1, hnext.checked hlong]
  rw [call_ok, hstep]
  refine ⟨fun _ hf => (nomatch hf), fun _ y hy hs => ?_, fun _ => ⟨result', next', rfl, hreceived⟩⟩
  cases hy
  rw [hpasses.stage, hstage] at hs
  exact nomatch hs

/-- A byte of the packet comes. -/
theorem kept_byte (h : Filled x p.bytes) (hr : r.receives x c = true) (hstp : c.bus.stp ≠ .sig1)
    (hnxt : c.bus.nxt = .sig1) (hroom : p.bytes.length < maxPacketSize) :
    Kept (r.call (.ok (result, x)) c) ⟨p.bytes ++ [c.bus.data.a], false⟩ := by
  obtain ⟨next, hbody, -, -, hnext⟩ := h.body_byte hstp hnxt hroom
  obtain ⟨result', next', out', hstep, hpasses⟩ := step_body hr hbody (.inl rfl)
  apply kept_of_settled _ rfl
  rw [hstep]
  exact fun _ => hpasses.filled _ hnext

/-- Nothing comes. -/
theorem kept_wait (h : Filled x p.bytes) (hr : r.receives x c = true) (hstp : c.bus.stp ≠ .sig1)
    (hnxt : c.bus.nxt ≠ .sig1) : Kept (r.call (.ok (result, x)) c) ⟨p.bytes, false⟩ := by
  have hbody : dataxBodyStep x c.bus = .ok (0, x, { c.bus with nxt := .sig1 }) := by
    rw [dataxBodyStep, if_neg hstp, if_neg hnxt]
  obtain ⟨result', next', out', hstep, hpasses⟩ := step_body hr hbody (.inl rfl)
  apply kept_of_settled _ rfl
  rw [hstep]
  exact fun _ => hpasses.filled _ h

theorem kept_outside (h : x.stage = .dataxBody → Filled x p.bytes) (hr : r.receives x c = false) :
    Kept (r.call (.ok (result, x)) c) ⟨if x.stage = .dataxPID then [] else p.bytes, false⟩ := by
  apply kept_of_settled _ rfl
  by_cases hpid : x.stage = .dataxPID
  · rw [if_pos hpid]
    exact settled (fun hs => absurd (hpid.symm.trans hs) (by simp)) (fun _ => rfl) hr
  · rw [if_neg hpid]
    exact settled h (fun hs => absurd hs hpid) hr

theorem kept_next {s : Progress} (h : Kept s p) (hshort : r.Short (s, p) c) :
    Kept (r.call s c) (r.watch p s c) := by
  cases s with
  | error f => exact h
  | ok q =>
      obtain ⟨result, x⟩ := q
      cases hr : r.receives x c with
      | false =>
          simpa [watch, takesByte, hr] using kept_outside (h.body result x rfl) hr
      | true =>
          have hx : x.stage = .dataxBody := (receives_iff.mp hr).1
          have hfilled := h.body result x rfl hx
          by_cases hstp : c.bus.stp = .sig1
          · simpa [watch, takesByte, hr, hstp, hx] using kept_end hfilled hr hstp
          · have hend : (c.bus.stp == .sig1) = false := by simpa using hstp
            by_cases hnxt : c.bus.nxt = .sig1
            · have hroom := hshort result x rfl (by simp [takesByte, hr, hstp, hnxt])
              simpa [watch, takesByte, hr, hstp, hnxt, hend] using kept_byte hfilled hr hstp hnxt hroom
            · simpa [watch, takesByte, hr, hnxt, hend, hx] using kept_wait hfilled hr hstp hnxt

/-- A byte that comes too late is stored outside of the buffer. -/
theorem call_full (h : Filled x p.bytes) (hr : r.receives x c = true) (hstp : c.bus.stp ≠ .sig1)
    (hnxt : c.bus.nxt = .sig1) (hfull : ¬p.bytes.length < maxPacketSize) :
    r.call (.ok (result, x)) c = .error (.store x.rxPtr) := by
  rw [call_ok, step_fault hr (h.body_full hstp hnxt hfull)]
  rfl

theorem overruns {s : Progress} (h : Kept s p) (hlong : ¬r.Short (s, p) c) :
    ∃ index, r.call s c = .error (.store index) := by
  obtain ⟨result, x, rfl, htakes, hfull⟩ : ∃ result x, s = .ok (result, x) ∧
      r.takesByte x c = true ∧ ¬p.bytes.length < maxPacketSize := by
    simpa [Short] using hlong
  obtain ⟨⟨hr, hstp⟩, hnxt⟩ : (r.receives x c = true ∧ c.bus.stp ≠ .sig1) ∧ c.bus.nxt = .sig1 := by
    simpa [takesByte] using htakes
  have hfilled := h.body result x rfl (receives_iff.mp hr).1
  exact ⟨x.rxPtr, call_full hfilled hr hstp hnxt hfull⟩

/-- After a fault nothing is called. -/
theorem run_error (r : Receiver) (f : Fault) (p : Packet) (cs : List Call) :
    (run (watched r.call r.watch) (.error f, p) cs).1 = .error f :=
  run_always (fun q : Progress × Packet => q.1 = .error f)
    (fun q c hq => by rw [watched_fst, hq]; rfl) rfl cs

theorem overruns_of_not_short {s : Progress} {cs : List Call} (h : Kept s p)
    (hlong : ¬Along (watched r.call r.watch) r.Short (s, p) cs) :
    ∃ index, (run (watched r.call r.watch) (s, p) cs).1 = .error (.store index) := by
  induction cs generalizing s p with
  | nil => exact absurd trivial hlong
  | cons c cs ih =>
      by_cases hshort : r.Short (s, p) c
      · exact ih (kept_next h hshort) fun hrest => hlong ⟨hshort, hrest⟩
      · obtain ⟨index, hfault⟩ := overruns h hshort
        refine ⟨index, ?_⟩
        rw [run_cons, watched, hfault]
        exact run_error r (.store index) _ cs

/-- The receiver stays inside its buffer, and reports what it receives, exactly if no packet has more
than 512 bytes behind its PID. -/
theorem bounded_iff (r : Receiver) (x : HostXfer) (cs : List Call) :
    Bounded (r.calls x cs).1 (r.calls x cs).2 ↔
      Along (watched r.call r.watch) r.Short (.ok (0, { x with stage := .noXfer }), ⟨[], false⟩) cs := by
  constructor
  · intro hbounded
    by_contra hlong
    obtain ⟨index, hfault⟩ := overruns_of_not_short (kept_idle x) hlong
    exact hbounded.inside index hfault
  · intro hshort
    exact Kept.bounded (run_invariant (fun q : Progress × Packet => Kept q.1 q.2)
      (fun q c hq hok => kept_next hq hok) (kept_idle x) hshort)

/-! ## A packet that is too long -/

/-- The transfer is in the body of a packet. -/
structure Receiving (x : HostXfer) (bytes : List (BitVec 8)) : Prop where
  type : x.type = .upDATA0 ∨ x.type = .upDATA1
  stage : x.stage = .dataxBody
  filled : Filled x bytes

/-- The bus while the link drives it. -/
def drives (stp nxt : Bit) (byte : BitVec 8) : Call where
  bus := { clock := .sig1, rstN := .sig1, dir := .sig0, stp := stp, nxt := nxt, data := ⟨byte, 0x00⟩ }
  cycle := 0
  wait := false

theorem Receiving.receives {bytes : List (BitVec 8)} (h : Receiving x bytes) (r : Receiver)
    (stp nxt : Bit) (byte : BitVec 8) : r.receives x (drives stp nxt byte) = true :=
  receives_iff.mpr ⟨h.stage, rfl, .inl h.type⟩

theorem Receiving.byte (h : Receiving x p.bytes) (r : Receiver) (result : ℤ) (byte : BitVec 8)
    (hroom : p.bytes.length < maxPacketSize) :
    ∃ next, Receiving next (p.bytes ++ [byte]) ∧
      watched r.call r.watch (.ok (result, x), p) (drives .sig0 .sig1 byte) =
        (.ok (0, next), ⟨p.bytes ++ [byte], false⟩) := by
  have hr := h.receives r .sig0 .sig1 byte
  have hstp : (drives .sig0 .sig1 byte).bus.stp ≠ .sig1 := by simp [drives]
  obtain ⟨next, hbody, hstage, htype, hnext⟩ := h.filled.body_byte hstp rfl hroom
  obtain ⟨result', next', out, hstep, hpasses⟩ := step_body hr hbody (.inl rfl)
  have hptr : next.rxPtr ≠ 0 := by
    rw [hnext.pointer]
    simp
  obtain ⟨rfl, rfl⟩ := hpasses.same hptr
  refine ⟨next', ⟨by rw [htype]; exact h.type, hstage.trans h.stage, hnext⟩, ?_⟩
  have hw : r.watch p (.ok (result, x)) (drives .sig0 .sig1 byte) = ⟨p.bytes ++ [byte], false⟩ := by
    simp only [watch, takesByte, hr]
    rfl
  rw [watched, hw, call_ok, hstep]
  rfl

/-- Bytes for which there is room are received. -/
theorem Receiving.run (h : Receiving x p.bytes) (r : Receiver) (result : ℤ) (bytes : List (BitVec 8))
    (hroom : p.bytes.length + bytes.length ≤ maxPacketSize) :
    ∃ result' next ended, Receiving next (p.bytes ++ bytes) ∧
      Clocked.run (watched r.call r.watch) (.ok (result, x), p) (bytes.map (drives .sig0 .sig1)) =
        (.ok (result', next), ⟨p.bytes ++ bytes, ended⟩) := by
  induction bytes generalizing result x p with
  | nil => exact ⟨result, x, p.ended, by simpa using h, by simp⟩
  | cons byte bytes ih =>
      rw [List.length_cons] at hroom
      obtain ⟨next, hnext, hstep⟩ := h.byte r result byte (by omega)
      obtain ⟨result', last, ended, hlast, hrun⟩ :=
        ih (p := ⟨p.bytes ++ [byte], false⟩) hnext 0 (by simp; omega)
      rw [List.append_assoc, List.singleton_append] at hlast hrun
      exact ⟨result', last, ended, hlast, by rw [List.map_cons, run_cons, hstep, hrun]⟩

/-- A transfer that waits for a DATA0 packet. -/
def listening : HostXfer :=
  { (default : HostXfer) with type := .upDATA0, cycle := turnaroundTimer.setWidth 32 }

/-- The link sends its TX CMD, the bytes of a packet and `stp`. -/
def sends (bytes : List (BitVec 8)) : List Call :=
  [drives .sig0 .sig0 ulpitxDATA0, drives .sig0 .sig1 ulpitxDATA0, drives .sig0 .sig0 0x00] ++
    (bytes.map (drives .sig0 .sig1) ++ [drives .sig1 .sig1 0x00])

theorem calls_sends (r : Receiver) (bytes : List (BitVec 8)) :
    ∃ x, Receiving x [] ∧ r.calls listening (sends bytes) =
      Clocked.run (watched r.call r.watch) (.ok (0, x), ⟨[], false⟩)
        (bytes.map (drives .sig0 .sig1) ++ [drives .sig1 .sig1 0x00]) := by
  have hstart : ∃ x, Receiving x [] ∧
      Clocked.run (watched r.call r.watch) (.ok (0, { listening with stage := .noXfer }), ⟨[], false⟩)
        [drives .sig0 .sig0 ulpitxDATA0, drives .sig0 .sig1 ulpitxDATA0, drives .sig0 .sig0 0x00] =
          (.ok (0, x), ⟨[], false⟩) := by
    cases r <;> exact ⟨_, ⟨.inl rfl, rfl, filled_nil rfl⟩, rfl⟩
  obtain ⟨x, hx, hrun⟩ := hstart
  exact ⟨x, hx, by rw [calls, sends, run_append, hrun]⟩

/-- A payload of up to 510 bytes is received. -/
theorem received_sends (r : Receiver) {payload : List (BitVec 8)}
    (hroom : payload.length + 2 ≤ maxPacketSize) :
    ∃ x, (r.calls listening (sends (packet payload))).1 = .ok (0, x) ∧
      x.rxLen = payload.length ∧ x.rx.toList.take payload.length = payload := by
  have hlen : (packet payload).length = payload.length + 2 := by simp [packet]
  obtain ⟨x, hx, hcalls⟩ := calls_sends r (packet payload)
  obtain ⟨result, next, ended, hnext, hrun⟩ :=
    Receiving.run (p := ⟨[], false⟩) hx r 0 (packet payload) (by simpa [hlen] using hroom)
  have hend : Kept (r.call (.ok (result, next)) (drives .sig1 .sig1 0x00)) ⟨packet payload, true⟩ :=
    kept_end (p := ⟨packet payload, ended⟩) hnext.filled (hnext.receives r .sig1 .sig1 0x00) rfl
  obtain ⟨result', last, hcall, hlast⟩ := hend.ended rfl
  refine ⟨last, ?_, ?_, ?_⟩
  · have hzero : result' = 0 := by
      rw [hlast.checked (by simp [hlen]), crc16Check_packet]
      rfl
    rw [hcalls, run_append, hrun, run_cons, run_nil, watched_fst]
    exact hzero ▸ hcall
  · rw [hlast.length, hlen]
    omega
  · have hfront := congrArg (List.take payload.length) hlast.filled.stored
    rw [List.take_take, Nat.min_eq_left (by simp [hlen])] at hfront
    rw [hfront, packet, List.take_left]

/-- A byte behind the 512th is stored outside of the buffer. -/
theorem overflows_sends (r : Receiver) {bytes : List (BitVec 8)} (hlong : maxPacketSize < bytes.length) :
    ∃ index, (r.calls listening (sends bytes)).1 = .error (.store index) := by
  obtain ⟨x, hx, hcalls⟩ := calls_sends r bytes
  obtain ⟨result, next, ended, hnext, hrun⟩ :=
    Receiving.run (p := ⟨[], false⟩) hx r 0 (bytes.take maxPacketSize) (by simp)
  rw [List.nil_append] at hnext hrun
  obtain ⟨byte, rest, hrest⟩ : ∃ byte rest, bytes.drop maxPacketSize = byte :: rest :=
    List.exists_cons_of_length_pos (by simpa using hlong)
  have hcall : r.call (.ok (result, next)) (drives .sig0 .sig1 byte) = .error (.store next.rxPtr) :=
    call_full (p := ⟨bytes.take maxPacketSize, ended⟩) hnext.filled
      (hnext.receives r .sig0 .sig1 byte) (by simp [drives]) rfl (by simp [Nat.le_of_lt hlong])
  refine ⟨next.rxPtr, ?_⟩
  rw [hcalls, ← List.take_append_drop maxPacketSize bytes, hrest, List.map_append, List.append_assoc,
    run_append, hrun, List.map_cons, List.cons_append, run_cons, watched, hcall]
  exact run_error r _ _ _

def longest : List Call := sends (packet (List.replicate 512 0x00))

/-- The longest payload, with the two bytes of its check sum, does not fit into the buffer. -/
theorem not_alwaysBounded : ¬AlwaysBounded .dataxRecv ∧ ¬AlwaysBounded .bulkIn := by
  have hlong : maxPacketSize < (packet (List.replicate 512 0x00)).length := by
    rw [packet, List.length_append, List.length_replicate]
    decide
  have hnot : ∀ r, ¬AlwaysBounded r := by
    intro r halways
    obtain ⟨index, hfault⟩ := overflows_sends r hlong
    exact (halways listening longest).inside index hfault
  exact ⟨hnot _, hnot _⟩

end Receiver

end MiscVerilogCores.VpiUsb
