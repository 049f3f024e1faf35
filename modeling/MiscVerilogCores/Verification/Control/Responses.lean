import MiscVerilogCores.Verification.Control.Descriptors
import MiscVerilogCores.Verification.Control.Requests
import MiscVerilogCores.Verification.Skid.Contents

/-! # Responses to GET_DESCRIPTOR

The bytes left to send are counted down from a length that is latched one byte too early: the high
byte of `wLength` is not in it. -/

namespace MiscVerilogCores.ControlPipe

open Clocked Usb CtlPipe0
open UsbUlpiTop (Armed)

variable {p : CtlPipe0.Params}

/-! ## The request -/

/-- The byte of the request that is taken in a cycle. -/
def byteOf (s : State p) (i : Inputs) : Option (BitVec 8) :=
  if Stdreq.takes s.std i.std then some i.std.sTdata else none

/-- The bytes that are taken in some cycles. -/
def bytesOf (s : State p) (is : List Inputs) : List (Option (BitVec 8)) :=
  emitted step (fun s i => [byteOf s i]) s is

/-- Nothing is on its way to the `m_` port. -/
structure Hushed (s : State p) : Prop where
  getDesc : s.ctl.getDescQ = false
  status : s.std.zdpQ = false
  ready : s.ctl.skid.sready = true
  valid : s.ctl.skid.mvalid = false
  behind : s.ctl.skid.tvalid = false

/-- No control transfer is in progress. -/
structure Rest (s : State p) : Prop where
  state : s.std.state = .idle
  cyc : s.std.cycQ = false
  start : s.std.parser.reqStart = false
  cycle : s.std.parser.reqCycle = false
  hushed : Hushed s

/-- An edge while the request arrives: the device does not send. -/
structure Arriving (i : Inputs) : Prop where
  reset : i.std.reset = false
  silent : i.std.hskSent = false

/-- GET_DESCRIPTOR, in the bytes that the host sends for it. -/
def getDescriptor (d : Descriptor) (index length : BitVec 16) : List (BitVec 8) :=
  [0x80, 0x06] ++ Stdreq.Parser.littleEndian d.value ++ Stdreq.Parser.littleEndian index ++
    Stdreq.Parser.littleEndian length

/-- A SETUP token is taken, and then the eight bytes of a request, the last of them in the last
cycle. -/
structure Request (s : State p) (token : Inputs) (mid : List Inputs) (last : Inputs)
    (bytes : List (BitVec 8)) : Prop where
  selected : Stdreq.selW true s.std token.std = true
  reset : token.std.reset = false
  arriving : ∀ i ∈ mid ++ [last], Arriving i
  taken : Stdreq.takes (run step (step s token) mid).std last.std = true
  bytes : (bytesOf (step s token) (mid ++ [last])).reduceOption = bytes

section Arrival

variable {s : State p} {i : Inputs}

/-- No word is offered, and none is sent. -/
theorem Hushed.next (h : Hushed s) (hr : i.std.reset = false) (hstart : s.std.parser.reqStart = false)
    (hzdp : (step s i).std.zdpQ = false) : Hushed (step s i) ∧ sent s i = [] := by
  have hoffer : tvalidW s.ctl (ctlInputs s i) = false := by
    simp [tvalidW, ctlInputs, h.status, h.getDesc]
  have hstartI : (ctlInputs s i).startI = false := hstart
  have hreset : (skidInputs s.ctl (ctlInputs s i)).reset = false := hr
  have hvalid : (skidInputs s.ctl (ctlInputs s i)).sTvalid = false := hoffer
  refine ⟨⟨?_, hzdp, ?_, ?_, ?_⟩, ?_⟩
  · simp [step, CtlPipe0.step, getDescNext, h.getDesc, hstartI]
  · simp [step, CtlPipe0.step, AxisSkid.step, Skid.srcReady, hreset, hvalid, h.behind]
  · simp [step, CtlPipe0.step, AxisSkid.step, Skid.dstValid, hvalid, h.behind, h.valid]
  · simp [step, CtlPipe0.step, AxisSkid.step, Skid.tmpValid, Skid.srcReady, hvalid, h.behind]
  · simp [sent, mTvalidO, AxisSkid.mTvalid, h.valid]

theorem Hushed.contents (h : Hushed s) : AxisSkid.contents s.ctl.skid = [] := by
  simp [AxisSkid.contents, SkidLoader.contents, AxisSkid.State.toLoader, h.valid, h.behind]

theorem Hushed.skid_valid (h : Hushed s) : AxisSkid.Valid s.ctl.skid :=
  ⟨fun hb => by simp [AxisSkid.State.toLoader, h.behind] at hb, fun _ => h.behind,
    fun hl => by simp [AxisSkid.State.toLoader] at hl,
    fun hs => by simp [AxisSkid.State.toLoader, h.ready] at hs⟩

/-- Before the handshake the status packet is not asked for. -/
theorem zdpQ_of_silent (r : Stdreq.State) {j : Stdreq.Inputs} (h : j.hskSent = false) :
    (Stdreq.step true r j).zdpQ = false := by
  cases hs : r.state <;> simp [Stdreq.step, Stdreq.zdpC, hs, h]

/-- The bytes `os` of a request have arrived. -/
structure Parsing (s : State p) (q : Stdreq.Parser) (os : List (Option (BitVec 8))) : Prop where
  armed : Armed s.std
  hushed : Hushed s
  parser : s.std.parser = run Stdreq.Parser.absorb q os

/-- The parser is clear. -/
structure Clear (q : Stdreq.Parser) : Prop where
  xcptr : q.xcptr = 0
  lenhi : q.lenhi = 0
  start : q.reqStart = false
  cycle : q.reqCycle = false

theorem clear_clear (q : Stdreq.Parser) : Clear q.clear := ⟨rfl, rfl, rfl, rfl⟩

theorem Rest.parsing (h : Rest s) (hsel : Stdreq.selW true s.std i.std = true)
    (hr : i.std.reset = false) :
    Parsing (step s i) s.std.parser.clear [] ∧ sent s i = [] := by
  have hzdp : (step s i).std.zdpQ = false := by simp [step, Stdreq.step, Stdreq.zdpC, h.state]
  obtain ⟨hhushed, hsent⟩ := h.hushed.next hr h.start hzdp
  refine ⟨⟨⟨?_, Or.inr ⟨?_, ?_⟩⟩, hhushed, ?_⟩, hsent⟩
  · simp [step, Stdreq.step, hr, hsel]
  · simp [step, Stdreq.step, Stdreq.snext, hr, h.cyc]
  · simp [step, Stdreq.step, hr, hsel]
  · simp [step, Stdreq.step, Stdreq.parserNext, h.cyc]

theorem endW_of_armed {r : Stdreq.State} (h : Armed r) (j : Stdreq.Inputs) :
    Stdreq.endW r j = false := by
  rcases h.state with hs | ⟨hs, -⟩ <;> simp [Stdreq.endW, hs]

theorem armed_step {r : Stdreq.State} {j : Stdreq.Inputs} (h : Armed r) (hr : j.reset = false)
    (hsent : j.hskSent = false) : Armed (Stdreq.step true r j) := by
  refine ⟨by simp [Stdreq.step, hr, endW_of_armed h, h.cyc], Or.inl ?_⟩
  rcases h.state with hs | ⟨hs, hsel⟩
  · simp [Stdreq.step, Stdreq.snext, hr, hsent, h.cyc, hs]
  · simp [Stdreq.step, Stdreq.snext, hr, h.cyc, hs, hsel]

/-- The parser absorbs what is taken. -/
theorem parser_step (hcyc : s.std.cycQ = true) (hend : Stdreq.endW s.std i.std = false) :
    (step s i).std.parser = s.std.parser.absorb (byteOf s i) := by
  have hstep : (step s i).std.parser = Stdreq.parserNext s.std i.std := rfl
  rw [hstep, Stdreq.parserNext, hcyc, hend, byteOf]
  cases Stdreq.takes s.std i.std <;> rfl

theorem Parsing.next {q : Stdreq.Parser} {os : List (Option (BitVec 8))} (h : Parsing s q os)
    (hq : Clear q) (hlen : os.reduceOption.length < 8) (hi : Arriving i) :
    Parsing (step s i) q (os ++ [byteOf s i]) ∧ sent s i = [] := by
  have hroom : q.xcptr.toNat + os.reduceOption.length < 8 := by simpa [hq.xcptr] using hlen
  have hshort := Stdreq.Parser.absorbed_short hroom
  have hstart : s.std.parser.reqStart = false := h.parser ▸ hshort.2.2.2 hq.start
  obtain ⟨hhushed, hsent⟩ := h.hushed.next hi.reset hstart (zdpQ_of_silent _ hi.silent)
  refine ⟨⟨armed_step h.armed hi.reset hi.silent, hhushed, ?_⟩, hsent⟩
  rw [parser_step h.armed.cyc (endW_of_armed h.armed _), h.parser, run_append]
  rfl

theorem bytesOf_append (s : State p) (is js : List Inputs) :
    bytesOf s (is ++ js) = bytesOf s is ++ bytesOf (run step s is) js :=
  emitted_append step _ s is js

theorem Parsing.run {q : Stdreq.Parser} {os : List (Option (BitVec 8))} {is : List Inputs}
    (h : Parsing s q os) (hq : Clear q) (hlen : (os ++ bytesOf s is).reduceOption.length < 8)
    (his : ∀ i ∈ is, Arriving i) :
    Parsing (Clocked.run step s is) q (os ++ bytesOf s is) ∧ emitted step sent s is = [] := by
  induction is generalizing s os with
  | nil => exact ⟨by simpa [bytesOf] using h, rfl⟩
  | cons i is ih =>
      have hbytes : os ++ bytesOf s (i :: is) = (os ++ [byteOf s i]) ++ bytesOf (step s i) is := by
        simp [bytesOf]
      rw [hbytes] at hlen ⊢
      have hshort : os.reduceOption.length < 8 := by
        simp only [List.reduceOption_append, List.length_append] at hlen
        omega
      obtain ⟨hnext, hsent⟩ := h.next hq hshort (his i (by simp))
      obtain ⟨hrun, hrest⟩ := ih hnext hlen fun j hj => his j (List.mem_cons_of_mem i hj)
      exact ⟨hrun, by rw [emitted_cons, hsent, hrest]; rfl⟩

/-- The request has been decoded: the budget is that of the low byte of its length. -/
structure Started (s : State p) (d : Descriptor) (wLength : BitVec 16) : Prop where
  armed : Armed s.std
  hushed : Hushed s
  start : s.std.parser.reqStart = true
  cycle : s.std.parser.reqCycle = true
  rtype : s.std.parser.rtype = 0x80
  rargs : s.std.parser.rargs = 0x06
  value : s.std.parser.value = d.value
  length : s.std.parser.length = wLength
  count : s.ctl.count = BitVec.ofNat 7 (min (wLength.toNat % 256) 64) - 1

/-- The fields of a request are those that its bytes stand for. -/
theorem fields_of_encoded {q : Stdreq.Parser} {d : Descriptor} {index length : BitVec 16}
    (h : q.encoded = getDescriptor d index length) :
    q.rtype = 0x80 ∧ q.rargs = 0x06 ∧ q.value = d.value ∧ q.length = length := by
  rw [Stdreq.Parser.encoded, getDescriptor] at h
  obtain ⟨h, hlength⟩ := List.append_inj h rfl
  obtain ⟨h, -⟩ := List.append_inj h rfl
  obtain ⟨h, hvalue⟩ := List.append_inj h rfl
  obtain ⟨hrtype, hrargs⟩ : q.rtype = 0x80 ∧ q.rargs = 0x06 := by simpa using h
  exact ⟨hrtype, hrargs, Stdreq.Parser.littleEndian_injective hvalue,
    Stdreq.Parser.littleEndian_injective hlength⟩

theorem Parsing.started {q : Stdreq.Parser} {os : List (Option (BitVec 8))} (h : Parsing s q os)
    (hq : Clear q) (hi : Arriving i) (htakes : Stdreq.takes s.std i.std = true) {d : Descriptor}
    {index length : BitVec 16}
    (hbytes : (os ++ [byteOf s i]).reduceOption = getDescriptor d index length) :
    Started (step s i) d length ∧ sent s i = [] := by
  have hbyte : byteOf s i = some i.std.sTdata := by rw [byteOf, if_pos htakes]
  have hseven : os.reduceOption.length = 7 := by
    have hlen := congrArg List.length hbytes
    rw [hbyte, List.reduceOption_append, List.length_append] at hlen
    simpa [getDescriptor] using hlen
  have hlt : os.reduceOption.length < 8 := by omega
  have hroom : q.xcptr.toNat + os.reduceOption.length < 8 := by simpa [hq.xcptr] using hlt
  obtain ⟨hx, hhi, hcycle, -⟩ := Stdreq.Parser.absorbed_short hroom
  rw [← h.parser] at hx hhi hcycle
  have hx7 : s.std.parser.xcptr = 7 := BitVec.eq_of_toNat_eq (by simp [hx, hq.xcptr, hseven])
  obtain ⟨hnext, hsent⟩ := h.next hq hlt hi
  have hencoded : (step s i).std.parser.encoded = getDescriptor d index length := by
    rw [hnext.parser, Stdreq.Parser.encoded_of_clear hq.xcptr, hbytes]
    rw [hbytes]
    rfl
  obtain ⟨hrtype, hrargs, hvalue, hlength⟩ := fields_of_encoded hencoded
  have htake : (step s i).std.parser = s.std.parser.take i.std.sTdata := by
    rw [parser_step h.armed.cyc (endW_of_armed h.armed _), hbyte]
    rfl
  have hstart := Stdreq.Parser.reqStart_take_last i.std.sTdata hx7 (hcycle.trans hq.cycle)
  have hcyc : (s.std.parser.take i.std.sTdata).reqCycle = true := by
    simp [Stdreq.Parser.take, hx7, hcycle, hq.cycle]
  refine ⟨⟨hnext.armed, hnext.hushed, htake ▸ hstart, htake ▸ hcyc, hrtype, hrargs, hvalue, hlength,
    ?_⟩, hsent⟩
  -- The length is latched at the edge that stores its high byte.
  have hlo : s.std.parser.lenlo = length.setWidth 8 := by
    rw [← hlength, htake, Stdreq.Parser.length]
    simpa [Stdreq.Parser.take, hx7] using BitVec.setWidth_append_eq_right.symm
  have hlatched : (ctlInputs s i).reqLength.toNat = length.toNat % 256 := by
    simp only [ctlInputs, Stdreq.Parser.length, hhi, hq.lenhi, hlo]
    exact (BitVec.toNat_append 0#8 (length.setWidth 8)).trans (by simp)
  have hselect : (ctlInputs s i).selectI = false := hcycle.trans hq.cycle
  simp [step, CtlPipe0.step, hselect, maxlenW, hlatched]

end Arrival

/-- Nothing is sent until the request has been decoded. -/
theorem Request.started {s : State p} {token : Inputs} {mid : List Inputs} {last : Inputs}
    {d : Descriptor} {index length : BitVec 16}
    (h : Request s token mid last (getDescriptor d index length)) (hs : Rest s) :
    Started (run step s (token :: (mid ++ [last]))) d length ∧
      emitted step sent s (token :: (mid ++ [last])) = [] := by
  obtain ⟨hparsing, hsent⟩ := hs.parsing h.selected h.reset
  have hbytes := h.bytes
  rw [bytesOf_append] at hbytes
  have hlast : bytesOf (run step (step s token) mid) [last] =
      [byteOf (run step (step s token) mid) last] := rfl
  have hbyte : byteOf (run step (step s token) mid) last = some last.std.sTdata := by
    rw [byteOf, if_pos h.taken]
  have hlen : (bytesOf (step s token) mid).reduceOption.length < 8 := by
    have hlen := congrArg List.length hbytes
    rw [hlast, hbyte, List.reduceOption_append, List.length_append] at hlen
    have hseven : (bytesOf (step s token) mid).reduceOption.length = 7 := by
      simpa [getDescriptor] using hlen
    omega
  obtain ⟨hrun, hmid⟩ := hparsing.run (clear_clear _) (by simpa using hlen)
    fun i hi => h.arriving i (by simp [hi])
  obtain ⟨hstarted, hend⟩ := hrun.started (clear_clear _) (h.arriving last (by simp)) h.taken hbytes
  rw [run_cons, run_append, emitted_cons, emitted_append, hsent, hmid]
  exact ⟨hstarted, by simpa using hend⟩

/-! ## The response -/

/-- What is asked of the cycles of the response: no byte is taken for a request, and no handshake
received. -/
structure Responsive (s : State p) (i : Inputs) : Prop where
  reset : i.std.reset = false
  takes : Stdreq.takes s.std i.std = false
  recv : i.std.hskRecv = false

/-- The data stage of GET_DESCRIPTOR is ahead, or goes on. -/
structure InTransfer (r : Stdreq.State) (d : Descriptor) : Prop where
  cyc : r.cycQ = true
  state : r.state ≠ .status
  zdp : r.zdpQ = false
  cycle : r.parser.reqCycle = true
  rtype : r.parser.rtype = 0x80
  rargs : r.parser.rargs = 0x06
  value : r.parser.value = d.value
  length : Stdreq.noLength r = false

/-- The bytes of the response: those of the descriptor, up to the budget `m`. -/
def response (p : CtlPipe0.Params) (d : Descriptor) (m : ℕ) : List (BitVec 8) := (d.bytes p).take m

/-- What is left of the response behind the skid register, and the steps it needs: two for each
byte, one for the start of the request. -/
inductive Stage (d : Descriptor) (m : ℕ) (s : State p) : List Word → ℕ → Prop where
  | pending (hstart : s.std.parser.reqStart = true) (hget : s.ctl.getDescQ = false)
      (hcount : s.ctl.count = BitVec.ofNat 7 m - 1) :
      Stage d m s (packet (response p d m)) (2 * (response p d m).length + 1)
  | sending (k : ℕ) (hk : k < (response p d m).length) (hstart : s.std.parser.reqStart = false)
      (hget : s.ctl.getDescQ = true) (haddr : s.ctl.memAddr = BitVec.ofNat _ (d.start p + k))
      (hcount : s.ctl.count.toNat + k + 1 = m) :
      Stage d m s ((packet (response p d m)).drop k) (2 * ((response p d m).length - k))
  | spent (hstart : s.std.parser.reqStart = false)
      (hnone : s.ctl.getDescQ = false ∨ s.ctl.count = 127) : Stage d m s [] 0

/-- The words left to send: those in the skid register, and those behind it. -/
structure Responding (d : Descriptor) (m : ℕ) (s : State p) (left : List Word) (rank : ℕ) :
    Prop where
  transfer : InTransfer s.std d
  valid : AxisSkid.Valid s.ctl.skid
  started : ¬ (s.ctl.skid.sready = false ∧ s.ctl.skid.tvalid = false)
  stage : ∃ rest n, Stage d m s rest n ∧ left = AxisSkid.contents s.ctl.skid ++ rest ∧
    rank = (AxisSkid.contents s.ctl.skid).length + n

section Transfer

variable {s : State p} {i : Inputs} {d : Descriptor} {m : ℕ} {left : List Word} {rank : ℕ}

theorem InTransfer.parser_next (h : InTransfer s.std d) (hi : Responsive s i) :
    (step s i).std.parser = s.std.parser.rest false := by
  have hend : Stdreq.endW s.std i.std = false := by simp [Stdreq.endW, h.state]
  have hstep : (step s i).std.parser = Stdreq.parserNext s.std i.std := rfl
  rw [hstep, Stdreq.parserNext, h.cyc, hi.takes, hend]
  rfl

theorem InTransfer.next (h : InTransfer s.std d) (hi : Responsive s i) :
    InTransfer (step s i).std d := by
  have hparser := h.parser_next hi
  have hend : Stdreq.endW s.std i.std = false := by simp [Stdreq.endW, h.state]
  have hin : s.std.parser.rtype.msb = true := by
    rw [h.rtype]
    rfl
  have hack : Stdreq.dataAckW s.std i.std = false := by simp [Stdreq.dataAckW, hin, hi.recv]
  have hlength : Stdreq.noLength s.std = false := h.length
  refine ⟨?_, ?_, ?_, ?_, ?_, ?_, ?_, ?_⟩
  · simp [step, Stdreq.step, hi.reset, hend, h.cyc]
  · simp only [step, Stdreq.step, Stdreq.snext, hi.reset, h.cyc, hack, hlength]
    cases hs : s.std.state with
    | idle => cases s.std.selQ <;> simp
    | setup => cases i.std.hskSent <;> simp
    | data => cases i.std.timeout <;> simp
    | status => exact absurd hs h.state
  · simp only [step, Stdreq.step, Stdreq.zdpC, hi.reset, hack, hlength]
    cases hs : s.std.state <;> simp
  · rw [hparser]
    exact h.cycle
  · rw [hparser]
    exact h.rtype
  · rw [hparser]
    exact h.rargs
  · rw [hparser]
    exact h.value
  · rw [Stdreq.noLength, hparser]
    exact h.length

theorem Started.responding {length : BitVec 16} (h : Started s d length) (hpos : 1 ≤ length.toNat) :
    Responding d (min (length.toNat % 256) 64) s
      (packet (response p d (min (length.toNat % 256) 64)))
      (2 * (response p d (min (length.toNat % 256) 64)).length + 1) := by
  refine ⟨⟨h.armed.cyc, ?_, h.hushed.status, h.cycle, h.rtype, h.rargs, h.value, ?_⟩,
    h.hushed.skid_valid, by simp [h.hushed.ready], _, _, .pending h.start h.hushed.getDesc h.count,
    ?_, ?_⟩
  · rcases h.armed.state with hs | ⟨hs, -⟩ <;> simp [hs]
  · rw [Bool.eq_false_iff]
    intro hzero
    obtain ⟨hhi, hlo⟩ : s.std.parser.lenhi = 0 ∧ s.std.parser.lenlo = 0 := by
      simpa [Stdreq.noLength] using hzero
    have hlen : length = 0 := by
      rw [← h.length, Stdreq.Parser.length, hhi, hlo]
      rfl
    simp [hlen] at hpos
  · rw [h.hushed.contents]
    rfl
  · rw [h.hushed.contents]
    simp

/-- The skid register as a queue: its words are sent in front, and a word is taken behind. -/
theorem Responding.skid (h : Responding d m s left rank) (hr : i.std.reset = false) :
    AxisSkid.Valid (step s i).ctl.skid ∧
      ¬ ((step s i).ctl.skid.sready = false ∧ (step s i).ctl.skid.tvalid = false) ∧
      AxisSkid.contents s.ctl.skid ++ AxisSkid.taken s.ctl.skid (skidInputs s.ctl (ctlInputs s i)) =
        sent s i ++ AxisSkid.contents (step s i).ctl.skid := by
  have hoffer : AxisSkid.Offer s.ctl.skid (skidInputs s.ctl (ctlInputs s i)) :=
    fun hs ht => absurd ⟨hs, ht⟩ h.started
  exact ⟨h.valid.step hoffer, AxisSkid.started_step _ _ hr,
    AxisSkid.step_contents h.valid hoffer hr⟩

/-- A word is sent if there is one and the encoder is ready. -/
theorem Responding.length_sent (h : Responding d m s left rank) :
    min i.mTready.toNat (AxisSkid.contents s.ctl.skid).length ≤ (sent s i).length := by
  have hbehind : s.ctl.skid.tvalid = true → s.ctl.skid.mvalid = true := h.valid.behind
  cases hready : i.mTready
  · simp
  · cases hm : s.ctl.skid.mvalid
    · have ht : s.ctl.skid.tvalid = false := by
        rw [Bool.eq_false_iff]
        exact fun ht => by simp [hbehind ht] at hm
      simp [AxisSkid.contents, SkidLoader.contents, AxisSkid.State.toLoader, hm, ht]
    · simp [sent, mTvalidO, AxisSkid.mTvalid, hm, hready]

/-- A skid register that is not ready holds a word. -/
theorem Responding.full (h : Responding d m s left rank) (hs : s.ctl.skid.sready = false) :
    1 ≤ (AxisSkid.contents s.ctl.skid).length := by
  have ht : s.ctl.skid.tvalid = true := by
    by_contra hno
    exact h.started ⟨hs, by simpa using hno⟩
  simp [AxisSkid.contents, SkidLoader.contents, AxisSkid.State.toLoader, ht]

theorem length_response : (response p d m).length = min m (d.bytes p).length := List.length_take

/-- The budget counts down to its last word. -/
theorem cnext_msb {c : BitVec 7} (h : c.toNat < 64) :
    c.msb = false ∧ (c - 1).msb = decide (c.toNat = 0) := by
  revert h c
  decide

/-- The word that is offered to the skid register. -/
theorem offered_word (hd : d.Has p) (hm : m ≤ 64) (h : InTransfer s.std d) {k : ℕ}
    (hk : k < (response p d m).length) (hget : s.ctl.getDescQ = true)
    (haddr : s.ctl.memAddr = BitVec.ofNat _ (d.start p + k)) (hcount : s.ctl.count.toNat + k + 1 = m) :
    tvalidW s.ctl (ctlInputs s i) = true ∧
      tlastW s.ctl (ctlInputs s i) = decide (k + 1 = (response p d m).length) ∧
      BitVec.ofBool (tkeepW (ctlInputs s i)) ++ tdataW s.ctl (ctlInputs s i) =
        BitVec.ofBool true ++ (response p d m).get ⟨k, hk⟩ := by
  have hlen := length_response (p := p) (d := d) (m := m)
  have hkd : k < (d.bytes p).length := by omega
  have hstatus : (ctlInputs s i).statusI = false := h.zdp
  obtain ⟨hmsb, hnext⟩ := cnext_msb (c := s.ctl.count) (by omega)
  have haddr' : s.ctl.memAddr.toNat = d.start p + k := by rw [haddr, Descriptor.toNat_addr hd hkd]
  refine ⟨by simp [tvalidW, hget, hmsb], ?_, ?_⟩
  · rw [tlastW, hstatus, haddr', Descriptor.descTlast_eq hd hkd, cnext, hnext, Bool.false_or,
      ← Bool.decide_or, decide_eq_decide]
    omega
  · rw [tkeepW, hstatus, tdataW, haddr', Descriptor.getD_usbDesc hd hkd]
    simp [response]

/-- What an edge takes from the rest of the response, and how far it brings it. -/
structure Advances (d : Descriptor) (m : ℕ) (s : State p) (i : Inputs) (rest : List Word) (n : ℕ)
    (rest' : List Word) (n' : ℕ) : Prop where
  stage : Stage d m (step s i) rest' n'
  split : rest = AxisSkid.taken s.ctl.skid (skidInputs s.ctl (ctlInputs s i)) ++ rest'
  rank : (AxisSkid.taken s.ctl.skid (skidInputs s.ctl (ctlInputs s i))).length + n' + 1 ≤ n ∨
    (AxisSkid.taken s.ctl.skid (skidInputs s.ctl (ctlInputs s i)) = [] ∧ n' = n ∧
      (s.ctl.skid.sready = false ∨ n = 0))

theorem taken_eq_nil (h : tvalidW s.ctl (ctlInputs s i) = false) :
    AxisSkid.taken s.ctl.skid (skidInputs s.ctl (ctlInputs s i)) = [] := by
  have hvalid : (skidInputs s.ctl (ctlInputs s i)).sTvalid = false := h
  simp [AxisSkid.taken, hvalid]

theorem toNat_latched (hpos : 1 ≤ m) (hm : m ≤ 64) : (BitVec.ofNat 7 m - 1).toNat = m - 1 := by
  bv_omega

/-- The request starts: the address and the flag are set. -/
theorem InTransfer.pending (h : InTransfer s.std d) (hi : Responsive s i) (hd : d.Has p)
    (hm : m ≤ 64) (hstart : s.std.parser.reqStart = true) (hget : s.ctl.getDescQ = false)
    (hcount : s.ctl.count = BitVec.ofNat 7 m - 1) :
    ∃ rest' n', Advances d m s i (packet (response p d m)) (2 * (response p d m).length + 1)
      rest' n' := by
  have hselect : (ctlInputs s i).selectI = true := h.cycle
  have hstatus : (ctlInputs s i).statusI = false := h.zdp
  have hstartI : (ctlInputs s i).startI = true := hstart
  have hreset : (ctlInputs s i).reset = false := hi.reset
  have hargs : (ctlInputs s i).reqArgs = 0x06 := h.rargs
  have hendpt : (ctlInputs s i).reqEndpt = 0 := rfl
  have hnone : tvalidW s.ctl (ctlInputs s i) = false := by simp [tvalidW, hstatus, hget]
  have htaken := taken_eq_nil hnone
  have hstart' : (step s i).std.parser.reqStart = false := by
    rw [h.parser_next hi]
    rfl
  have hget' : (step s i).ctl.getDescQ = true := by
    simp [step, CtlPipe0.step, getDescNext, hreset, hget, hselect, hstartI, hargs, hendpt]
  have haddr' : (step s i).ctl.memAddr = BitVec.ofNat _ (d.start p + 0) := by
    simp [step, CtlPipe0.step, memAddrNext, hselect, hstartI,
      Descriptor.startAddr_eq hd (i := ctlInputs s i) h.value hargs]
  have hcount' : (step s i).ctl.count = BitVec.ofNat 7 m - 1 := by
    simp [step, CtlPipe0.step, hselect, hnone, hcount]
  have hlen := length_response (p := p) (d := d) (m := m)
  rcases Nat.eq_zero_or_pos m with rfl | hpos
  · -- A budget of zero wraps around, so that nothing is offered.
    refine ⟨[], 0, .spent hstart' (Or.inr hcount'), ?_, Or.inl ?_⟩
    · rw [htaken]
      rfl
    · rw [htaken]
      simp
  · have hbytes : 0 < (d.bytes p).length := List.length_pos_iff.mpr hd.bytes_ne_nil
    refine ⟨packet (response p d m), 2 * (response p d m).length, ?_, ?_, Or.inl ?_⟩
    · refine .sending 0 (by omega) hstart' hget' haddr' ?_
      rw [hcount', toNat_latched hpos hm]
      omega
    · rw [htaken]
      rfl
    · rw [htaken]
      simp

/-- A word is taken by the skid register, or stays on offer. -/
theorem InTransfer.sending (h : InTransfer s.std d) (hi : Responsive s i) (hd : d.Has p)
    (hm : m ≤ 64) {k : ℕ} (hk : k < (response p d m).length)
    (hstart : s.std.parser.reqStart = false) (hget : s.ctl.getDescQ = true)
    (haddr : s.ctl.memAddr = BitVec.ofNat _ (d.start p + k)) (hcount : s.ctl.count.toNat + k + 1 = m) :
    ∃ rest' n', Advances d m s i ((packet (response p d m)).drop k)
      (2 * ((response p d m).length - k)) rest' n' := by
  have hselect : (ctlInputs s i).selectI = true := h.cycle
  have hstartI : (ctlInputs s i).startI = false := hstart
  have hreset : (ctlInputs s i).reset = false := hi.reset
  obtain ⟨hvalid, hlast, hword⟩ := offered_word hd hm h hk hget haddr hcount
  have hstart' : (step s i).std.parser.reqStart = false := by
    rw [h.parser_next hi]
    rfl
  have htready : treadyW s.ctl (ctlInputs s i) = s.ctl.skid.sready := rfl
  have hsvalid : (skidInputs s.ctl (ctlInputs s i)).sTvalid = true := hvalid
  have hlen := length_response (p := p) (d := d) (m := m)
  cases hready : s.ctl.skid.sready
  · rw [hready] at htready
    have htaken : AxisSkid.taken s.ctl.skid (skidInputs s.ctl (ctlInputs s i)) = [] := by
      simp [AxisSkid.taken, hready]
    refine ⟨_, _, .sending k hk hstart' ?_ ?_ ?_, ?_, Or.inr ⟨htaken, rfl, Or.inl hready⟩⟩
    · simp [step, CtlPipe0.step, getDescNext, hreset, htready, hstartI, hget]
    · simp [step, CtlPipe0.step, memAddrNext, htready, hstartI, haddr]
    · simpa [step, CtlPipe0.step, hselect, htready] using hcount
    · rw [htaken]
      rfl
  · rw [hready] at htready
    have htaken : AxisSkid.taken s.ctl.skid (skidInputs s.ctl (ctlInputs s i)) =
        [(decide (k + 1 = (response p d m).length),
          BitVec.ofBool true ++ (response p d m).get ⟨k, hk⟩)] := by
      rw [← hlast, ← hword]
      simp [AxisSkid.taken, hready, skidInputs, hvalid]
    have hsplit := drop_packet hk
    by_cases hend : k + 1 = (response p d m).length
    · refine ⟨[], 0, .spent hstart' (Or.inl ?_), ?_, Or.inl ?_⟩
      · simp [step, CtlPipe0.step, getDescNext, htready, hget, hlast, hend]
      · rw [htaken, hsplit, List.drop_eq_nil_of_le (by simp [hend])]
        rfl
      · rw [htaken, List.length_singleton]
        omega
    · refine ⟨_, _, .sending (k + 1) (by omega) hstart' ?_ ?_ ?_, ?_, Or.inl ?_⟩
      · simp [step, CtlPipe0.step, getDescNext, hreset, htready, hget, hlast, hend]
      · simp [step, CtlPipe0.step, memAddrNext, htready, hstartI, hget, haddr, ← Nat.add_assoc,
          BitVec.ofNat_add]
      · have hcount' : (step s i).ctl.count = s.ctl.count - 1 := by
          simp [step, CtlPipe0.step, hselect, htready, hvalid, cnext]
        rw [hcount']
        bv_omega
      · rw [htaken, hsplit]
        rfl
      · rw [htaken, List.length_singleton]
        omega

/-- Nothing more is offered. -/
theorem InTransfer.spent (h : InTransfer s.std d) (hi : Responsive s i)
    (hstart : s.std.parser.reqStart = false)
    (hnone : s.ctl.getDescQ = false ∨ s.ctl.count = 127) : Advances d m s i [] 0 [] 0 := by
  have hselect : (ctlInputs s i).selectI = true := h.cycle
  have hstatus : (ctlInputs s i).statusI = false := h.zdp
  have hstartI : (ctlInputs s i).startI = false := hstart
  have hvalid : tvalidW s.ctl (ctlInputs s i) = false := by
    rcases hnone with hget | hcount
    · simp [tvalidW, hstatus, hget]
    · rw [tvalidW, hstatus, hcount]
      cases s.ctl.getDescQ <;> rfl
  have htaken := taken_eq_nil hvalid
  refine ⟨.spent ?_ ?_, by rw [htaken]; rfl, Or.inr ⟨htaken, rfl, Or.inr rfl⟩⟩
  · rw [h.parser_next hi]
    rfl
  · rcases hnone with hget | hcount
    · exact Or.inl (by simp [step, CtlPipe0.step, getDescNext, hget, hstartI])
    · exact Or.inr (by simp [step, CtlPipe0.step, hselect, hvalid, hcount])

theorem Responding.next (h : Responding d m s left rank) (hi : Responsive s i) (hd : d.Has p)
    (hm : m ≤ 64) : ∃ left' rank', left = sent s i ++ left' ∧ rank' ≤ rank - i.mTready.toNat ∧
      Responding d m (step s i) left' rank' := by
  obtain ⟨hvalid, hstarted, hskid⟩ := h.skid hi.reset
  have hsent := h.length_sent (i := i)
  obtain ⟨rest, n, hstage, rfl, rfl⟩ := h.stage
  have hadvance : ∃ rest' n', Advances d m s i rest n rest' n' := by
    cases hstage with
    | pending hstart hget hcount => exact h.transfer.pending hi hd hm hstart hget hcount
    | sending k hk hstart hget haddr hcount =>
        exact h.transfer.sending hi hd hm hk hstart hget haddr hcount
    | spent hstart hnone => exact ⟨[], 0, h.transfer.spent hi hstart hnone⟩
  obtain ⟨rest', n', hnext, hsplit, hrank⟩ := hadvance
  have hlen := congrArg List.length hskid
  simp only [List.length_append] at hlen
  refine ⟨AxisSkid.contents (step s i).ctl.skid ++ rest', _, ?_, ?_,
    ⟨h.transfer.next hi, hvalid, hstarted, rest', n', hnext, rfl, rfl⟩⟩
  · rw [hsplit, ← List.append_assoc, hskid, List.append_assoc]
  · have htick : i.mTready.toNat ≤ 1 := Bool.toNat_le _
    rcases hrank with hrank | ⟨htaken, hn, hfull | hzero⟩
    · omega
    · have hone := h.full hfull
      rw [htaken, List.length_nil] at hlen
      omega
    · rw [htaken, List.length_nil] at hlen
      omega

theorem Responding.done (h : Responding d m s left 0) : left = [] := by
  obtain ⟨rest, n, hstage, rfl, hrank⟩ := h.stage
  have hempty : AxisSkid.contents s.ctl.skid = [] := List.eq_nil_of_length_eq_zero (by omega)
  have hn : n = 0 := by omega
  cases hstage with
  | pending => omega
  | sending k hk => omega
  | spent => rw [hempty]; rfl

end Transfer

/-! ## Whole responses -/

/-- In the cycles `js` behind some others, words are sent that begin a packet, and all of it once the
encoder has been ready often enough. -/
def Delivers (s : State p) (before js : List Inputs) (packet : List Word) : Prop :=
  emitted step sent s (before ++ js) <+: packet ∧
    (129 ≤ js.countP Inputs.mTready → emitted step sent s (before ++ js) = packet)

section Requests

variable {s : State p} {token last : Inputs} {mid : List Inputs} {d : Descriptor}
  {index length : BitVec 16}

/-- The response has as many bytes as the low byte of the length asks for. -/
theorem Request.delivers (h : Request s token mid last (getDescriptor d index length)) (hs : Rest s)
    (hd : d.Has p) (hpos : 1 ≤ length.toNat) {js : List Inputs}
    (hjs : Along step Responsive (run step s (token :: (mid ++ [last]))) js) :
    Delivers s (token :: (mid ++ [last])) js
      (packet (response p d (min (length.toNat % 256) 64))) := by
  obtain ⟨hstarted, hnone⟩ := h.started hs
  have hm : min (length.toNat % 256) 64 ≤ 64 := Nat.min_le_right _ _
  have hall := emitted_of_rank (Responding d (min (length.toNat % 256) 64)) Inputs.mTready
    (fun s i left rank h hi => h.next hi hd hm) (fun s left h => h.done)
    (hstarted.responding hpos) hjs
  rw [Delivers, emitted_append, hnone]
  refine ⟨hall.1, fun hready => hall.2 (le_trans ?_ hready)⟩
  have hlen := length_response (p := p) (d := d) (m := min (length.toNat % 256) 64)
  omega

end Requests

/-- A cycle in which the encoder is ready, and nothing else happens. -/
def readyCycle : Inputs where
  std := ⟨false, 0, false, 0, 0, false, false, false, false, false, 0, 0⟩
  mTready := true
  undef := 0

theorem along_readyCycle (s : State p) (n : ℕ) :
    Along step Responsive s (List.replicate n readyCycle) := by
  have hready : Along step (fun _ i => i = readyCycle) s (List.replicate n readyCycle) :=
    along_of_inputs step s fun i hi => List.eq_of_mem_replicate hi
  refine hready.mono ?_
  rintro s i rfl
  exact ⟨rfl, by simp [Stdreq.takes, readyCycle], rfl⟩

theorem countP_readyCycle (n : ℕ) : (List.replicate n readyCycle).countP Inputs.mTready = n := by
  simp [List.countP_replicate, readyCycle]

/-- The response to GET_DESCRIPTOR has the length that is asked for exactly if the high byte of
`wLength` is zero, or its low byte is enough for what can be sent. -/
theorem response_iff (s : State p) (hs : Rest s) (token : Inputs) (mid : List Inputs) (last : Inputs)
    (d : Descriptor) (hd : d.Has p) (index length : BitVec 16) (hpos : 1 ≤ length.toNat)
    (h : Request s token mid last (getDescriptor d index length)) :
    (∀ js, Along step Responsive (run step s (token :: (mid ++ [last]))) js →
        Delivers s (token :: (mid ++ [last])) js (packet (response p d (min length.toNat 64)))) ↔
      length.toNat < 256 ∨ min 64 (d.bytes p).length ≤ length.toNat % 256 := by
  constructor
  · intro hall
    have hjs := along_readyCycle (run step s (token :: (mid ++ [last]))) 129
    have hready := (countP_readyCycle 129).ge
    have hlow := (h.delivers hs hd hpos hjs).2 hready
    have hfull := (hall _ hjs).2 hready
    have hlen := congrArg List.length (hlow.symm.trans hfull)
    rw [length_packet, length_packet, length_response, length_response] at hlen
    omega
  · intro hlength js hjs
    have hsame : response p d (min length.toNat 64) = response p d (min (length.toNat % 256) 64) := by
      rw [response, response, List.take_eq_take_iff]
      omega
    rw [hsame]
    exact h.delivers hs hd hpos hjs

/-! ## Two requests -/

/-- A device without strings. -/
def plainDevice : CtlPipe0.Params := ⟨[], [], [], List.replicate 18 0x5a, List.replicate 18 0⟩

/-- The cycle of the SETUP token. -/
def tokenCycle : Inputs :=
  { readyCycle with
    std := { readyCycle.std with tokRecv := true, sTuser := usbpidSetup } }

/-- A cycle in which the stream shows a byte of the DATA0 packet, or none. -/
def byteCycle (b : Option (BitVec 8)) : Inputs :=
  { readyCycle with
    std :=
      { readyCycle.std with
        sTuser := usbpidData0, sTvalid := b.isSome, sTkeep := b.isSome, sTdata := b.getD 0 } }

/-- The cycles before the last byte of GET_DESCRIPTOR, for the descriptor of the device. -/
def requestCycles (lenlo : BitVec 8) : List Inputs :=
  [none, none, some 0x80, some 0x06, some 0x00, some 0x01, some 0x00, some 0x00, some lenlo].map
    byteCycle

/-- The pipe after reset. -/
def idlePipe : State plainDevice :=
  run step default [{ readyCycle with std := { readyCycle.std with reset := true } }, readyCycle]

theorem rest_idlePipe : Rest idlePipe :=
  ⟨by decide, by decide, by decide, by decide,
    ⟨by decide, by decide, by decide, by decide, by decide⟩⟩

theorem arriving_requestCycles (lenlo lenhi : BitVec 8) :
    ∀ i ∈ requestCycles lenlo ++ [byteCycle (some lenhi)], Arriving i := by
  intro i hi
  rcases List.mem_append.mp hi with hi | hi
  · obtain ⟨b, -, rfl⟩ := List.mem_map.mp hi
    exact ⟨rfl, rfl⟩
  · rw [List.mem_singleton.mp hi]
    exact ⟨rfl, rfl⟩

theorem request_eighteen :
    Request idlePipe tokenCycle (requestCycles 0x12) (byteCycle (some 0x00))
      (getDescriptor .device 0 18) :=
  ⟨by decide, by decide, arriving_requestCycles _ _, by decide, by decide⟩

theorem has_device : Descriptor.device.Has plainDevice :=
  ⟨by decide, by decide, fun n hn => by cases hn⟩

/-- A request for the whole descriptor. -/
theorem response_iff_eighteen :
    (∀ js, Along step Responsive
          (run step idlePipe (tokenCycle :: (requestCycles 0x12 ++ [byteCycle (some 0x00)]))) js →
        Delivers idlePipe (tokenCycle :: (requestCycles 0x12 ++ [byteCycle (some 0x00)])) js
          (packet (response plainDevice .device (min 18 64)))) ↔
      18 < 256 ∨ min 64 (Descriptor.device.bytes plainDevice).length ≤ 18 % 256 :=
  response_iff idlePipe rest_idlePipe tokenCycle (requestCycles 0x12) (byteCycle (some 0x00)) .device
    has_device 0 18 (by decide) request_eighteen

theorem request_twoFiveSix :
    Request idlePipe tokenCycle (requestCycles 0x00) (byteCycle (some 0x01))
      (getDescriptor .device 0 256) :=
  ⟨by decide, by decide, arriving_requestCycles _ _, by decide, by decide⟩

/-- A request for 256 bytes is given none of the eighteen. -/
theorem response_twoFiveSix :
    emitted step sent idlePipe (tokenCycle :: (requestCycles 0x00 ++ [byteCycle (some 0x01)]) ++
        List.replicate 129 readyCycle) = [] ∧
      ¬ ∀ js, Along step Responsive
          (run step idlePipe (tokenCycle :: (requestCycles 0x00 ++ [byteCycle (some 0x01)]))) js →
        Delivers idlePipe (tokenCycle :: (requestCycles 0x00 ++ [byteCycle (some 0x01)])) js
          (packet (response plainDevice .device (min 256 64))) := by
  have hjs := along_readyCycle
    (run step idlePipe (tokenCycle :: (requestCycles 0x00 ++ [byteCycle (some 0x01)]))) 129
  have hready := (countP_readyCycle 129).ge
  have hnone := (request_twoFiveSix.delivers rest_idlePipe has_device (by decide) hjs).2 hready
  refine ⟨hnone, fun hall => ?_⟩
  have hall := (hall _ hjs).2 hready
  have hlen := congrArg List.length (hnone.symm.trans hall)
  exact absurd hlen (by decide)

end MiscVerilogCores.ControlPipe
