import MiscVerilogCores.Verification.Control.Responses

/-! # What is left of abandoned transfers

Two histories of the control pipe are compared by the packets that it sends from then on. What the
registers hold of earlier requests does not matter, but for the words in the skid register. -/

namespace MiscVerilogCores.Stdreq.Parser

/-- Two parsers that have taken the same bytes: what the registers hold behind the counter does not
matter, but for the length. -/
structure Twin (q q' : Parser) : Prop where
  xcptr : q.xcptr = q'.xcptr
  start : q.reqStart = q'.reqStart
  cycle : q.reqCycle = q'.reqCycle
  lenlo : q.lenlo = q'.lenlo
  lenhi : q.lenhi = q'.lenhi
  bytes : q.encoded.take q.xcptr.toNat = q'.encoded.take q.xcptr.toNat

/-- A request is only in its cycle once the registers are filled up, and a length is there once the
other registers are. -/
structure Filled (q : Parser) : Prop where
  cycle : q.reqCycle = true → q.xcptr = 7
  start : q.reqStart = true → q.reqCycle = true
  length : q.xcptr = 0 → q.lenlo = 0 ∧ q.lenhi = 0

theorem Filled.clear (q : Parser) : Filled q.clear :=
  ⟨fun h => by simp [Parser.clear] at h, fun h => by simp [Parser.clear] at h, fun _ => ⟨rfl, rfl⟩⟩

theorem Filled.rest {q : Parser} (h : Filled q) (done : Bool) : Filled (q.rest done) := by
  refine ⟨fun hc => h.cycle ?_, fun hs => by simp [Parser.rest] at hs, h.length⟩
  cases done <;> simp [Parser.rest] at hc
  exact hc

theorem Filled.take {q : Parser} (h : Filled q) (b : BitVec 8) : Filled (q.take b) := by
  by_cases hx : q.xcptr = 7
  · have hx' : (q.take b).xcptr = 7 := (if_pos hx).trans hx
    refine ⟨fun _ => hx', fun _ => ?_, fun hzero => ?_⟩
    · cases hc : q.reqCycle <;> simp [Parser.take, hx, hc]
    · rw [hx'] at hzero
      exact absurd hzero (by decide)
  · refine ⟨fun hc => ?_, fun hs => ?_, fun hzero => ?_⟩
    · exact absurd (h.cycle (reqCycle_take b hx ▸ hc)) hx
    · rw [reqCycle_take b hx]
      exact h.start (reqStart_take b hx ▸ hs)
    · have hsucc := xcptr_take b hx
      rw [hzero] at hsucc
      simp at hsucc

section Twins

variable {q q' : Parser}

theorem Twin.clear (q q' : Parser) : Twin q.clear q'.clear := ⟨rfl, rfl, rfl, rfl, rfl, rfl⟩

theorem Twin.rest (h : Twin q q') (done : Bool) : Twin (q.rest done) (q'.rest done) :=
  ⟨h.xcptr, rfl, by simp [Parser.rest, h.cycle], h.lenlo, h.lenhi, h.bytes⟩

theorem Twin.take (h : Twin q q') (b : BitVec 8) : Twin (q.take b) (q'.take b) := by
  have hx := h.xcptr
  refine ⟨?_, ?_, ?_, ?_, ?_, ?_⟩
  · simp [Parser.take, hx]
  · simp [Parser.take, hx, h.start, h.cycle]
  · simp [Parser.take, hx, h.cycle]
  · simp [Parser.take, hx, h.lenlo]
  · simp [Parser.take, hx, h.lenhi]
  · rw [encoded_take, encoded_take, ← hx]
    by_cases hseven : q.xcptr = 7
    · have hstay : (q.take b).xcptr = q.xcptr := if_pos hseven
      rw [hstay, List.take_set_of_le le_rfl, List.take_set_of_le le_rfl, h.bytes]
    · have hlt := q.xcptr.isLt
      have hstored : ∀ bs : List (BitVec 8), bs.length = 8 →
          (bs.set q.xcptr.toNat b).take (q.xcptr.toNat + 1) = bs.take q.xcptr.toNat ++ [b] := by
        intro bs hlen
        rw [List.take_succ_eq_append_getElem (by rw [List.length_set]; omega),
          List.take_set_of_le le_rfl, List.getElem_set_self]
      rw [xcptr_take b hseven, hstored _ rfl, hstored _ rfl, h.bytes]

/-- A byte in front of the counter. -/
theorem Twin.getElem? (h : Twin q q') {k : ℕ} (hk : k < q.xcptr.toNat) :
    q.encoded[k]? = q'.encoded[k]? := by
  have hbyte := congrArg (fun bs : List (BitVec 8) => bs[k]?) h.bytes
  simpa only [List.getElem?_take_of_lt hk] using hbyte

theorem Twin.rtype (h : Twin q q') (hx : q.xcptr ≠ 0) : q.rtype = q'.rtype := by
  have hpos : 0 < q.xcptr.toNat := by
    rw [Nat.pos_iff_ne_zero]
    exact fun hzero => hx (BitVec.eq_of_toNat_eq hzero)
  exact Option.some.inj (h.getElem? hpos)

theorem Twin.rargs (h : Twin q q') (hx : q.xcptr = 7) : q.rargs = q'.rargs :=
  Option.some.inj (h.getElem? (k := 1) (by simp [hx]))

theorem Twin.value (h : Twin q q') (hx : q.xcptr = 7) : q.value = q'.value := by
  have hlo := h.getElem? (k := 2) (by simp [hx])
  have hhi := h.getElem? (k := 3) (by simp [hx])
  rw [encoded_eq, encoded_eq] at hlo hhi
  rw [Parser.value, Parser.value, Option.some.inj hlo, Option.some.inj hhi]

theorem Twin.length (h : Twin q q') : q.length = q'.length := by
  rw [Parser.length, Parser.length, h.lenlo, h.lenhi]

end Twins

end MiscVerilogCores.Stdreq.Parser

namespace MiscVerilogCores.ControlPipe

open Clocked Usb CtlPipe0

variable {p : CtlPipe0.Params}

/-- What a word shows: behind `tkeep` low, no data. -/
def shown (w : Word) : Bool × Option (BitVec 8) :=
  (w.1, if w.2.msb then some (w.2.setWidth 8) else none)

/-! ## What every history leaves in order -/

/-- Right after a reset nothing is offered to the skid register, and whenever a transfer is in progress
the parser was cleared before it. -/
structure Sound (s : State p) : Prop where
  valid : AxisSkid.Valid s.ctl.skid
  fresh : s.ctl.skid.sready = false → s.ctl.skid.tvalid = false →
    s.std.zdpQ = false ∧ s.ctl.getDescQ = false ∧ s.std.cycQ = false
  filled : s.std.cycQ = true → s.std.parser.Filled

/-- The pipe has been reset, some time ago. -/
def Reached (s : State p) : Prop :=
  ∃ start r is, r.std.reset = true ∧ s = run step start (r :: is)

section Histories

variable {s : State p} {i : Inputs}

theorem Sound.offer (h : Sound s) (i : Inputs) :
    AxisSkid.Offer s.ctl.skid (skidInputs s.ctl (ctlInputs s i)) := by
  intro hs ht
  obtain ⟨hzdp, hgd, -⟩ := h.fresh hs ht
  simp [skidInputs, tvalidW, ctlInputs, hzdp, hgd]

theorem sound_of_reset (s : State p) (hr : i.std.reset = true) : Sound (step s i) := by
  refine ⟨(AxisSkid.valid_of_reset _ _ hr).1, fun _ _ => ⟨?_, ?_, ?_⟩, fun hc => ?_⟩
  · simp [step, Stdreq.step, hr]
  · simp [step, CtlPipe0.step, ctlInputs, hr]
  · simp [step, Stdreq.step, hr]
  · simp [step, Stdreq.step, hr] at hc

theorem filled_step (h : s.std.cycQ = true → s.std.parser.Filled) :
    (step s i).std.parser.Filled := by
  have hnext : (step s i).std.parser = Stdreq.parserNext s.std i.std := rfl
  rw [hnext, Stdreq.parserNext]
  cases hcyc : s.std.cycQ
  · exact Stdreq.Parser.Filled.clear _
  · cases htakes : Stdreq.takes s.std i.std
    · exact (h hcyc).rest _
    · exact (h hcyc).take _

theorem Sound.step (h : Sound s) (i : Inputs) : Sound (step s i) := by
  cases hr : i.std.reset
  · have hstarted := AxisSkid.started_step s.ctl.skid (skidInputs s.ctl (ctlInputs s i)) hr
    exact ⟨h.valid.step (h.offer i), fun hs ht => absurd ⟨hs, ht⟩ hstarted,
      fun _ => filled_step h.filled⟩
  · exact sound_of_reset s hr

theorem Reached.sound (h : Reached s) : Sound s := by
  obtain ⟨start, r, is, hr, rfl⟩ := h
  have hall : Along step (fun _ _ => True) (step start r) is :=
    along_of_forall (fun _ _ => trivial) _ is
  rw [run_cons]
  exact run_invariant Sound (fun s i hs _ => hs.step i) (sound_of_reset start hr) hall

end Histories

/-! ## Two histories that make no difference -/

/-- The registers of two pipes agree, but for those that nothing will be made of. -/
structure Twin (s s' : State p) : Prop where
  state : s.std.state = s'.std.state
  cyc : s.std.cycQ = s'.std.cycQ
  sel : s.std.selQ = s'.std.selQ
  req : s.std.reqQ = s'.std.reqQ
  zdp : s.std.zdpQ = s'.std.zdpQ
  endQ : s.std.endQ = s'.std.endQ
  parser : s.std.parser.Twin s'.std.parser
  filled : s.std.parser.Filled
  rtype : s.std.state = .data → s.std.parser.xcptr ≠ 0
  count : s.ctl.count = s'.ctl.count
  getDesc : s.ctl.getDescQ = s'.ctl.getDescQ
  memAddr : s.ctl.getDescQ = true → s.ctl.memAddr = s'.ctl.memAddr
  skid : AxisSkid.Alike shown s.ctl.skid s'.ctl.skid
  fresh : s.ctl.skid.sready = false → s.ctl.skid.tvalid = false →
    s.std.zdpQ = false ∧ s.ctl.getDescQ = false

section Twins

variable {s s' : State p}

theorem Twin.dataAckW (h : Twin s s') (hstate : s.std.state = .data) (j : Stdreq.Inputs) :
    Stdreq.dataAckW s.std j = Stdreq.dataAckW s'.std j := by
  rw [Stdreq.dataAckW, Stdreq.dataAckW, h.parser.rtype (h.rtype hstate)]

theorem Twin.noLength (h : Twin s s') : Stdreq.noLength s.std = Stdreq.noLength s'.std := by
  rw [Stdreq.noLength, Stdreq.noLength, h.parser.lenlo, h.parser.lenhi]

theorem Twin.endW (h : Twin s s') (j : Stdreq.Inputs) :
    Stdreq.endW s.std j = Stdreq.endW s'.std j := by
  rw [Stdreq.endW, Stdreq.endW, h.state]

theorem Twin.selW (h : Twin s s') (j : Stdreq.Inputs) :
    Stdreq.selW true s.std j = Stdreq.selW true s'.std j := by
  rw [Stdreq.selW, Stdreq.selW, h.state]

theorem Twin.snext (h : Twin s s') (j : Stdreq.Inputs) :
    Stdreq.snext s.std j = Stdreq.snext s'.std j := by
  have hdata := h.dataAckW (j := j)
  rw [Stdreq.snext, Stdreq.snext, ← h.cyc, ← h.sel, ← h.endQ, ← h.noLength, ← h.state]
  cases hstate : s.std.state <;> simp only
  rw [hdata hstate]

theorem Twin.zdpC (h : Twin s s') (j : Stdreq.Inputs) :
    Stdreq.zdpC s.std j = Stdreq.zdpC s'.std j := by
  have hdata := h.dataAckW (j := j)
  rw [Stdreq.zdpC, Stdreq.zdpC, ← h.noLength, ← h.state]
  cases hstate : s.std.state <;> simp only
  rw [hdata hstate]

theorem Twin.parserNext (h : Twin s s') (j : Stdreq.Inputs) :
    (Stdreq.parserNext s.std j).Twin (Stdreq.parserNext s'.std j) := by
  have htakes : Stdreq.takes s.std j = Stdreq.takes s'.std j := by
    rw [Stdreq.takes, Stdreq.takes, h.req]
  rw [Stdreq.parserNext, Stdreq.parserNext, ← h.cyc, ← htakes, ← h.endW]
  cases s.std.cycQ
  · exact Stdreq.Parser.Twin.clear _ _
  · cases Stdreq.takes s.std j
    · exact h.parser.rest _
    · exact h.parser.take _

theorem Twin.std (h : Twin s s') (j : Stdreq.Inputs) :
    (Stdreq.step true s.std j).state = (Stdreq.step true s'.std j).state ∧
      (Stdreq.step true s.std j).cycQ = (Stdreq.step true s'.std j).cycQ ∧
      (Stdreq.step true s.std j).selQ = (Stdreq.step true s'.std j).selQ ∧
      (Stdreq.step true s.std j).reqQ = (Stdreq.step true s'.std j).reqQ ∧
      (Stdreq.step true s.std j).zdpQ = (Stdreq.step true s'.std j).zdpQ ∧
      (Stdreq.step true s.std j).endQ = (Stdreq.step true s'.std j).endQ := by
  have hreq : Stdreq.reqW s.std j = Stdreq.reqW s'.std j := by
    rw [Stdreq.reqW, Stdreq.reqW, h.state]
  simp only [Stdreq.step, h.snext, h.cyc, h.selW, hreq, h.zdpC, h.endW, and_self]

/-- In the data stage the type of the request is there. -/
theorem Twin.rtype_step (h : Twin s s') (j : Stdreq.Inputs)
    (hstate : (Stdreq.step true s.std j).state = .data) :
    (Stdreq.parserNext s.std j).xcptr ≠ 0 := by
  have hnext : Stdreq.snext s.std j = .data := by
    cases hr : j.reset <;> simp [Stdreq.step, hr] at hstate
    exact hstate
  rw [Stdreq.snext] at hnext
  cases hcyc : s.std.cycQ <;> simp only [hcyc, Bool.not_true, Bool.not_false, if_true] at hnext
  · exact absurd hnext (by decide)
  have hx : s.std.parser.xcptr ≠ 0 := by
    cases hs : s.std.state
    case data => exact h.rtype hs
    case setup =>
      intro hzero
      obtain ⟨hlo, hhi⟩ := h.filled.length hzero
      cases hsent : j.hskSent <;> simp [hs, hsent, Stdreq.noLength, hlo, hhi] at hnext
    case idle => cases hsel : s.std.selQ <;> simp [hs, hsel] at hnext
    case status => cases hend : s.std.endQ <;> simp [hs, hend] at hnext
  rw [Stdreq.parserNext, hcyc]
  cases Stdreq.takes s.std j
  · exact hx
  · by_cases hseven : s.std.parser.xcptr = 7
    · have hstay : (s.std.parser.take j.sTdata).xcptr = s.std.parser.xcptr := if_pos hseven
      exact hstay ▸ hx
    · intro hzero
      have hsucc := Stdreq.Parser.xcptr_take j.sTdata hseven
      have hzero' : (s.std.parser.take j.sTdata).xcptr = 0 := hzero
      rw [hzero'] at hsucc
      simp at hsucc

section Ctl

variable (i : Inputs)

theorem Twin.tvalidW (h : Twin s s') :
    CtlPipe0.tvalidW s.ctl (ctlInputs s i) = CtlPipe0.tvalidW s'.ctl (ctlInputs s' i) := by
  simp only [CtlPipe0.tvalidW, ctlInputs, h.zdp, h.getDesc, h.count]

theorem Twin.tlastW (h : Twin s s') (hgd : s.ctl.getDescQ = true) :
    CtlPipe0.tlastW s.ctl (ctlInputs s i) = CtlPipe0.tlastW s'.ctl (ctlInputs s' i) := by
  simp only [CtlPipe0.tlastW, CtlPipe0.cnext, ctlInputs, h.zdp, h.memAddr hgd, h.count]

/-- The word that is offered. -/
theorem Twin.word (h : Twin s s') (hvalid : CtlPipe0.tvalidW s.ctl (ctlInputs s i) = true) :
    shown ((skidInputs s.ctl (ctlInputs s i)).sTlast, (skidInputs s.ctl (ctlInputs s i)).sTdata) =
      shown ((skidInputs s'.ctl (ctlInputs s' i)).sTlast,
        (skidInputs s'.ctl (ctlInputs s' i)).sTdata) := by
  have hstatus : (ctlInputs s i).statusI = (ctlInputs s' i).statusI := h.zdp
  cases hs : (ctlInputs s i).statusI
  · have hgd : s.ctl.getDescQ = true := by
      simp [CtlPipe0.tvalidW, hs] at hvalid
      exact hvalid.1
    have hdata : tdataW s.ctl (ctlInputs s i) = tdataW s'.ctl (ctlInputs s' i) := by
      simp only [tdataW, ctlInputs, h.memAddr hgd]
    simp only [skidInputs, h.tlastW i hgd, tkeepW, hdata, ← hstatus, hs]
  · simp only [skidInputs, shown, CtlPipe0.tlastW, tkeepW, ← hstatus, hs, BitVec.msb_append]
    simp

theorem Twin.getDescNext (h : Twin s s') :
    CtlPipe0.getDescNext s.ctl (ctlInputs s i) = CtlPipe0.getDescNext s'.ctl (ctlInputs s' i) := by
  have hready : treadyW s.ctl (ctlInputs s i) = treadyW s'.ctl (ctlInputs s' i) := h.skid.ready
  have hstart : (ctlInputs s i).startI = (ctlInputs s' i).startI := h.parser.start
  have hsel : (ctlInputs s i).selectI = (ctlInputs s' i).selectI := h.parser.cycle
  have hargs : (ctlInputs s i).startI = true →
      (ctlInputs s i).reqArgs = (ctlInputs s' i).reqArgs := fun hst =>
    h.parser.rargs (h.filled.cycle (h.filled.start hst))
  have hendpt : (ctlInputs s i).reqEndpt = (ctlInputs s' i).reqEndpt := rfl
  rw [CtlPipe0.getDescNext, CtlPipe0.getDescNext, ← hready, ← hstart, ← hsel, ← hendpt,
    ← h.getDesc]
  cases hgd : s.ctl.getDescQ
  · cases hst : (ctlInputs s i).startI
    · simp
    · rw [hargs hst]
      simp
  · rw [h.tlastW i hgd]
    cases hst : (ctlInputs s i).startI
    · simp
    · rw [hargs hst]

/-- A request is decoded to the same place. -/
theorem Twin.startAddr (h : Twin s s') (hst : s.std.parser.reqStart = true) :
    CtlPipe0.startAddr (p := p) (ctlInputs s i) = CtlPipe0.startAddr (p := p) (ctlInputs s' i) := by
  have hseven := h.filled.cycle (h.filled.start hst)
  have hrtype : (ctlInputs s i).reqType = (ctlInputs s' i).reqType :=
    h.parser.rtype (by rw [hseven]; decide)
  have hrargs : (ctlInputs s i).reqArgs = (ctlInputs s' i).reqArgs := h.parser.rargs hseven
  have hvalue : (ctlInputs s i).reqValue = (ctlInputs s' i).reqValue := h.parser.value hseven
  rw [CtlPipe0.startAddr, CtlPipe0.startAddr, hrtype, hrargs, hvalue]

theorem Twin.memAddrNext (h : Twin s s')
    (hgd : CtlPipe0.getDescNext s.ctl (ctlInputs s i) = true) :
    CtlPipe0.memAddrNext s.ctl (ctlInputs s i) = CtlPipe0.memAddrNext s'.ctl (ctlInputs s' i) := by
  have hready : treadyW s.ctl (ctlInputs s i) = treadyW s'.ctl (ctlInputs s' i) := h.skid.ready
  have hstart : (ctlInputs s i).startI = (ctlInputs s' i).startI := h.parser.start
  have hsel : (ctlInputs s i).selectI = (ctlInputs s' i).selectI := h.parser.cycle
  rw [CtlPipe0.memAddrNext, CtlPipe0.memAddrNext, ← hready, ← hstart, ← hsel, ← h.getDesc]
  cases hst : (ctlInputs s i).selectI && (ctlInputs s i).startI
  · have hold : s.ctl.getDescQ = true := by
      cases hg : s.ctl.getDescQ
      · rw [Bool.and_comm] at hst
        simp [CtlPipe0.getDescNext, hg, hst] at hgd
      · rfl
    rw [h.memAddr hold]
    rfl
  · obtain ⟨-, hst⟩ := Bool.and_eq_true_iff.mp hst
    rw [if_pos rfl, if_pos rfl, h.startAddr i hst]

theorem Twin.count_step (h : Twin s s') :
    (CtlPipe0.step s.ctl (ctlInputs s i)).count = (CtlPipe0.step s'.ctl (ctlInputs s' i)).count := by
  have hready : treadyW s.ctl (ctlInputs s i) = treadyW s'.ctl (ctlInputs s' i) := h.skid.ready
  have hsel : (ctlInputs s i).selectI = (ctlInputs s' i).selectI := h.parser.cycle
  have hmax : maxlenW (ctlInputs s i) = maxlenW (ctlInputs s' i) := by
    simp only [maxlenW, ctlInputs, h.parser.length]
  simp only [CtlPipe0.step, hsel, hready, h.tvalidW, hmax, cnext, h.count]

end Ctl

/-- Pipes that agree go on to agree, and show the same. -/
theorem Twin.step (h : Twin s s') (i : Inputs) :
    Twin (step s i) (step s' i) ∧ (sent s i).map shown = (sent s' i).map shown := by
  obtain ⟨hstate, hcyc, hsel, hreq, hzdp, hend⟩ := h.std i.std
  have hoffer : AxisSkid.Offer s.ctl.skid (skidInputs s.ctl (ctlInputs s i)) := by
    intro hs ht
    obtain ⟨hz, hg⟩ := h.fresh hs ht
    simp [skidInputs, CtlPipe0.tvalidW, ctlInputs, hz, hg]
  let j := skidInputs s.ctl (ctlInputs s i)
  let k := skidInputs s'.ctl (ctlInputs s' i)
  have hreset : j.reset = k.reset := rfl
  have hready : j.mTready = k.mTready := rfl
  obtain ⟨hskid, hgiven⟩ := h.skid.step hreset hready (h.tvalidW i) (h.word i) hoffer
  have hdesc := h.getDescNext i
  refine ⟨⟨hstate, hcyc, hsel, hreq, hzdp, hend, h.parserNext i.std, filled_step fun _ => h.filled,
    h.rtype_step i.std, h.count_step i, ?_, ?_, hskid, ?_⟩, hgiven⟩
  · exact congrArg (fun g => !i.std.reset && g) hdesc
  · intro hg
    exact h.memAddrNext i (Bool.and_eq_true_iff.mp hg).2
  · cases hr : i.std.reset
    · have hstarted := AxisSkid.started_step s.ctl.skid (skidInputs s.ctl (ctlInputs s i)) hr
      exact fun hs ht => absurd ⟨hs, ht⟩ hstarted
    · intro _ _
      simp [ControlPipe.step, Stdreq.step, CtlPipe0.step, ctlInputs, hr]

end Twins

/-! ## Histories at their end -/

/-- The last transfer is over, and its request forgotten. -/
structure Settled (s : State p) : Prop where
  state : s.std.state = .idle
  cyc : s.std.cycQ = false
  zdp : s.std.zdpQ = false
  parser : s.std.parser.clear = s.std.parser
  count : s.ctl.count = 127

/-- A request was taken whose transfer is not over. -/
structure Abandoned (s : State p) : Prop where
  cyc : s.std.cycQ = true
  cycle : s.std.parser.reqCycle = true
  start : s.std.parser.reqStart = false

section Ends

variable {s s' : State p} {i : Inputs}

theorem contents_eq_nil {WIDTH : ℕ} {b : AxisSkid.State WIDTH} :
    AxisSkid.contents b = [] ↔ b.mvalid = false ∧ b.tvalid = false := by
  rw [← List.length_eq_zero_iff, AxisSkid.length_contents]
  cases b.mvalid <;> cases b.tvalid <;> simp

theorem Settled.reqStart (h : Settled s) : s.std.parser.reqStart = false := by
  rw [← h.parser]
  rfl

theorem Settled.reqCycle (h : Settled s) : s.std.parser.reqCycle = false := by
  rw [← h.parser]
  rfl

theorem Settled.tvalidW (h : Settled s) (i : Inputs) :
    CtlPipe0.tvalidW s.ctl (ctlInputs s i) = false := by
  have hstatus : (ctlInputs s i).statusI = false := h.zdp
  rw [CtlPipe0.tvalidW, hstatus, h.count]
  exact Bool.and_false _

/-- A descriptor that was left is given up. -/
theorem Settled.getDescNext (h : Settled s) (hs : Sound s)
    (hnone : AxisSkid.contents s.ctl.skid = []) :
    CtlPipe0.getDescNext s.ctl (ctlInputs s i) = false := by
  have hstart : (ctlInputs s i).startI = false := h.reqStart
  have hlast : CtlPipe0.tlastW s.ctl (ctlInputs s i) = true := by
    rw [CtlPipe0.tlastW, cnext, h.count]
    exact Bool.or_true _
  obtain ⟨-, hbehind⟩ := contents_eq_nil.mp hnone
  rw [CtlPipe0.getDescNext, hstart, hlast]
  cases hready : s.ctl.skid.sready
  · obtain ⟨-, hgd, -⟩ := hs.fresh hready hbehind
    simp [hgd]
  · have hready' : treadyW s.ctl (ctlInputs s i) = true := hready
    cases hgd : s.ctl.getDescQ <;> simp [hready']

/-- With the skid register empty nothing of the last transfers is left. -/
theorem Settled.skid_step (h : Settled s) (hnone : AxisSkid.contents s.ctl.skid = []) :
    (step s i).ctl.skid.sready = !i.std.reset ∧
      AxisSkid.contents (step s i).ctl.skid = [] ∧ sent s i = [] := by
  obtain ⟨hmv, htv⟩ := contents_eq_nil.mp hnone
  have hoffer : (skidInputs s.ctl (ctlInputs s i)).sTvalid = false := h.tvalidW i
  refine ⟨?_, contents_eq_nil.mpr ⟨?_, ?_⟩, ?_⟩
  · simp [step, CtlPipe0.step, AxisSkid.step, Skid.srcReady, hmv, htv, skidInputs, ctlInputs]
  · simp [step, CtlPipe0.step, AxisSkid.step, Skid.dstValid, hoffer, hmv, htv]
  · simp [step, CtlPipe0.step, AxisSkid.step, Skid.tmpValid, Skid.srcReady, hoffer, hmv, htv]
  · simp [sent, mTvalidO, AxisSkid.mTvalid, hmv]

theorem Settled.std_step (h : Settled s) (i : Inputs) :
    (step s i).std.state = .idle ∧ (step s i).std.cycQ = (step s i).std.selQ ∧
      (step s i).std.reqQ = false ∧ (step s i).std.endQ = false ∧ (step s i).std.zdpQ = false ∧
      (step s i).std.parser = s.std.parser.clear := by
  have hend : Stdreq.endW s.std i.std = false := by simp [Stdreq.endW, h.state]
  refine ⟨?_, ?_, ?_, ?_, ?_, ?_⟩
  · simp [step, Stdreq.step, Stdreq.snext, h.cyc]
  · simp [step, Stdreq.step, h.cyc]
  · simp [step, Stdreq.step, Stdreq.reqW, h.state]
  · simp [step, Stdreq.step, hend]
  · simp [step, Stdreq.step, Stdreq.zdpC, h.state]
  · simp [step, Stdreq.step, Stdreq.parserNext, h.cyc]

/-- Two pipes that have settled agree from the next edge on, if both skid registers are empty. -/
theorem Settled.twin (h : Settled s) (h' : Settled s') (hs : Sound s) (hs' : Sound s')
    (hnone : AxisSkid.contents s.ctl.skid = []) (hnone' : AxisSkid.contents s'.ctl.skid = []) :
    Twin (step s i) (step s' i) := by
  obtain ⟨hstate, hcyc, hreq, hend, hzdp, hparser⟩ := h.std_step i
  obtain ⟨hstate', hcyc', hreq', hend', hzdp', hparser'⟩ := h'.std_step i
  have hsel : (step s i).std.selQ = (step s' i).std.selQ := by
    simp only [step, Stdreq.step, Stdreq.selW, h.state, h'.state]
  obtain ⟨hready, hempty, -⟩ := h.skid_step (i := i) hnone
  obtain ⟨hready', hempty', -⟩ := h'.skid_step (i := i) hnone'
  have hdesc : (step s i).ctl.getDescQ = false := by
    simp [step, CtlPipe0.step, h.getDescNext hs hnone]
  have hdesc' : (step s' i).ctl.getDescQ = false := by
    simp [step, CtlPipe0.step, h'.getDescNext hs' hnone']
  refine ⟨hstate.trans hstate'.symm, ?_, hsel, hreq.trans hreq'.symm, hzdp.trans hzdp'.symm,
    hend.trans hend'.symm, ?_, ?_, fun hd => ?_, ?_, hdesc.trans hdesc'.symm, fun hg => ?_,
    ⟨(hs.step i).valid, (hs'.step i).valid, hready.trans hready'.symm, ?_⟩, fun _ _ => ⟨hzdp, hdesc⟩⟩
  · rw [hcyc, hcyc', hsel]
  · rw [hparser, hparser']
    exact Stdreq.Parser.Twin.clear _ _
  · rw [hparser]
    exact Stdreq.Parser.Filled.clear _
  · rw [hstate] at hd
    cases hd
  · have hlen : s.std.parser.length = s'.std.parser.length := by
      rw [← h.parser, ← h'.parser]
      rfl
    simp [step, CtlPipe0.step, ctlInputs, h.reqCycle, h'.reqCycle, maxlenW, hlen]
  · rw [hdesc] at hg
    cases hg
  · rw [hempty, hempty']

/-- Two histories that have settled are followed by the same packets. -/
theorem Settled.emitted_eq (h : Settled s) (h' : Settled s') (hs : Sound s) (hs' : Sound s')
    (hnone : AxisSkid.contents s.ctl.skid = []) (hnone' : AxisSkid.contents s'.ctl.skid = [])
    (js : List Inputs) :
    (emitted step sent s js).map shown = (emitted step sent s' js).map shown := by
  cases js with
  | nil => rfl
  | cons i js =>
      have hsent := (h.skid_step (i := i) hnone).2.2
      have hsent' := (h'.skid_step (i := i) hnone').2.2
      rw [emitted_cons, emitted_cons, hsent, hsent']
      exact emitted_of_related Twin shown (fun s s' i hr => hr.step i)
        (h.twin h' hs hs' hnone hnone') js

end Ends

/-! ## Histories that make a difference -/

section Differences

variable {s : State p} {i : Inputs}

/-- Nothing happens on the bus that the transfer in progress would take notice of. -/
structure Still (i : Inputs) : Prop where
  reset : i.std.reset = false
  sent : i.std.hskSent = false
  recv : i.std.hskRecv = false
  timeout : i.std.timeout = false

/-- A transfer that is not over keeps the pipe from taking a request, and has nothing left to send. -/
structure Blocked (s : State p) : Prop where
  abandoned : Abandoned s
  valid : s.ctl.skid.mvalid = false
  behind : s.ctl.skid.tvalid = false
  offer : ∀ i, CtlPipe0.tvalidW s.ctl (ctlInputs s i) = false

theorem Abandoned.next (h : Abandoned s) (hi : Still i) : Abandoned (step s i) := by
  have hend : Stdreq.endW s.std i.std = false := by
    simp [Stdreq.endW, hi.sent, hi.recv, hi.timeout]
  refine ⟨by simp [step, Stdreq.step, hi.reset, hend, h.cyc], ?_, ?_⟩
  all_goals
    rw [parser_step h.cyc hend]
    cases byteOf s i with
    | none => simp [h.cycle]
    | some b => simp [Stdreq.Parser.take_of_cycle b h.cycle, h.start]

theorem Blocked.next (h : Blocked s) (hi : Still i) : Blocked (step s i) ∧ sent s i = [] := by
  have hoffer : (skidInputs s.ctl (ctlInputs s i)).sTvalid = false := h.offer i
  have hready : tvalidW s.ctl (ctlInputs s i) = false := h.offer i
  have hsel : (ctlInputs s i).selectI = true := h.abandoned.cycle
  have hstart : (ctlInputs s i).startI = false := h.abandoned.start
  have hcount : (step s i).ctl.count = s.ctl.count := by
    simp [step, CtlPipe0.step, hsel, hready]
  refine ⟨⟨h.abandoned.next hi, ?_, ?_, fun j => ?_⟩, ?_⟩
  · simp [step, CtlPipe0.step, AxisSkid.step, Skid.dstValid, hoffer, h.valid, h.behind]
  · simp [step, CtlPipe0.step, AxisSkid.step, Skid.tmpValid, Skid.srcReady, hoffer, h.valid, h.behind]
  · have hzdp : (step s i).std.zdpQ = false := zdpQ_of_silent _ hi.sent
    have hstatus : (ctlInputs (step s i) j).statusI = false := hzdp
    rw [tvalidW, hstatus, hcount]
    cases hgd : (step s i).ctl.getDescQ
    · simp
    · have hold : s.ctl.getDescQ = true := by
        cases hg : s.ctl.getDescQ
        · simp [step, CtlPipe0.step, getDescNext, hg, hstart] at hgd
        · rfl
      have hmsb : s.ctl.count.msb = true := by
        cases hm : s.ctl.count.msb
        · simp [tvalidW, hold, hm] at hready
        · rfl
      simp [hmsb]
  · simp [sent, mTvalidO, AxisSkid.mTvalid, h.valid]

theorem Blocked.silent {is : List Inputs} (h : Blocked s) (his : ∀ i ∈ is, Still i) :
    emitted step sent s is = [] := by
  induction is generalizing s with
  | nil => rfl
  | cons i is ih =>
      obtain ⟨hnext, hsent⟩ := h.next (his i (by simp))
      rw [emitted_cons, hsent, ih hnext fun j hj => his j (List.mem_cons_of_mem i hj)]
      rfl

/-- A word in the output register is sent. -/
theorem sent_of_mvalid (h : s.ctl.skid.mvalid = true) (hi : i.mTready = true) :
    sent s i ≠ [] := by
  simp [sent, mTvalidO, AxisSkid.mTvalid, h, hi]

/-- A word that is offered is sent one cycle later. -/
theorem sent_of_offer {j : Inputs} (h : CtlPipe0.tvalidW s.ctl (ctlInputs s i) = true)
    (hr : i.std.reset = false) (hj : j.mTready = true) : sent (step s i) j ≠ [] := by
  have hoffer : (skidInputs s.ctl (ctlInputs s i)).sTvalid = true := h
  have hreset : (skidInputs s.ctl (ctlInputs s i)).reset = false := hr
  refine sent_of_mvalid ?_ hj
  simp [step, CtlPipe0.step, AxisSkid.step, Skid.dstValid, hoffer, hreset]

theorem Rest.next_ready (h : Rest s) : Rest (step s readyCycle) ∧ sent s readyCycle = [] := by
  have hend : Stdreq.endW s.std readyCycle.std = false := by simp [Stdreq.endW, h.state]
  have hzdp : (step s readyCycle).std.zdpQ = false := zdpQ_of_silent _ rfl
  have hsel : Stdreq.selW true s.std readyCycle.std = false := by
    simp [Stdreq.selW, h.state, readyCycle]
  obtain ⟨hhushed, hsent⟩ := h.hushed.next rfl h.start hzdp
  refine ⟨⟨?_, ?_, ?_, ?_, hhushed⟩, hsent⟩
  · simp [step, Stdreq.step, Stdreq.snext, h.cyc]
  · simp [step, Stdreq.step, hsel, h.cyc]
  · simp [step, Stdreq.step, Stdreq.parserNext, h.cyc, Stdreq.Parser.clear]
  · simp [step, Stdreq.step, Stdreq.parserNext, h.cyc, Stdreq.Parser.clear]

/-- A pipe at rest takes the request for one byte of the descriptor of the device. -/
theorem Rest.request (h : Rest s) :
    Request s tokenCycle (requestCycles 0x01) (byteCycle (some 0x00))
      (getDescriptor .device 0 1) := by
  obtain ⟨⟨state, cyc, endQ, par, req, sel, zdp, parser⟩, ctl⟩ := s
  have hstate : state = .idle := h.state
  have hcyc : cyc = false := h.cyc
  subst hstate hcyc
  refine ⟨rfl, rfl, arriving_requestCycles _ _, ?_, ?_⟩
  · rfl
  · rfl

/-- At rest nothing is sent. -/
theorem Settled.silent_ready (h : Settled s) (hs : Sound s)
    (hnone : AxisSkid.contents s.ctl.skid = []) :
    Rest (step s readyCycle) ∧ sent s readyCycle = [] := by
  obtain ⟨hstate, hcyc, -, -, hzdp, hparser⟩ := h.std_step readyCycle
  obtain ⟨hready, hempty, hsent⟩ := h.skid_step (i := readyCycle) hnone
  obtain ⟨hmv, htv⟩ := contents_eq_nil.mp hempty
  have hsel : (step s readyCycle).std.selQ = false := by
    simp [step, Stdreq.step, Stdreq.selW, readyCycle]
  have hdesc : (step s readyCycle).ctl.getDescQ = false := by
    simp [step, CtlPipe0.step, h.getDescNext hs hnone]
  exact ⟨⟨hstate, hcyc.trans hsel, by rw [hparser]; rfl, by rw [hparser]; rfl,
    ⟨hdesc, hzdp, hready, hmv, htv⟩⟩, hsent⟩

/-- The cycles of a request, and of the time that the response takes. -/
def probe : List Inputs :=
  tokenCycle :: (requestCycles 0x01 ++ [byteCycle (some 0x00)]) ++ List.replicate 129 readyCycle

theorem still_probe : ∀ i ∈ probe, Still i := by
  intro i hi
  simp only [probe, requestCycles, List.cons_append, List.mem_cons, List.mem_append, List.mem_map,
    List.mem_replicate] at hi
  rcases hi with rfl | (⟨b, -, rfl⟩ | rfl | hi) | ⟨-, rfl⟩
  · exact ⟨rfl, rfl, rfl, rfl⟩
  · exact ⟨rfl, rfl, rfl, rfl⟩
  · exact ⟨rfl, rfl, rfl, rfl⟩
  · exact absurd hi (List.not_mem_nil)
  · exact ⟨rfl, rfl, rfl, rfl⟩

theorem Rest.emitted_probe (h : Rest s) (hd : Descriptor.device.Has p) :
    emitted step sent s probe = packet (response p .device 1) := by
  have hjs := along_readyCycle
    (run step s (tokenCycle :: (requestCycles 0x01 ++ [byteCycle (some 0x00)]))) 129
  have hdelivers := h.request.delivers h hd (by decide) hjs
  rw [probe]
  exact hdelivers.2 (countP_readyCycle 129).ge

theorem packet_ne_nil (hd : Descriptor.device.Has p) : packet (response p .device 1) ≠ [] := by
  rw [← List.length_pos_iff, length_packet, length_response]
  have hpos : 0 < (Descriptor.device.bytes p).length := List.length_pos_iff.mpr hd.device
  omega

/-- A transfer that is not over is noticed. -/
theorem Abandoned.differs {s' : State p} (h : Abandoned s) (hs : Sound s) (h' : Settled s')
    (hs' : Sound s') (hnone : AxisSkid.contents s'.ctl.skid = []) (hd : Descriptor.device.Has p) :
    ∃ js, (emitted step sent s js).map shown ≠ (emitted step sent s' js).map shown := by
  obtain ⟨hrest, hfirst⟩ := h'.silent_ready hs' hnone
  obtain ⟨-, hsecond⟩ := hrest.next_ready
  cases hmv : s.ctl.skid.mvalid
  · have htv : s.ctl.skid.tvalid = false := by
      cases ht : s.ctl.skid.tvalid
      · rfl
      · exact absurd (hs.valid.behind ht) (by simp [AxisSkid.State.toLoader, hmv])
    cases hoffer : CtlPipe0.tvalidW s.ctl (ctlInputs s readyCycle)
    · have hblocked : Blocked s := ⟨h, hmv, htv, fun i => hoffer⟩
      refine ⟨readyCycle :: probe, ?_⟩
      have hstill : ∀ i ∈ readyCycle :: probe, Still i := by
        intro i hi
        rcases List.mem_cons.mp hi with rfl | hi
        · exact ⟨rfl, rfl, rfl, rfl⟩
        · exact still_probe i hi
      rw [hblocked.silent hstill, emitted_cons, hfirst, hrest.emitted_probe hd]
      intro heq
      exact packet_ne_nil hd (List.map_eq_nil_iff.mp heq.symm)
    · refine ⟨[readyCycle, readyCycle], ?_⟩
      have hsent := sent_of_offer hoffer rfl (j := readyCycle) rfl
      simp [hfirst, hsecond, hsent]
  · refine ⟨[readyCycle], ?_⟩
    have hsent := sent_of_mvalid hmv (i := readyCycle) rfl
    simp [hfirst, hsent]

end Differences

/-- Compared with a pipe at rest, the packets that follow a history are the same exactly if its last
transfer is over, and no word of it is left in the skid register. -/
theorem independent_iff (s s' : State p) (hs : Reached s) (hs' : Reached s')
    (hend : Settled s ∨ Abandoned s) (hend' : Settled s')
    (hnone' : AxisSkid.contents s'.ctl.skid = []) (hd : Descriptor.device.Has p) :
    (∀ js, (emitted step sent s js).map shown = (emitted step sent s' js).map shown) ↔
      Settled s ∧ AxisSkid.contents s.ctl.skid = [] := by
  constructor
  · intro hall
    rcases hend with hsettled | habandoned
    · refine ⟨hsettled, contents_eq_nil.mpr ?_⟩
      have hfirst := (hend'.silent_ready hs'.sound hnone').2
      have hmv : s.ctl.skid.mvalid = false := by
        cases hm : s.ctl.skid.mvalid
        · rfl
        · have hsent := sent_of_mvalid hm (i := readyCycle) rfl
          simpa [hfirst, hsent] using hall [readyCycle]
      refine ⟨hmv, ?_⟩
      cases ht : s.ctl.skid.tvalid
      · rfl
      · exact absurd (hs.sound.valid.behind ht) (by simp [AxisSkid.State.toLoader, hmv])
    · obtain ⟨js, hjs⟩ := habandoned.differs hs.sound hend' hs'.sound hnone' hd
      exact absurd (hall js) hjs
  · rintro ⟨hsettled, hnone⟩ js
    exact hsettled.emitted_eq hend' hs.sound hs'.sound hnone hnone' js

/-! ## A transfer that is never polled -/

/-- A cycle in which the encoder is not ready. -/
def stalledCycle : Inputs := { readyCycle with mTready := false }

/-- A handshake of the host, in answer to some IN transaction. -/
def ackCycle : Inputs :=
  { stalledCycle with std := { stalledCycle.std with hskRecv := true } }

/-- The descriptor of the device is asked for, and the response stays where it is: the two handshakes
that end the transfer are those of other end-points. -/
def neverPolled : List Inputs :=
  [readyCycle, tokenCycle] ++ requestCycles 0x12 ++
    [byteCycle (some 0x00), stalledCycle, stalledCycle, stalledCycle,
      { stalledCycle with std := { stalledCycle.std with hskSent := true } },
      ackCycle, ackCycle, stalledCycle, stalledCycle, stalledCycle]

def resetCycle : Inputs := { readyCycle with std := { readyCycle.std with reset := true } }

/-- The pipe after that history. -/
def leftPipe : State plainDevice := run step default (resetCycle :: neverPolled)

theorem reached_leftPipe : Reached leftPipe := ⟨default, resetCycle, neverPolled, rfl, rfl⟩

theorem settled_leftPipe : Settled leftPipe :=
  ⟨by decide, by decide, by decide, by decide, by decide⟩

theorem reached_idlePipe : Reached idlePipe := ⟨default, resetCycle, [readyCycle], rfl, rfl⟩

theorem settled_idlePipe : Settled idlePipe :=
  ⟨by decide, by decide, by decide, by decide, by decide⟩

/-- A transfer that is never polled makes a difference. -/
theorem independent_iff_leftPipe :
    (∀ js, (emitted step sent leftPipe js).map shown = (emitted step sent idlePipe js).map shown) ↔
      Settled leftPipe ∧ AxisSkid.contents leftPipe.ctl.skid = [] :=
  independent_iff leftPipe idlePipe reached_leftPipe reached_idlePipe (Or.inl settled_leftPipe)
    settled_idlePipe (by decide) has_device

/-- The two words that are left are sent in front of the next packet. -/
theorem dependent_neverPolled :
    Reached leftPipe ∧ Settled leftPipe ∧ Reached idlePipe ∧ Settled idlePipe ∧
      (emitted step sent leftPipe [readyCycle, readyCycle]).map shown =
        [(false, some 0x5a), (false, some 0x5a)] ∧
      ¬ ∀ js, (emitted step sent leftPipe js).map shown = (emitted step sent idlePipe js).map shown := by
  have hleft : (emitted step sent leftPipe [readyCycle, readyCycle]).map shown =
      [(false, some 0x5a), (false, some 0x5a)] := by decide
  refine ⟨reached_leftPipe, settled_leftPipe, reached_idlePipe, settled_idlePipe, hleft,
    fun hall => ?_⟩
  have hidle : (emitted step sent idlePipe [readyCycle, readyCycle]).map shown = [] := by decide
  rw [hall, hidle] at hleft
  cases hleft

end MiscVerilogCores.ControlPipe
