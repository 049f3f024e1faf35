import MiscVerilogCores.Model.OutPipe
import MiscVerilogCores.Verification.PacketFifo.Saving
import MiscVerilogCores.Verification.Protocol.Strobes

/-! # What an edge does to a bulk OUT end-point

The registers that the transaction layer and the end-point share, one lemma for each. -/

namespace MiscVerilogCores.OutPipe

open PacketFifo Usb

variable {ABITS : ℕ}

section Names

variable (p : Params) (s : State ABITS)

/-- The parameters of the end-point, as the transaction layer has them. -/
abbrev port : Protocol.BulkEp := p.proto.bulk p.place

/-- The end-point is selected. -/
abbrev sel : Bool := (s.proto.bulk p.place).selQ

/-- The end-point is told that its packet was acknowledged. -/
abbrev ack : Bool := (s.proto.bulk p.place).ackQ

/-- The end-point is enabled, by parameter and by the configuration. -/
abbrev en : Bool := (s.proto.bulk p.place).en

/-- The FIFO has room for a packet, by its level. -/
def HasRoom : Prop := s.ep.fifo.levelQ.toNat + p.ep.maxPacketLength < 2 ^ ABITS

instance : Decidable (HasRoom p s) := inferInstanceAs (Decidable (_ < _))

/-- The inputs of the FIFO. -/
abbrev fifoInputs (i : Inputs) : PacketFifo.Inputs 8 :=
  BulkOut.fifoInputs s.ep (outInputs p s i)

end Names

/-- An OUT end-point that is there, behind a FIFO that is deep enough. -/
structure Enabled (p : Params) (ABITS : ℕ) : Prop where
  out : (port p).useOut = true
  noIn : (port p).useIn = false
  number : (port p).number ≠ 0
  ep : p.ep.enabled = true
  depth : p.ep.maxPacketLength < 2 ^ ABITS

/-- A configuration enables it. -/
theorem Enabled.en {p : Params} (hp : Enabled p ABITS) : (port p).en = true := by
  have hnumber := hp.number
  simpa [Protocol.BulkEp.en, hp.out] using hnumber

theorem onDemand_fifoParams (q : BulkOut.Params) : OnDemand (BulkOut.fifoParams q) :=
  ⟨rfl, rfl, rfl, rfl⟩

/-- What is left of `2 ^ A` words, one of them aside, is negative if the others do not fit. -/
theorem msb_room {A m : ℕ} (l : BitVec A) (hm : m < 2 ^ A) :
    (BitVec.ofNat (A + 1) (2 ^ A) - l.setWidth (A + 1) - BitVec.ofNat (A + 1) m - 1).msb =
      !decide (l.toNat + m < 2 ^ A) := by
  have hl := l.isLt
  have hlap : 2 ^ (A + 1) = 2 ^ A + 2 ^ A := by ring
  have hwidth : l.setWidth (A + 1) = BitVec.ofNat (A + 1) l.toNat :=
    BitVec.eq_of_toNat_eq (by simp)
  -- one lap more keeps the difference above zero
  have hdiff : BitVec.ofNat (A + 1) (2 ^ A) - l.setWidth (A + 1) - BitVec.ofNat (A + 1) m - 1 =
      BitVec.ofNat (A + 1) (2 ^ A + 2 ^ (A + 1) - l.toNat - m - 1) := by
    have hsum : 2 ^ A + 2 ^ (A + 1) - l.toNat - m - 1 + 1 + m + l.toNat = 2 ^ A + 2 ^ (A + 1) := by
      omega
    have hone : (1 : BitVec (A + 1)) = BitVec.ofNat (A + 1) 1 := rfl
    rw [hwidth, hone, BitVec.sub_eq_iff_eq_add, BitVec.sub_eq_iff_eq_add, BitVec.sub_eq_iff_eq_add,
      ← BitVec.ofNat_add, ← BitVec.ofNat_add, ← BitVec.ofNat_add, hsum, ← BitVec.toNat_inj,
      BitVec.toNat_ofNat, BitVec.toNat_ofNat, Nat.add_mod_right]
  rw [hdiff, BitVec.msb_eq_decide, BitVec.toNat_ofNat, Nat.add_sub_cancel]
  by_cases hroom : l.toNat + m < 2 ^ A
  · have hval : (2 ^ A + 2 ^ (A + 1) - l.toNat - m - 1) % 2 ^ (A + 1) = 2 ^ A - l.toNat - m - 1 := by
      rw [Nat.mod_eq_sub_mod (by omega), Nat.mod_eq_of_lt (by omega)]
      omega
    simp [hval, hroom]
    omega
  · have hval : (2 ^ A + 2 ^ (A + 1) - l.toNat - m - 1) % 2 ^ (A + 1) =
        2 ^ A + 2 ^ (A + 1) - l.toNat - m - 1 := Nat.mod_eq_of_lt (by omega)
    simp [hval, hroom]
    omega

section Step

variable {p : Params} {s : State ABITS} {i : Inputs}

/-! ## The end-point -/

theorem rstQ_step (hr : i.proto.reset = false) : (step p s i).ep.rstQ = i.proto.setConfI := by
  simp [step, BulkOut.step, outInputs, hr]

theorem rdyQ_step (hr : i.proto.reset = false) :
    (step p s i).ep.rdyQ = (!i.proto.setConfI && BulkOut.rdyNext s.ep) := by
  simp [step, BulkOut.step, outInputs, hr]

/-- `space_w` is negative if there is no room. -/
theorem msb_spaceW (hp : p.ep.maxPacketLength < 2 ^ ABITS) :
    (BulkOut.spaceW p.ep s.ep).msb = !decide (HasRoom p s) :=
  msb_room s.ep.fifo.levelQ hp

theorem fullQ_step (hr : i.proto.reset = false) (hc : i.proto.setConfI = false)
    (hp : p.ep.maxPacketLength < 2 ^ ABITS) :
    (step p s i).ep.fullQ = !decide (HasRoom p s) := by
  rw [← msb_spaceW hp]
  simp [step, BulkOut.step, outInputs, hr, hc]

/-- Between its transactions the end-point waits, or it waits for room. -/
theorem state_of_unselected (hr : i.proto.reset = false) (hc : i.proto.clrConfI = false)
    (hen : p.ep.enabled = true) (hsel : sel p s = false) :
    (s.ep.state = .idle → (step p s i).ep.state = .idle) ∧
      (s.ep.state = .full → (step p s i).ep.state = if s.ep.fullQ then .full else .idle) := by
  constructor <;> intro hstate
  · simp [step, BulkOut.step, BulkOut.stateNext, outInputs, hr, hc, hen, hsel, hstate]
  · cases hf : s.ep.fullQ <;>
      simp [step, BulkOut.step, BulkOut.stateNext, outInputs, hr, hc, hen, hsel, hstate, hf]

theorem state_of_selected (hr : i.proto.reset = false) (hc : i.proto.clrConfI = false)
    (hen : p.ep.enabled = true) (hsel : sel p s = true) (hstate : s.ep.state = .idle) :
    (step p s i).ep.state = .recv := by
  simp [step, BulkOut.step, BulkOut.stateNext, outInputs, hr, hc, hen, hsel, hstate]

theorem state_of_recv (hr : i.proto.reset = false) (hc : i.proto.clrConfI = false)
    (hen : p.ep.enabled = true) (hsel : sel p s = true) (herr : s.proto.epxErrQ = false)
    (hready : s.ep.fifo.wready = true) (hstate : s.ep.state = .recv) :
    (step p s i).ep.state = if i.sTvalid && i.sTlast then .save else .recv := by
  simp [step, BulkOut.step, BulkOut.stateNext, BulkOut.sTready, BulkOut.treadyW, sTready, outInputs,
    hr, hc, hen, hsel, herr, hready, hstate]

theorem state_of_save (hr : i.proto.reset = false) (hc : i.proto.clrConfI = false)
    (hen : p.ep.enabled = true) (hstate : s.ep.state = .save) :
    (step p s i).ep.state =
      if ack p s || s.proto.epxErrQ then (if s.ep.fullQ then .full else .idle) else .save := by
  simp [step, BulkOut.step, BulkOut.stateNext, outInputs, hr, hc, hen, hstate]

theorem fifo_step : (step p s i).ep.fifo =
    PacketFifo.step (BulkOut.fifoParams p.ep) s.ep.fifo (fifoInputs p s i) := rfl

/-- Bytes are taken in `ST_RECV` only. -/
theorem captureA_eq : captureA s.ep.fifo (fifoInputs p s i) =
    (s.ep.state == .recv && i.sTvalid && s.ep.fifo.wready && i.sTkeep) := rfl

/-! ## The transaction layer -/

/-- The token is for the end-point. -/
def Addressed (p : Params) (i : Inputs) : Prop :=
  Protocol.tokenW i.proto = true ∧ Protocol.tokenSel p.proto i.proto = some p.place.succ

instance : Decidable (Addressed p i) := inferInstanceAs (Decidable (_ ∧ _))

theorem bulk_step : (step p s i).proto.bulk p.place =
    Protocol.epNext p.proto s.proto (protocolInputs p s i) p.place.succ (port p)
      (s.proto.bulk p.place) :=
  Protocol.bulk_step _ _ _ _

theorem en_step (hr : i.proto.reset = false) (hc : i.proto.clrConfI = false) :
    en p (step p s i) = if i.proto.setConfI then (port p).en else en p s := by
  have hr' : (protocolInputs p s i).reset = false := hr
  have hc' : (protocolInputs p s i).clrConfI = false := hc
  have hset : (protocolInputs p s i).setConfI = i.proto.setConfI := rfl
  rw [en, bulk_step]
  simp [Protocol.epNext, Protocol.enNext, hr', hc', hset]

theorem ack_step (hp : Enabled p ABITS) :
    ack p (step p s i) = (!s.proto.endQ && (sel p s && i.proto.hskSent)) := by
  have hsent : (protocolInputs p s i).hskSent = i.proto.hskSent := rfl
  rw [ack, bulk_step]
  simp [Protocol.epNext, Protocol.ackNext, hp.out, hp.noIn, hsent]

theorem sel_of_endQ (hend : s.proto.endQ = true) : sel p (step p s i) = false := by
  rw [sel, bulk_step]
  simp [Protocol.epNext, Protocol.selNext, hend]

theorem sel_of_no_token (hend : s.proto.endQ = false) (htok : Protocol.tokenW i.proto = false) :
    sel p (step p s i) = sel p s := by
  have htok' : Protocol.tokenW (protocolInputs p s i) = false := htok
  rw [sel, bulk_step]
  simp [Protocol.epNext, Protocol.selNext, hend, htok']

theorem sel_of_addressed (hend : s.proto.endQ = false) (hi : Addressed p i)
    (hen : en p s = true) : sel p (step p s i) = true := by
  have htok : Protocol.tokenW (protocolInputs p s i) = true := hi.1
  have hsel : Protocol.tokenSel p.proto (protocolInputs p s i) = some p.place.succ := hi.2
  rw [sel, bulk_step]
  simp [Protocol.epNext, Protocol.selNext, hend, htok, hsel, hen]

theorem sel_of_not_addressed (hsel : sel p s = false) (hi : ¬ Addressed p i) :
    sel p (step p s i) = false := by
  cases hend : s.proto.endQ
  · cases htok : Protocol.tokenW i.proto
    · exact (sel_of_no_token hend htok).trans hsel
    · have htok' : Protocol.tokenW (protocolInputs p s i) = true := htok
      have hne : Protocol.tokenSel p.proto (protocolInputs p s i) ≠ some p.place.succ :=
        fun heq => hi ⟨htok, heq⟩
      rw [sel, bulk_step]
      simp [Protocol.epNext, Protocol.selNext, hend, htok', hne]
  · exact sel_of_endQ hend

theorem endQ_step (hr : i.proto.reset = false) (hc : i.proto.clrConfI = false) :
    (step p s i).proto.endQ =
      (i.proto.hskRecv || i.proto.hskSent || s.proto.timeoutQ || s.proto.crcErrQ) := by
  have hr' : (protocolInputs p s i).reset = false := hr
  have hc' : (protocolInputs p s i).clrConfI = false := hc
  have hrecv : (protocolInputs p s i).hskRecv = i.proto.hskRecv := rfl
  have hsent : (protocolInputs p s i).hskSent = i.proto.hskSent := rfl
  simp [step, Protocol.step, hr', hc', hrecv, hsent]

theorem epxErrQ_step : (step p s i).proto.epxErrQ =
    (!s.proto.endQ && (s.proto.crcErrQ || s.proto.timeoutQ)) := rfl

theorem crcErrQ_step (hr : i.proto.reset = false) : (step p s i).proto.crcErrQ =
    (i.proto.crcError && !s.proto.crcAckQ) := by
  have hr' : (protocolInputs p s i).reset = false := hr
  have hcrc : (protocolInputs p s i).crcError = i.proto.crcError := rfl
  simp [step, Protocol.step, hr', hcrc]

theorem crcAckQ_step (hr : i.proto.reset = false) :
    (step p s i).proto.crcAckQ = i.proto.crcError := by
  have hr' : (protocolInputs p s i).reset = false := hr
  have hcrc : (protocolInputs p s i).crcError = i.proto.crcError := rfl
  simp [step, Protocol.step, hr', hcrc]

theorem timeoutQ_step (hr : i.proto.reset = false) :
    (step p s i).proto.timeoutQ = (s.proto.taErrQ || s.proto.epErrQ) :=
  Protocol.timeoutQ_step hr

/-- What the state machine sets. -/
theorem move_step (hr : i.proto.reset = false) {m : Protocol.Move}
    (hm : Protocol.moveNext p.proto s.proto (protocolInputs p s i) = m) :
    (step p s i).proto.state = m.state ∧ (step p s i).proto.pidQ = m.pidQ ∧
      (step p s i).proto.tagQ = m.tagQ ∧ (step p s i).proto.epgQ = m.epgQ := by
  subst hm
  exact ⟨Protocol.state_step hr, Protocol.pidQ_step hr, Protocol.tagQ_step hr,
    Protocol.epgQ_step hr⟩

end Step

end MiscVerilogCores.OutPipe
