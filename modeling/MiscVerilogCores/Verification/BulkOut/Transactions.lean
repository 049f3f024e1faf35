import Mathlib.Tactic.MkIffOfInductiveProp
import MiscVerilogCores.Verification.BulkOut.Edges

/-! # Transactions with a bulk OUT end-point

The traffic that the end-point can cope with, and the phases that the transaction layer and the
end-point go through together. -/

namespace MiscVerilogCores.OutPipe

open Clocked PacketFifo Usb

variable {ABITS : ℕ}

/-! ## The books -/

/-- The payloads that have been accepted, that of the transaction and whether it is good so far, and
the words delivered. -/
structure Ledger where
  accepted : List (List (BitVec 8))
  current : List (BitVec 8)
  good : Bool
  delivered : List (Bool × BitVec 8)

def Ledger.empty : Ledger := ⟨[], [], false, []⟩

/-- The words of the packets that have been accepted. -/
def Ledger.words (m : Ledger) : List (Bool × BitVec 8) := m.accepted.flatMap frame

/-- The handshake that is sent is ACK or NYET. -/
def accepts (q : Protocol.State) : Bool :=
  q.state == .resp && (q.pidQ == usbpidAck || q.pidQ == usbpidNyet)

/-- A token begins a payload, which is good if its packet ends with the right CRC and the expected
sequence bit, and accepted if it is then answered with ACK or NYET. When the FIFO is reset the books
are closed. -/
def watch (p : Params) (m : Ledger) (s : State ABITS) (i : Inputs) : Ledger :=
  if s.ep.rstQ then .empty
  else
    { accepted :=
        if sel p s && accepts s.proto && i.proto.hskSent && m.good then m.accepted ++ [m.current]
        else m.accepted
      current :=
        if Addressed p i then []
        else if sel p s && s.proto.state == .recv && i.sTvalid && i.sTkeep then
          m.current ++ [i.sTdata]
        else m.current
      good :=
        !decide (Addressed p i) &&
          if s.proto.state == .recv && i.proto.usbRecv then s.proto.parQ else m.good
      delivered := m.delivered ++ OutPipe.delivered p s i }

/-! ## What is asked of an edge -/

section Conditions

variable (p : Params) (m : Ledger) (s : State ABITS) (i : Inputs)

/-- The turn-around timer is off. -/
@[mk_iff] structure Tame (q : Protocol.State) : Prop where
  tag : q.tagQ = false
  run : q.taRunQ = false
  err : q.taErrQ = false

/-- The bus, as the decoder and the encoder of handshakes show it: each packet ends with a beat of the
stream, which carries no byte for a token, at the soonest in the second cycle behind a token; handshakes
are sent when they are asked for, and the host sends none to an OUT end-point; no packet is too long. -/
@[mk_iff] structure Bus : Prop where
  reset : i.proto.reset = false
  clrConf : i.proto.clrConfI = false
  setConf : i.proto.setConfI = true → sel p s = false ∧ Protocol.tokenW i.proto = false
  token : Protocol.tokenW i.proto = true → i.proto.crcError = false ∧ i.proto.usbRecv = false ∧
    i.proto.hskRecv = false ∧ i.proto.hskSent = false
  beat : Protocol.tokenW i.proto = true → i.sTvalid = true ∧ i.sTkeep = false ∧ i.sTlast = true
  hskRecv : i.proto.hskRecv = true → sel p s = false
  hskSent : i.proto.hskSent = true → s.proto.state = .resp
  start : sel p s = true → s.ep.state = .idle → i.sTvalid = false
  ends : sel p s = true → s.proto.state = .recv → (i.proto.usbRecv || i.proto.crcError) = true →
    (i.sTvalid && i.sTlast) = true
  apart : sel p s = true → i.proto.usbRecv = true → i.proto.crcError = false
  quiet : sel p s = true → s.proto.state = .resp → i.proto.crcError = false
  length : sel p s = true → s.proto.state = .recv → i.sTvalid = true → i.sTkeep = true →
    m.current.length < p.ep.maxPacketLength

/-- A transaction can begin: no other is under way, no timer is about to elapse, and the end-point is
ready. -/
@[mk_iff] structure Open : Prop where
  state : s.proto.state = .idle
  endQ : s.proto.endQ = false
  ta : Tame s.proto
  count : s.proto.epgQ = false → s.proto.epRunQ = true → s.proto.epCount ≠ 0
  err : s.proto.epErrQ = false
  timeout : s.proto.timeoutQ = false
  crcErr : s.proto.crcErrQ = false
  seen : s.proto.outRdyQ = true
  ep : s.ep.state = .idle
  rdy : s.ep.rdyQ = true

/-- A token for the end-point is OUT and finds it ready, and no other token comes while it is selected,
nor another packet while its DATAx is waited for. A packet has the expected sequence bit unless its CRC
is bad, its handshake is in time, and when it is saved there is something to read. -/
@[mk_iff] structure Regular : Prop extends Bus p m s i where
  opens : Addressed p i → Open s ∧ i.proto.usbPid = usbpidOut
  alone : sel p s = true → Protocol.tokenW i.proto = false
  arrives : sel p s = true → s.proto.state = .recv → (i.sTvalid && i.sTlast) = true →
    (i.proto.usbRecv || i.proto.crcError) = true
  parity : sel p s = true → s.proto.state = .recv → i.proto.usbRecv = true → s.proto.parQ = true
  inTime : sel p s = true → i.proto.hskSent = true → s.proto.timeoutQ = false
  something : s.ep.fifo.saveQ = true →
    waddrNext (BulkOut.fifoParams p.ep) s.ep.fifo (fifoInputs p s i) ≠
      raddrNext (BulkOut.fifoParams p.ep) s.ep.fifo (fifoInputs p s i)

instance (q : Protocol.State) : Decidable (Tame q) :=
  decidable_of_iff _ (tame_iff q).symm

instance : Decidable (Open s) :=
  decidable_of_iff _ (open_iff s).symm

set_option synthInstance.maxSize 256 in
instance : Decidable (Bus p m s i) :=
  decidable_of_iff _ (bus_iff p m s i).symm

instance : Decidable (Regular p m s i) :=
  decidable_of_iff _ (regular_iff p m s i).symm

end Conditions

/-! ## Phases -/

section Phases

variable (p : Params) (s : State ABITS) (m : Ledger)

/-- The FIFO has saved `acc`, and has taken the bytes `bs` besides; there is room for `k` more. -/
def Holds (acc : List (Bool × BitVec 8)) (out : List (Bool × BitVec 8)) (bs : List (BitVec 8))
    (k : ℕ) : Prop :=
  ∃ rd lost, Holding (BulkOut.fifoParams p.ep) s.ep.fifo acc out bs k rd lost

/-- What the books say of the FIFO between two transactions; the last packet may be on its way. -/
def Kept (k : ℕ) : Prop :=
  s.ep.fifo.saveQ = false ∧ Holds p s m.words m.delivered [] k ∨
    s.ep.fifo.saveQ = true ∧ s.proto.epxErrQ = false ∧
      ∃ acc bs, m.words = acc ++ frame bs ∧ Holds p s acc m.delivered bs k

/-- No transaction: the end-point waits for one, or for room. -/
structure Quiet : Prop where
  en : en p s = true
  sel : sel p s = false
  ack : ack p s = false
  ep : s.ep.state = .idle ∨ s.ep.state = .full
  rdy : s.ep.rstQ = true → s.ep.rdyQ = false
  told : m.delivered <+: m.words
  kept : s.ep.rstQ = false → Kept p s m 0
  idle : s.ep.rstQ = false → s.ep.state = .idle → Kept p s m p.ep.maxPacketLength
  full : s.ep.rstQ = false → s.ep.fullQ = false → Kept p s m p.ep.maxPacketLength

/-- The end-point is selected. -/
structure InTransaction : Prop where
  en : en p s = true
  sel : sel p s = true
  rst : s.ep.rstQ = false
  save : s.ep.fifo.saveQ = false
  ta : Tame s.proto

/-- The DATAx packet is waited for. -/
structure Awaiting : Prop extends InTransaction p s where
  endQ : s.proto.endQ = false
  ack : ack p s = false
  state : s.proto.state = .recv
  epg : s.proto.epgQ = true
  err : s.proto.epErrQ = false
  timeout : s.proto.timeoutQ = false
  crcErr : s.proto.crcErrQ = false
  crcAck : s.proto.crcAckQ = false
  epxErr : s.proto.epxErrQ = false
  ready : s.ep.fifo.wready = true

/-- The token has been taken. -/
structure Opened : Prop extends Awaiting p s where
  ep : s.ep.state = .idle
  current : m.current = []
  holds : Holds p s m.words m.delivered [] p.ep.maxPacketLength

/-- The packet arrives. -/
structure Receiving : Prop extends Awaiting p s where
  ep : s.ep.state = .recv
  last : s.ep.fifo.xlst = false
  length : m.current.length ≤ p.ep.maxPacketLength
  holds : Holds p s m.words m.delivered m.current (p.ep.maxPacketLength - m.current.length)

/-- The packet has arrived, and is to be saved or dropped. -/
structure Arrived : Prop extends InTransaction p s where
  ep : s.ep.state = .save

/-- The handshake is sent. -/
structure Answering : Prop extends Arrived p s where
  endQ : s.proto.endQ = false
  ack : ack p s = false
  state : s.proto.state = .resp
  pid : s.proto.pidQ = usbpidAck ∨ s.proto.pidQ = usbpidNyet
  good : m.good = true
  crcErr : s.proto.crcErrQ = false
  epxErr : s.proto.epxErrQ = false
  holds : Holds p s m.words m.delivered m.current 0

/-- The transaction layer is idle again. -/
structure Ended : Prop extends Arrived p s where
  state : s.proto.state = .idle
  epg : s.proto.epgQ = false

/-- The handshake has been sent. -/
structure Acked : Prop extends Ended p s where
  endQ : s.proto.endQ = true
  ack : ack p s = true
  epxErr : s.proto.epxErrQ = false
  holds : ∃ acc, m.words = acc ++ frame m.current ∧ Holds p s acc m.delivered m.current 0
  full : s.ep.fullQ = false → ∃ acc, m.words = acc ++ frame m.current ∧
    Holds p s acc m.delivered m.current p.ep.maxPacketLength

/-- The CRC was bad. -/
structure Failed : Prop extends Ended p s where
  endQ : s.proto.endQ = false
  ack : ack p s = false
  crcErr : s.proto.crcErrQ = true
  epxErr : s.proto.epxErrQ = false
  holds : Holds p s m.words m.delivered m.current 0

/-- The packet is dropped. -/
structure Cancelled : Prop extends Ended p s where
  endQ : s.proto.endQ = true
  ack : ack p s = false
  epxErr : s.proto.epxErrQ = true
  holds : Holds p s m.words m.delivered m.current 0
  full : s.ep.fullQ = false → Holds p s m.words m.delivered m.current p.ep.maxPacketLength

/-- The phases of a transaction, and the time between two of them. -/
inductive Phase : Prop where
  | quiet (h : Quiet p s m)
  | opened (h : Opened p s m)
  | receiving (h : Receiving p s m)
  | answering (h : Answering p s m)
  | acked (h : Acked p s m)
  | failed (h : Failed p s m)
  | cancelled (h : Cancelled p s m)

end Phases

section Fifo

variable {p : Params} {m : Ledger} {s : State ABITS} {i : Inputs} {acc out : List (Bool × BitVec 8)}
  {bs : List (BitVec 8)} {k : ℕ}

theorem Regular.paced (hi : Regular p m s i) (hrst : s.ep.rstQ = false)
    (hsave : s.ep.fifo.saveQ = true → s.proto.epxErrQ = false ∧ s.ep.state ≠ .recv) :
    Paced (BulkOut.fifoParams p.ep) s.ep.fifo (fifoInputs p s i) := by
  refine ⟨hrst, rfl, fun hs => ⟨(hsave hs).1, ?_⟩, hi.something⟩
  simp [captureA_eq, (hsave hs).2]

theorem captureA_of_ne (h : s.ep.state ≠ .recv) :
    captureA s.ep.fifo (fifoInputs p s i) = false := by
  simp [captureA_eq, h]

theorem Holds.rest (h : Holds p s acc out bs k) (hi : Regular p m s i) (hrst : s.ep.rstQ = false)
    (hc : captureA s.ep.fifo (fifoInputs p s i) = false) (herr : s.proto.epxErrQ = false)
    (hsave : s.ep.fifo.saveQ = false) :
    Holds p (step p s i) acc (out ++ delivered p s i) bs k := by
  obtain ⟨rd, lost, h⟩ := h
  exact h.rest (onDemand_fifoParams p.ep) (hi.paced hrst (by simp [hsave])) hc herr hsave

theorem Holds.drop (h : Holds p s acc out bs k) (hi : Regular p m s i) (hrst : s.ep.rstQ = false)
    (hep : s.ep.state ≠ .recv) (herr : s.proto.epxErrQ = true) (hsave : s.ep.fifo.saveQ = false) :
    Holds p (step p s i) acc (out ++ delivered p s i) [] k := by
  obtain ⟨rd, lost, h⟩ := h
  exact h.drop (onDemand_fifoParams p.ep) (hi.paced hrst (by simp [hsave])) (captureA_of_ne hep) herr

theorem Holds.save (h : Holds p s acc out bs k) (hi : Regular p m s i) (hrst : s.ep.rstQ = false)
    (hep : s.ep.state ≠ .recv) (herr : s.proto.epxErrQ = false) (hsave : s.ep.fifo.saveQ = true) :
    Holds p (step p s i) (acc ++ frame bs) (out ++ delivered p s i) [] k := by
  obtain ⟨rd, lost, h⟩ := h
  exact h.save (onDemand_fifoParams p.ep) (hi.paced hrst fun _ => ⟨herr, hep⟩) hsave

theorem Holds.take (h : Holds p s acc out bs (k + 1)) (hi : Regular p m s i)
    (hrst : s.ep.rstQ = false) (hc : captureA s.ep.fifo (fifoInputs p s i) = true)
    (herr : s.proto.epxErrQ = false) (hsave : s.ep.fifo.saveQ = false)
    (hlast : s.ep.fifo.xlst = false) :
    Holds p (step p s i) acc (out ++ delivered p s i) (bs ++ [i.sTdata]) k := by
  obtain ⟨rd, lost, h⟩ := h
  exact h.take (onDemand_fifoParams p.ep) (hi.paced hrst (by simp [hsave])) hc herr hlast rfl

theorem Holds.room (h : Holds p s acc out bs k) (hroom : HasRoom p s) :
    Holds p s acc out bs p.ep.maxPacketLength := by
  obtain ⟨rd, lost, h⟩ := h
  exact ⟨rd, lost, h.room hroom⟩

theorem Holds.mono (h : Holds p s acc out bs k) {k' : ℕ} (hk : k' ≤ k) :
    Holds p s acc out bs k' := by
  obtain ⟨rd, lost, h⟩ := h
  have hspace := h.space
  exact ⟨rd, lost, { h with space := by omega }⟩

/-- What is delivered has been saved. -/
theorem Holds.told (h : Holds p s acc out bs k) : out <+: acc := by
  obtain ⟨rd, lost, h⟩ := h
  exact h.out_le

/-- The FIFO after its reset. -/
theorem holds_of_rstQ (hrst : s.ep.rstQ = true) (hk : k < 2 ^ ABITS) :
    Holds p (step p s i) [] [] [] k :=
  ⟨0, 0, .of_reset (onDemand_fifoParams p.ep) _ hrst hk⟩

theorem Holds.wready_step (h : Holds p s acc out bs k) (hi : Regular p m s i)
    (hrst : s.ep.rstQ = false)
    (hsave : s.ep.fifo.saveQ = true → s.proto.epxErrQ = false ∧ s.ep.state ≠ .recv)
    (hc : (captureA s.ep.fifo (fifoInputs p s i)).toNat ≤ k) :
    (step p s i).ep.fifo.wready = true := by
  obtain ⟨rd, lost, h⟩ := h
  exact h.wready_step (onDemand_fifoParams p.ep) (hi.paced hrst hsave) hc

theorem saveQ_step (hrst : s.ep.rstQ = false) : (step p s i).ep.fifo.saveQ =
    (ack p s && !s.proto.epxErrQ) :=
  (onDemand_fifoParams p.ep).saveQ_step hrst

end Fifo

section Steps

variable {p : Params} {s : State ABITS} {i : Inputs} {m : Ledger}

/-! ### Between transactions -/

/-- The turn-around timer stays off. -/
theorem Tame.next {q : Protocol.State} {P : Protocol.Params} {j : Protocol.Inputs} (h : Tame q)
    (htag : (Protocol.step P q j).tagQ = false) : Tame (Protocol.step P q j) := by
  refine ⟨htag, ?_, ?_⟩ <;> simp [Protocol.step, Protocol.taNext, h.tag, h.run]

theorem Kept.next {k : ℕ} (h : Kept p s m k) (hi : Regular p m s i) (hrst : s.ep.rstQ = false)
    (hep : s.ep.state ≠ .recv) :
    Holds p (step p s i) m.words (m.delivered ++ delivered p s i) [] k := by
  rcases h with ⟨hsave, h⟩ | ⟨hsave, herr, acc, bs, hwords, h⟩
  · cases herr : s.proto.epxErrQ
    · exact h.rest hi hrst (captureA_of_ne hep) herr hsave
    · exact h.drop hi hrst hep herr hsave
  · rw [hwords]
    exact h.save hi hrst hep herr hsave

theorem Kept.room {k : ℕ} (h : Kept p s m k) (hroom : HasRoom p s) :
    Kept p s m p.ep.maxPacketLength := by
  rcases h with ⟨hsave, h⟩ | ⟨hsave, herr, acc, bs, hwords, h⟩
  · exact Or.inl ⟨hsave, h.room hroom⟩
  · exact Or.inr ⟨hsave, herr, acc, bs, hwords, h.room hroom⟩

theorem Kept.told {k : ℕ} (h : Kept p s m k) : m.delivered <+: m.words := by
  rcases h with ⟨-, h⟩ | ⟨-, -, acc, bs, hwords, h⟩
  · exact h.told
  · rw [hwords]
    exact h.told.trans (List.prefix_append _ _)

theorem Quiet.not_recv (h : Quiet p s m) : s.ep.state ≠ .recv := by
  rcases h.ep with he | he <;> simp [he]

/-! ### The books at an edge -/

theorem delivered_watch (hrst : s.ep.rstQ = false) :
    (watch p m s i).delivered = m.delivered ++ delivered p s i := by
  simp [watch, hrst]

theorem words_watch (hrst : s.ep.rstQ = false)
    (hnot : (sel p s && accepts s.proto && i.proto.hskSent) = false) :
    (watch p m s i).words = m.words := by
  simp [watch, hrst, hnot, Ledger.words]

theorem words_watch_accepted (hrst : s.ep.rstQ = false) (hgood : m.good = true)
    (hyes : (sel p s && accepts s.proto && i.proto.hskSent) = true) :
    (watch p m s i).words = m.words ++ frame m.current := by
  simp [watch, hrst, hyes, hgood, Ledger.words]

theorem current_watch (hrst : s.ep.rstQ = false) (ha : ¬ Addressed p i)
    (hnot : (sel p s && s.proto.state == .recv && i.sTvalid && i.sTkeep) = false) :
    (watch p m s i).current = m.current := by
  simp [watch, hrst, ha, hnot]

/-- A token opens a transaction. -/
theorem Quiet.opens (h : Quiet p s m) (hp : Enabled p ABITS) (hi : Regular p m s i) (ha : Addressed p i) : Opened p (step p s i) (watch p m s i) := by
  obtain ⟨hb, hpid⟩ := hi.opens ha
  obtain ⟨hcrc, -, hrecv, hsent⟩ := hi.token ha.1
  have hr := hi.reset
  have hconf : i.proto.setConfI = false := by
    cases hconf : i.proto.setConfI
    · rfl
    · exact absurd ha.1 (by simp [(hi.setConf hconf).2])
  have hrst : s.ep.rstQ = false := by
    cases hrst : s.ep.rstQ
    · rfl
    · have hrdy := hb.rdy
      simp [h.rdy hrst] at hrdy
  have hkept := h.idle hrst hb.ep
  have hmove : Protocol.moveNext p.proto s.proto (protocolInputs p s i) =
      ⟨.recv, i.proto.undef, false, true⟩ := by
    have htok : Protocol.tokenW (protocolInputs p s i) = true := ha.1
    have hpid' : (protocolInputs p s i).usbPid = usbpidOut := hpid
    have hne : usbpidOut ≠ usbpidSetup := by decide
    simp only [Protocol.moveNext, hb.state, htok, Protocol.dispatch, hpid', hb.seen, Bool.or_true,
      if_true, if_neg hne]
    rfl
  obtain ⟨hstate, -, htag, hepg⟩ := move_step hr hmove
  have hwords : (watch p m s i).words = m.words := words_watch hrst (by simp [h.sel])
  have hready : (step p s i).ep.fifo.wready = true := by
    rcases hkept with ⟨hsave, hholds⟩ | ⟨hsave, herr, acc, bs, hwords, hholds⟩
    · exact hholds.wready_step hi hrst (by simp [hsave])
        (by simp [captureA_of_ne h.not_recv])
    · exact hholds.wready_step hi hrst (fun _ => ⟨herr, h.not_recv⟩)
        (by simp [captureA_of_ne h.not_recv])
  refine
    { en := by rw [en_step hr hi.clrConf, hconf, if_neg Bool.false_ne_true, h.en]
      sel := sel_of_addressed hb.endQ ha h.en
      rst := by rw [rstQ_step hr, hconf]
      save := by rw [saveQ_step hrst, h.ack]; rfl
      ta := hb.ta.next htag
      endQ := by rw [endQ_step hr hi.clrConf, hrecv, hsent, hb.timeout, hb.crcErr]; rfl
      ack := by rw [ack_step hp, h.sel]; simp
      state := hstate
      epg := hepg
      err := ?_
      timeout := by rw [timeoutQ_step hr, hb.ta.err, hb.err]; rfl
      crcErr := by rw [crcErrQ_step hr, hcrc]; rfl
      crcAck := by rw [crcAckQ_step hr, hcrc]
      epxErr := by rw [epxErrQ_step, hb.crcErr, hb.timeout]; simp
      ready := hready
      ep := (state_of_unselected hr hi.clrConf hp.ep h.sel).1 hb.ep
      current := by simp [watch, hrst, ha]
      holds := by
        rw [hwords, delivered_watch hrst]
        exact hkept.next hi hrst h.not_recv }
  show (Protocol.epTimerNext p.proto s.proto (protocolInputs p s i)).err = false
  cases hepg : s.proto.epgQ
  · cases hrun : s.proto.epRunQ
    · simp [Protocol.epTimerNext, hepg, hrun]
    · rw [Protocol.epTimerNext, hepg, hrun, if_neg Bool.false_ne_true, if_pos rfl,
        if_neg (hb.count hepg hrun)]
      split
      · rfl
      · exact hb.err
  · simp [Protocol.epTimerNext, hepg]

/-- Without a token for the end-point there is no transaction. -/
theorem Quiet.stays (h : Quiet p s m) (hp : Enabled p ABITS) (hi : Regular p m s i)
    (ha : ¬ Addressed p i) : Quiet p (step p s i) (watch p m s i) := by
  have hr := hi.reset
  obtain ⟨hidle, hfull⟩ := state_of_unselected hr hi.clrConf hp.ep h.sel
  have hkept : ∀ k, k ≤ p.ep.maxPacketLength → (s.ep.rstQ = false → Kept p s m k) →
      Kept p (step p s i) (watch p m s i) k := by
    intro k hk hold
    cases hrst : s.ep.rstQ
    · have hwords : (watch p m s i).words = m.words := words_watch hrst (by simp [h.sel])
      refine Or.inl ⟨by rw [saveQ_step hrst, h.ack]; rfl, ?_⟩
      rw [hwords, delivered_watch hrst]
      exact (hold hrst).next hi hrst h.not_recv
    · have hbooks : watch p m s i = .empty := by rw [watch, if_pos hrst]
      rw [hbooks]
      refine Or.inl ⟨?_, holds_of_rstQ hrst (hk.trans_lt hp.depth)⟩
      have hreset : (fifoInputs p s i).reset = true := hrst
      simp [fifo_step, PacketFifo.step, BulkOut.fifoParams, hreset]
  have hnone := hkept 0 (Nat.zero_le _) h.kept
  refine ⟨?_, sel_of_not_addressed h.sel ha, ?_, ?_, fun hrst => ?_, hnone.told, fun _ => hnone,
    fun _ hep => hkept _ le_rfl fun hrst => ?_, fun hrst' hroom => hkept _ le_rfl fun hrst => ?_⟩
  · rw [en_step hr hi.clrConf, hp.en, h.en, ite_self]
  · rw [ack_step hp, h.sel]
    simp
  · rcases h.ep with he | he
    · exact Or.inl (hidle he)
    · cases hf : s.ep.fullQ
      · exact Or.inl (by rw [hfull he, hf]; rfl)
      · exact Or.inr (by rw [hfull he, hf]; rfl)
  · rw [rstQ_step hr] at hrst
    rw [rdyQ_step hr, hrst]
    rfl
  · rcases h.ep with he | he
    · exact h.idle hrst he
    · cases hf : s.ep.fullQ
      · exact h.full hrst hf
      · rw [hfull he, hf] at hep
        cases hep
  · rw [rstQ_step hr] at hrst'
    rw [fullQ_step hr hrst' hp.depth] at hroom
    exact (h.kept hrst).room (by simpa using hroom)

/-! ### In a transaction -/

theorem InTransaction.noConf (h : InTransaction p s) (hi : Regular p m s i) :
    i.proto.setConfI = false := by
  cases hc : i.proto.setConfI
  · rfl
  · have hsel := (hi.setConf hc).1
    simp [h.sel] at hsel

theorem InTransaction.noRecv (h : InTransaction p s) (hi : Regular p m s i) :
    i.proto.hskRecv = false := by
  cases hc : i.proto.hskRecv
  · rfl
  · have hsel := hi.hskRecv hc
    simp [h.sel] at hsel

theorem InTransaction.en_next (h : InTransaction p s) (hi : Regular p m s i) :
    OutPipe.en p (step p s i) = true := by
  rw [en_step hi.reset hi.clrConf, h.noConf hi, if_neg Bool.false_ne_true, h.en]

theorem InTransaction.sel_next (h : InTransaction p s) (hi : Regular p m s i)
    (hend : s.proto.endQ = false) : OutPipe.sel p (step p s i) = true :=
  (sel_of_no_token hend (hi.alone h.sel)).trans h.sel

theorem InTransaction.not_addressed (h : InTransaction p s) (hi : Regular p m s i) :
    ¬ Addressed p i :=
  fun ha => Bool.false_ne_true ((hi.alone h.sel).symm.trans ha.1)

/-- The DATAx packet ends, with a good CRC or a bad one, or no packet does. -/
theorem Regular.ends_eq (hi : Regular p m s i) (hsel : OutPipe.sel p s = true)
    (hstate : s.proto.state = .recv) :
    (i.proto.usbRecv || i.proto.crcError) = (i.sTvalid && i.sTlast) :=
  Bool.eq_iff_iff.mpr ⟨hi.ends hsel hstate, hi.arrives hsel hstate⟩

theorem Regular.not_sent (hi : Regular p m s i) (hstate : s.proto.state ≠ .resp) :
    i.proto.hskSent = false := by
  cases hsent : i.proto.hskSent
  · rfl
  · exact absurd (hi.hskSent hsent) hstate

/-- While the packet is waited for, nothing else happens. -/
theorem Awaiting.next (h : Awaiting p s) (hp : Enabled p ABITS) (hi : Regular p m s i)
    (husb : i.proto.usbRecv = false) (hcrc : i.proto.crcError = false)
    (hready : (step p s i).ep.fifo.wready = true) : Awaiting p (step p s i) := by
  have hr := hi.reset
  have hsent := hi.not_sent (by simp [h.state])
  have hstep : (step p s i).proto.state = .recv ∧ (step p s i).proto.tagQ = false ∧
      (step p s i).proto.epgQ = true := by
    have husb' : (protocolInputs p s i).usbRecv = false := husb
    have hcrc' : (protocolInputs p s i).crcError = false := hcrc
    obtain ⟨hstate, -, htag, hepg⟩ := move_step (p := p) (s := s) hr rfl
    simp [Protocol.moveNext, h.state, husb', hcrc', h.timeout, h.epg] at hstate htag hepg
    exact ⟨hstate, htag, hepg⟩
  exact
    { en := h.en_next hi
      sel := h.sel_next hi h.endQ
      rst := by rw [rstQ_step hr, h.noConf hi]
      save := by rw [saveQ_step h.rst, h.ack]; rfl
      ta := h.ta.next hstep.2.1
      endQ := by rw [endQ_step hr hi.clrConf, h.noRecv hi, hsent, h.timeout, h.crcErr]; rfl
      ack := by rw [ack_step hp, hsent]; simp
      state := hstep.1
      epg := hstep.2.2
      err := by simp [step, Protocol.step, Protocol.epTimerNext, h.epg]
      timeout := by rw [timeoutQ_step hr, h.ta.err, h.err]; rfl
      crcErr := by rw [crcErrQ_step hr, hcrc]; rfl
      crcAck := by rw [crcAckQ_step hr, hcrc]
      epxErr := by rw [epxErrQ_step, h.crcErr, h.timeout]; simp
      ready := hready }

/-- The packet may begin to arrive. -/
theorem Opened.next (h : Opened p s m) (hp : Enabled p ABITS) (hi : Regular p m s i) :
    Receiving p (step p s i) (watch p m s i) := by
  have hvalid := hi.start h.sel h.ep
  have hends := hi.ends_eq h.sel h.state
  have hnone : i.proto.usbRecv = false ∧ i.proto.crcError = false := by simpa [hvalid] using hends
  have hne : s.ep.state ≠ .recv := by simp [h.ep]
  have hc := captureA_of_ne (p := p) (i := i) hne
  have hready := h.holds.wready_step hi h.rst (by simp [h.save]) (by simp [hc])
  have hwords : (watch p m s i).words = m.words :=
    words_watch h.rst (by simp [accepts, h.state])
  have hcurrent : (watch p m s i).current = [] := by simp [watch, h.rst, h.current, hvalid]
  have hrest := h.holds.rest hi h.rst hc h.epxErr h.save
  refine
    { toAwaiting := h.toAwaiting.next hp hi hnone.1 hnone.2 hready
      ep := state_of_selected hi.reset hi.clrConf hp.ep h.sel h.ep
      last := ?_
      length := by rw [hcurrent]; exact Nat.zero_le _
      holds := by rw [hwords, hcurrent, delivered_watch h.rst]; exact hrest }
  obtain ⟨rd, lost, hrest⟩ := hrest
  rw [Bool.eq_false_iff]
  intro hlast
  simpa [hrest.last hlast] using hrest.held

/-- The byte of a cycle is taken. -/
def byteOf (i : Inputs) : List (BitVec 8) := if i.sTvalid && i.sTkeep then [i.sTdata] else []

/-- What arrives goes to the FIFO and to the books. -/
theorem Receiving.takes (h : Receiving p s m) (hi : Regular p m s i) :
    (watch p m s i).current = m.current ++ byteOf i ∧
      (m.current ++ byteOf i).length ≤ p.ep.maxPacketLength ∧
      Holds p (step p s i) m.words (m.delivered ++ delivered p s i) (m.current ++ byteOf i)
        (p.ep.maxPacketLength - (m.current ++ byteOf i).length) ∧
      (step p s i).ep.fifo.wready = true ∧
      (step p s i).ep.fifo.xlst = (i.sTvalid && i.sTkeep && i.sTlast) := by
  have hlen := h.length
  have hcapture : captureA s.ep.fifo (fifoInputs p s i) = (i.sTvalid && i.sTkeep) := by
    simp [captureA_eq, h.ep, h.ready]
  have hsave : s.ep.fifo.saveQ = true → s.proto.epxErrQ = false ∧ s.ep.state ≠ .recv := by
    simp [h.save]
  have hrst : (fifoInputs p s i).reset = false := h.rst
  have hdrop : (fifoInputs p s i).dropI = false := h.epxErr
  have hstrobe : (fifoInputs p s i).saveI = false := h.ack
  have hlast : (fifoInputs p s i).sTlast = i.sTlast := rfl
  cases hb : i.sTvalid && i.sTkeep
  · rw [hb] at hcapture
    have hnone : byteOf i = [] := by simp [byteOf, hb]
    rw [hnone, List.append_nil]
    refine ⟨?_, hlen, h.holds.rest hi h.rst hcapture h.epxErr h.save,
      h.holds.wready_step hi h.rst hsave (by simp [hcapture]), ?_⟩
    · exact current_watch h.rst (h.not_addressed hi) (by rw [Bool.and_assoc, hb, Bool.and_false])
    · simp [fifo_step, PacketFifo.step, BulkOut.fifoParams, hrst, hcapture, h.last]
  · rw [hb] at hcapture
    obtain ⟨hvalid, hkeep⟩ := Bool.and_eq_true_iff.mp hb
    have hone : byteOf i = [i.sTdata] := by simp [byteOf, hb]
    have hroom := hi.length h.sel h.state hvalid hkeep
    have hk : p.ep.maxPacketLength - m.current.length =
        p.ep.maxPacketLength - (m.current.length + 1) + 1 := by omega
    have hholds := h.holds
    rw [hk] at hholds
    rw [hone, List.length_append, List.length_singleton]
    refine ⟨?_, hroom, hholds.take hi h.rst hcapture h.epxErr h.save h.last,
      hholds.wready_step hi h.rst hsave (by simp [hcapture]), ?_⟩
    · simp [watch, h.rst, h.not_addressed hi, h.sel, h.state, hvalid, hkeep]
    · simp [fifo_step, PacketFifo.step, BulkOut.fifoParams, hrst, hcapture, hstrobe, hlast, chunkW]

/-- The packet goes on. -/
theorem Receiving.goes_on (h : Receiving p s m) (hp : Enabled p ABITS) (hi : Regular p m s i)
    (hend : (i.sTvalid && i.sTlast) = false) : Receiving p (step p s i) (watch p m s i) := by
  obtain ⟨hcurrent, hlen, hholds, hready, hlast⟩ := h.takes hi
  have hwords : (watch p m s i).words = m.words :=
    words_watch h.rst (by simp [accepts, h.state])
  rw [← hcurrent] at hlen hholds
  rw [← hwords, ← delivered_watch h.rst] at hholds
  have hends := hi.ends_eq h.sel h.state
  rw [hend] at hends
  obtain ⟨husb, hcrc⟩ : i.proto.usbRecv = false ∧ i.proto.crcError = false := by simpa using hends
  have hep := state_of_recv (i := i) hi.reset hi.clrConf hp.ep h.sel h.epxErr h.ready h.ep
  rw [hend] at hep
  refine
    { toAwaiting := h.toAwaiting.next hp hi husb hcrc hready
      ep := hep
      last := ?_
      length := hlen
      holds := hholds }
  rw [hlast]
  cases hv : i.sTvalid <;> cases hl : i.sTlast <;> simp [hv, hl] at hend ⊢

/-- The packet has ended, and nothing has been made of it yet. -/
theorem Receiving.arrives (h : Receiving p s m) (hp : Enabled p ABITS) (hi : Regular p m s i)
    (hend : (i.sTvalid && i.sTlast) = true) (htag : (step p s i).proto.tagQ = false) :
    Arrived p (step p s i) ∧ (step p s i).proto.endQ = false ∧ ack p (step p s i) = false ∧
      (step p s i).proto.crcErrQ = i.proto.crcError ∧ (step p s i).proto.epxErrQ = false ∧
      Holds p (step p s i) (watch p m s i).words (watch p m s i).delivered
        (watch p m s i).current 0 := by
  have hr := hi.reset
  obtain ⟨hcurrent, -, hholds, -, -⟩ := h.takes hi
  have hwords : (watch p m s i).words = m.words :=
    words_watch h.rst (by simp [accepts, h.state])
  have hsent := hi.not_sent (by simp [h.state])
  have hep := state_of_recv (i := i) hr hi.clrConf hp.ep h.sel h.epxErr h.ready h.ep
  rw [hend] at hep
  refine ⟨⟨⟨h.en_next hi, h.sel_next hi h.endQ, ?_, ?_, h.ta.next htag⟩, hep⟩, ?_, ?_, ?_, ?_, ?_⟩
  · rw [rstQ_step hr, h.noConf hi]
  · rw [saveQ_step h.rst, h.ack]
    rfl
  · rw [endQ_step hr hi.clrConf, h.noRecv hi, hsent, h.timeout, h.crcErr]
    rfl
  · rw [ack_step hp, hsent]
    simp
  · rw [crcErrQ_step hr, h.crcAck]
    simp
  · rw [epxErrQ_step, h.crcErr, h.timeout]
    simp
  · rw [hwords, hcurrent, delivered_watch h.rst]
    exact hholds.mono (Nat.zero_le _)

/-- The CRC of the packet is bad. -/
theorem Receiving.fails (h : Receiving p s m) (hp : Enabled p ABITS) (hi : Regular p m s i)
    (hend : (i.sTvalid && i.sTlast) = true) (husb : i.proto.usbRecv = false) :
    Failed p (step p s i) (watch p m s i) := by
  have hcrc : i.proto.crcError = true := by
    have hends := hi.ends_eq h.sel h.state
    simpa [husb, hend] using hends
  have husb' : (protocolInputs p s i).usbRecv = false := husb
  have hcrc' : (protocolInputs p s i).crcError = true := hcrc
  obtain ⟨hstate, -, htag, hepg⟩ := move_step (p := p) (s := s) hi.reset rfl
  simp [Protocol.moveNext, h.state, husb', hcrc'] at hstate htag hepg
  obtain ⟨harrived, hendQ, hack, hcrcErr, hepxErr, hholds⟩ := h.arrives hp hi hend htag
  exact
    { toArrived := harrived
      state := hstate
      epg := hepg
      endQ := hendQ
      ack := hack
      crcErr := hcrcErr.trans hcrc
      epxErr := hepxErr
      holds := hholds }

/-- The packet is good, and is answered. -/
theorem Receiving.answers (h : Receiving p s m) (hp : Enabled p ABITS) (hi : Regular p m s i)
    (husb : i.proto.usbRecv = true) : Answering p (step p s i) (watch p m s i) := by
  have hr := hi.reset
  have hcrc := hi.apart h.sel husb
  have hpar := hi.parity h.sel h.state husb
  have hend : (i.sTvalid && i.sTlast) = true := by
    rw [← hi.ends_eq h.sel h.state, husb]
    rfl
  have husb' : (protocolInputs p s i).usbRecv = true := husb
  have hpid : (step p s i).proto.pidQ = usbpidAck ∨ (step p s i).proto.pidQ = usbpidNyet := by
    rw [(move_step hr rfl).2.1, Protocol.moveNext, h.state]
    cases hnyet : s.proto.pingQ && !s.proto.outRdyQ <;> simp [husb', hpar]
  obtain ⟨hstate, -, htag, -⟩ := move_step (p := p) (s := s) hr rfl
  simp [Protocol.moveNext, h.state, husb', hpar] at hstate htag
  obtain ⟨harrived, hendQ, hack, hcrcErr, hepxErr, hholds⟩ := h.arrives hp hi hend htag
  exact
    { toArrived := harrived
      state := hstate
      pid := hpid
      good := by simp [watch, h.rst, h.not_addressed hi, h.state, husb, hpar]
      endQ := hendQ
      ack := hack
      crcErr := hcrcErr.trans hcrc
      epxErr := hepxErr
      holds := hholds }

/-- The packet arrives, and is answered or not. -/
theorem Receiving.next (h : Receiving p s m) (hp : Enabled p ABITS) (hi : Regular p m s i) :
    Phase p (step p s i) (watch p m s i) := by
  cases hend : i.sTvalid && i.sTlast
  · exact .receiving (h.goes_on hp hi hend)
  · cases husb : i.proto.usbRecv
    · exact .failed (h.fails hp hi hend husb)
    · exact .answering (h.answers hp hi husb)

/-- A packet that has arrived waits for what becomes of it. -/
theorem Arrived.next (h : Arrived p s) (hi : Regular p m s i) (hend : s.proto.endQ = false)
    (hack : ack p s = false) (htag : (step p s i).proto.tagQ = false)
    (hep : (step p s i).ep.state = .save) : Arrived p (step p s i) where
  en := h.en_next hi
  sel := h.sel_next hi hend
  rst := by rw [rstQ_step hi.reset, h.noConf hi]
  save := by rw [saveQ_step h.rst, hack]; rfl
  ta := h.ta.next htag
  ep := hep

theorem Arrived.not_recv (h : Arrived p s) : s.ep.state ≠ .recv := by simp [h.ep]

theorem Arrived.current_watch (h : Arrived p s) (hi : Regular p m s i)
    (hstate : s.proto.state ≠ .recv) : (watch p m s i).current = m.current :=
  OutPipe.current_watch h.rst (h.not_addressed hi) (by simp [hstate])

/-- What the flags say of the room after an edge in which no byte is taken. -/
theorem Holds.full {acc out : List (Bool × BitVec 8)} {bs : List (BitVec 8)} {k : ℕ}
    (h : Holds p s acc out bs k) (hp : Enabled p ABITS) (hi : Regular p m s i)
    (hconf : i.proto.setConfI = false)
    (hstep : ∀ k, Holds p s acc out bs k → Holds p (step p s i) acc (out ++ delivered p s i) bs k)
    (hfull : (step p s i).ep.fullQ = false) :
    Holds p (step p s i) acc (out ++ delivered p s i) bs p.ep.maxPacketLength := by
  rw [fullQ_step hi.reset hconf hp.depth] at hfull
  exact hstep _ (h.room (by simpa using hfull))

/-- What an edge does while the handshake is sent. -/
theorem Answering.edge (h : Answering p s m) (hp : Enabled p ABITS) (hi : Regular p m s i) :
    Arrived p (step p s i) ∧ (step p s i).proto.crcErrQ = false ∧
      (step p s i).proto.endQ = (i.proto.hskSent || s.proto.timeoutQ) ∧
      OutPipe.ack p (step p s i) = i.proto.hskSent ∧ (step p s i).proto.epxErrQ = s.proto.timeoutQ ∧
      (step p s i).proto.state = (if i.proto.hskSent || s.proto.timeoutQ then .idle else .resp) ∧
      (step p s i).proto.pidQ = s.proto.pidQ ∧ (step p s i).proto.epgQ = false := by
  have hr := hi.reset
  have hcrc := hi.quiet h.sel h.state
  have hep : (step p s i).ep.state = .save := by
    rw [state_of_save hr hi.clrConf hp.ep h.ep, h.ack, h.epxErr]
    rfl
  have hmove := move_step (p := p) (s := s) (i := i) hr rfl
  simp only [Protocol.moveNext, h.state] at hmove
  obtain ⟨hstate, hpid, htag, hepg⟩ := hmove
  refine ⟨h.toArrived.next hi h.endQ h.ack htag hep, ?_, ?_, ?_, ?_, hstate, hpid, hepg⟩
  · rw [crcErrQ_step hr, hcrc]
    rfl
  · rw [endQ_step hr hi.clrConf, h.noRecv hi, h.crcErr]
    simp
  · rw [ack_step hp, h.endQ, h.sel]
    simp
  · rw [epxErrQ_step, h.endQ, h.crcErr]
    simp

/-- The packet is kept meanwhile. -/
theorem Answering.rest (h : Answering p s m) (hi : Regular p m s i) {k : ℕ}
    (hk : Holds p s m.words m.delivered m.current k) :
    Holds p (step p s i) m.words (m.delivered ++ delivered p s i) m.current k :=
  hk.rest hi h.rst (captureA_of_ne h.not_recv) h.epxErr h.save

theorem Answering.current_watch (h : Answering p s m) (hi : Regular p m s i) :
    (watch p m s i).current = m.current :=
  h.toArrived.current_watch hi (by simp [h.state])

/-- The handshake is still to be sent. -/
theorem Answering.waits (h : Answering p s m) (hp : Enabled p ABITS) (hi : Regular p m s i)
    (hsent : i.proto.hskSent = false) (hto : s.proto.timeoutQ = false) :
    Answering p (step p s i) (watch p m s i) := by
  obtain ⟨harrived, hcrcErr, hendQ, hack, hepxErr, hstate, hpid, -⟩ := h.edge hp hi
  have hwords : (watch p m s i).words = m.words := words_watch h.rst (by simp [hsent])
  exact
    { toArrived := harrived
      state := by simpa [hsent, hto] using hstate
      pid := by rw [hpid]; exact h.pid
      good := by simp [watch, h.rst, h.not_addressed hi, h.state, h.good]
      endQ := by rw [hendQ, hsent, hto]; rfl
      ack := hack.trans hsent
      crcErr := hcrcErr
      epxErr := hepxErr.trans hto
      holds := by
        rw [hwords, h.current_watch hi, delivered_watch h.rst]
        exact h.rest hi h.holds }

/-- The handshake has not been sent in time. -/
theorem Answering.gives_up (h : Answering p s m) (hp : Enabled p ABITS) (hi : Regular p m s i)
    (hsent : i.proto.hskSent = false) (hto : s.proto.timeoutQ = true) :
    Cancelled p (step p s i) (watch p m s i) := by
  obtain ⟨harrived, -, hendQ, hack, hepxErr, hstate, -, hepg⟩ := h.edge hp hi
  have hwords : (watch p m s i).words = m.words := words_watch h.rst (by simp [hsent])
  have hcurrent := h.current_watch hi
  have hout := delivered_watch (p := p) (m := m) (i := i) h.rst
  exact
    { toArrived := harrived
      state := by simpa [hsent, hto] using hstate
      epg := hepg
      endQ := by rw [hendQ, hsent, hto]; rfl
      ack := hack.trans hsent
      epxErr := hepxErr.trans hto
      holds := by rw [hwords, hcurrent, hout]; exact h.rest hi h.holds
      full := by
        rw [hwords, hcurrent, hout]
        exact h.holds.full hp hi (h.noConf hi) fun _ => h.rest hi }

/-- The handshake that is sent accepts the packet. -/
theorem Answering.accepted (h : Answering p s m) (hsent : i.proto.hskSent = true) :
    (watch p m s i).words = m.words ++ frame m.current := by
  refine words_watch_accepted h.rst h.good ?_
  rcases h.pid with hpid | hpid <;> simp [h.sel, accepts, h.state, hpid, hsent]

/-- The handshake has been sent. -/
theorem Answering.acked (h : Answering p s m) (hp : Enabled p ABITS) (hi : Regular p m s i)
    (hsent : i.proto.hskSent = true) : Acked p (step p s i) (watch p m s i) := by
  obtain ⟨harrived, -, hendQ, hack, hepxErr, hstate, -, hepg⟩ := h.edge hp hi
  have hwords := h.accepted hsent
  have hcurrent := h.current_watch hi
  have hout := delivered_watch (p := p) (m := m) (i := i) h.rst
  exact
    { toArrived := harrived
      state := by simpa [hsent] using hstate
      epg := hepg
      endQ := by rw [hendQ, hsent]; rfl
      ack := hack.trans hsent
      epxErr := hepxErr.trans (hi.inTime h.sel hsent)
      holds := ⟨m.words, by rw [hwords, hcurrent], by rw [hcurrent, hout]; exact h.rest hi h.holds⟩
      full := fun hfull => ⟨m.words, by rw [hwords, hcurrent], by
        rw [hcurrent, hout]
        exact h.holds.full hp hi (h.noConf hi) (fun _ => h.rest hi) hfull⟩ }

/-- The handshake is sent, or it is given up. -/
theorem Answering.next (h : Answering p s m) (hp : Enabled p ABITS) (hi : Regular p m s i) :
    Phase p (step p s i) (watch p m s i) := by
  cases hsent : i.proto.hskSent
  · cases hto : s.proto.timeoutQ
    · exact .answering (h.waits hp hi hsent hto)
    · exact .cancelled (h.gives_up hp hi hsent hto)
  · exact .acked (h.acked hp hi hsent)

/-- With the transaction over, the end-point waits for the next, or for room. -/
theorem Ended.quiet (h : Ended p s) (hp : Enabled p ABITS) (hi : Regular p m s i)
    (hend : s.proto.endQ = true) (hover : (ack p s || s.proto.epxErrQ) = true)
    (hkept : Kept p (step p s i) (watch p m s i) 0)
    (hfull : s.ep.fullQ = false →
      Kept p (step p s i) (watch p m s i) p.ep.maxPacketLength)
    (hroom : HasRoom p s → Kept p (step p s i) (watch p m s i) p.ep.maxPacketLength) :
    Quiet p (step p s i) (watch p m s i) := by
  have hr := hi.reset
  have hconf := h.noConf hi
  have hep := state_of_save (i := i) hr hi.clrConf hp.ep h.ep
  rw [hover, if_pos rfl] at hep
  refine ⟨h.en_next hi, sel_of_endQ hend, ?_, ?_, fun hrst => ?_, hkept.told, fun _ => hkept, fun _ hidle => hfull ?_,
    fun _ hnot => hroom ?_⟩
  · rw [ack_step hp, hend]
    rfl
  · rw [hep]
    cases s.ep.fullQ
    · exact Or.inl rfl
    · exact Or.inr rfl
  · rw [rstQ_step hr, hconf] at hrst
    cases hrst
  · rw [hep] at hidle
    cases hf : s.ep.fullQ
    · rfl
    · simp [hf] at hidle
  · rw [fullQ_step hr hconf hp.depth] at hnot
    simpa using hnot

/-- The packet is on its way to be saved. -/
theorem Acked.next (h : Acked p s m) (hp : Enabled p ABITS) (hi : Regular p m s i) :
    Quiet p (step p s i) (watch p m s i) := by
  have hc := captureA_of_ne (p := p) (i := i) h.not_recv
  have hwatch : (watch p m s i).words = m.words :=
    words_watch h.rst (by simp [accepts, h.state])
  have hsave : (step p s i).ep.fifo.saveQ = true := by
    rw [saveQ_step h.rst, h.ack, h.epxErr]
    rfl
  have hepxErr : (step p s i).proto.epxErrQ = false := by
    rw [epxErrQ_step, h.endQ]
    rfl
  have hkept : ∀ k, (∃ acc, m.words = acc ++ frame m.current ∧
      Holds p s acc m.delivered m.current k) → Kept p (step p s i) (watch p m s i) k := by
    rintro k ⟨acc, hwords, hholds⟩
    refine Or.inr ⟨hsave, hepxErr, acc, m.current, hwatch.trans hwords, ?_⟩
    rw [delivered_watch h.rst]
    exact hholds.rest hi h.rst hc h.epxErr h.save
  obtain ⟨acc, hwords, hholds⟩ := h.holds
  exact h.toEnded.quiet hp hi h.endQ (by rw [h.ack]; rfl) (hkept 0 h.holds)
    (fun hfull => hkept _ (h.full hfull)) fun hroom => hkept _ ⟨acc, hwords, hholds.room hroom⟩

/-- The packet is dropped. -/
theorem Cancelled.next (h : Cancelled p s m) (hp : Enabled p ABITS) (hi : Regular p m s i) :
    Quiet p (step p s i) (watch p m s i) := by
  have hwords : (watch p m s i).words = m.words :=
    words_watch h.rst (by simp [accepts, h.state])
  have hsave : (step p s i).ep.fifo.saveQ = false := by
    rw [saveQ_step h.rst, h.ack]
    rfl
  have hkept : ∀ k, Holds p s m.words m.delivered m.current k →
      Kept p (step p s i) (watch p m s i) k := by
    intro k hk
    refine Or.inl ⟨hsave, ?_⟩
    rw [hwords, delivered_watch h.rst]
    exact hk.drop hi h.rst h.not_recv h.epxErr h.save
  exact h.toEnded.quiet hp hi h.endQ (by rw [h.epxErr]; simp) (hkept 0 h.holds)
    (fun hfull => hkept _ (h.full hfull)) fun hroom => hkept _ (h.holds.room hroom)

/-- The end-point is told of the bad CRC. -/
theorem Failed.next (h : Failed p s m) (hp : Enabled p ABITS) (hi : Regular p m s i) :
    Cancelled p (step p s i) (watch p m s i) := by
  have hr := hi.reset
  have hsent := hi.not_sent (by simp [h.state])
  have hep : (step p s i).ep.state = .save := by
    rw [state_of_save hr hi.clrConf hp.ep h.ep, h.ack, h.epxErr]
    rfl
  have hc := captureA_of_ne (p := p) (i := i) h.not_recv
  have hrest : ∀ k, Holds p s m.words m.delivered m.current k →
      Holds p (step p s i) m.words (m.delivered ++ delivered p s i) m.current k :=
    fun k hk => hk.rest hi h.rst hc h.epxErr h.save
  have hwords : (watch p m s i).words = m.words :=
    words_watch h.rst (by simp [accepts, h.state])
  have hcurrent := h.current_watch (m := m) hi (by simp [h.state])
  have hout := delivered_watch (p := p) (m := m) (i := i) h.rst
  have htok : Protocol.tokenW (protocolInputs p s i) = false := hi.alone h.sel
  obtain ⟨hstate, -, htag, hepg⟩ := move_step (p := p) (s := s) hr rfl
  simp only [Protocol.moveNext, h.state, htok] at hstate htag hepg
  exact
    { toArrived := h.toArrived.next hi h.endQ h.ack (htag.trans h.ta.tag) hep
      state := hstate
      epg := hepg.trans h.epg
      endQ := by rw [endQ_step hr hi.clrConf, h.crcErr]; simp
      ack := by rw [ack_step hp, hsent]; simp
      epxErr := by rw [epxErrQ_step, h.endQ, h.crcErr]; rfl
      holds := by rw [hwords, hcurrent, hout]; exact hrest _ h.holds
      full := by rw [hwords, hcurrent, hout]; exact h.holds.full hp hi (h.noConf hi) hrest }

/-- Regular traffic keeps the transaction layer, the end-point and the books in step. -/
theorem Phase.next (h : Phase p s m) (hp : Enabled p ABITS) (hi : Regular p m s i) :
    Phase p (step p s i) (watch p m s i) := by
  cases h with
  | quiet h =>
      by_cases ha : Addressed p i
      · exact .opened (h.opens hp hi ha)
      · exact .quiet (h.stays hp hi ha)
  | opened h => exact .receiving (h.next hp hi)
  | receiving h => exact h.next hp hi
  | answering h => exact h.next hp hi
  | acked h => exact .quiet (h.next hp hi)
  | failed h => exact .cancelled (h.next hp hi)
  | cancelled h => exact .quiet (h.next hp hi)

end Steps

end MiscVerilogCores.OutPipe
