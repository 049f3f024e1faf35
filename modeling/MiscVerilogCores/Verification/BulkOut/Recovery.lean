import MiscVerilogCores.Verification.BulkOut.ExactlyOnce

/-! # A bulk OUT end-point goes on after a failed transaction

A packet with a bad CRC is dropped, and the end-point is ready again as soon as the FIFO has room. A
PING, a NAK, or a token that no DATAx packet follows halts it or leaves it behind the transaction
layer. -/

namespace MiscVerilogCores.OutPipe

open Clocked PacketFifo Usb

variable {ABITS : ℕ}

/-- An edge at which the end-point is left alone. -/
structure Rests (p : Params) (i : Inputs) : Prop where
  token : ¬ Addressed p i
  setConf : i.proto.setConfI = false

/-- The end-point is not halted. With no transaction under way and room for a packet it is ready again
after three cycles, and is seen to be; a packet with the right CRC is answered with ACK or NYET, and
accepted when the handshake has been sent. -/
structure Recovers (ok : Ledger → State ABITS → Inputs → Prop) (p : Params) (s : State ABITS)
    (m : Ledger) : Prop where
  live : s.ep.state ≠ .halt
  ready : sel p s = false → s.ep.rstQ = false → HasRoom p s → ∀ is : List Inputs, 3 ≤ is.length →
    Along (watched (step p) (watch p)) (fun q i => ok q.2 q.1 i ∧ Rests p i) (s, m) is →
    (run (step p) s is).ep.state = .idle ∧ (run (step p) s is).ep.rdyQ = true
  seen : s.ep.rdyQ = true → ∀ i, ok m s i → i.proto.tokEndp = (port p).number →
    (step p s i).proto.outRdyQ = true
  answered : sel p s = true → s.proto.state = .recv → ∀ i, ok m s i → i.proto.usbRecv = true →
    accepts (step p s i).proto = true ∧ (step p s i).ep.state = .save
  accepted : sel p s = true → accepts s.proto = true → ∀ i, ok m s i → i.proto.hskSent = true →
    (watch p m s i).accepted = m.accepted ++ [m.current] ∧ ack p (step p s i) = true

section Steps

variable {p : Params} {s : State ABITS} {i : Inputs} {m : Ledger}

theorem Phase.live (h : Phase p s m) : s.ep.state ≠ .halt := by
  cases h with
  | quiet h => rcases h.ep with he | he <;> simp [he]
  | opened h => simp [h.ep]
  | receiving h => simp [h.ep]
  | answering h => simp [h.ep]
  | acked h => simp [h.ep]
  | failed h => simp [h.ep]
  | cancelled h => simp [h.ep]

theorem Phase.en (h : Phase p s m) : OutPipe.en p s = true := by
  cases h with
  | quiet h => exact h.en
  | opened h => exact h.en
  | receiving h => exact h.en
  | answering h => exact h.en
  | acked h => exact h.en
  | failed h => exact h.en
  | cancelled h => exact h.en

/-! ### Ready again -/

/-- Nothing is taken between transactions. -/
theorem Kept.levelQ_le {k : ℕ} (h : Kept p s m k) (hi : Regular p m s i) (hrst : s.ep.rstQ = false)
    (hep : s.ep.state ≠ .recv) : (step p s i).ep.fifo.levelQ.toNat ≤ s.ep.fifo.levelQ.toNat := by
  have hc := captureA_of_ne (p := p) (i := i) hep
  rcases h with ⟨hsave, rd, lost, h⟩ | ⟨hsave, herr, acc, bs, -, rd, lost, h⟩
  · exact h.levelQ_le (onDemand_fifoParams p.ep) (hi.paced hrst (by simp [hsave])) hc
  · exact h.levelQ_le (onDemand_fifoParams p.ep) (hi.paced hrst fun _ => ⟨herr, hep⟩) hc

/-- The end-point has been left alone for so many cycles since there was room. -/
structure Resting (p : Params) (s : State ABITS) (m : Ledger) (cycles : ℕ) : Prop where
  quiet : Quiet p s m
  rst : s.ep.rstQ = false
  room : HasRoom p s
  full : 1 ≤ cycles → s.ep.fullQ = false
  idle : 2 ≤ cycles → s.ep.state = .idle
  rdy : 3 ≤ cycles → s.ep.rdyQ = true

theorem Resting.next {cycles : ℕ} (h : Resting p s m cycles) (hp : Enabled p ABITS)
    (hi : Regular p m s i) (hrests : Rests p i) :
    Resting p (step p s i) (watch p m s i) (cycles + 1) := by
  have hr := hi.reset
  have hlevel := (h.quiet.kept h.rst).levelQ_le hi h.rst h.quiet.not_recv
  obtain ⟨hidle, hfull⟩ := state_of_unselected (i := i) hr hi.clrConf hp.ep h.quiet.sel
  refine
    { quiet := h.quiet.stays hp hi hrests.token
      rst := by rw [rstQ_step hr, hrests.setConf]
      room := (Nat.add_le_add_right hlevel _).trans_lt h.room
      full := fun _ => by simp [fullQ_step hr hrests.setConf hp.depth, h.room]
      idle := fun hcycles => ?_
      rdy := fun hcycles => ?_ }
  · rcases h.quiet.ep with he | he
    · exact hidle he
    · rw [hfull he, h.full (by omega)]
      rfl
  · rw [rdyQ_step hr, hrests.setConf, BulkOut.rdyNext, h.idle (by omega)]
    rfl

theorem Resting.run {cycles : ℕ} (h : Resting p s m cycles) (hp : Enabled p ABITS)
    {is : List Inputs}
    (his : Along (watched (OutPipe.step p) (watch p)) (fun q i => Regular p q.2 q.1 i ∧ Rests p i)
      (s, m) is) :
    ∃ m', Resting p (Clocked.run (OutPipe.step p) s is) m' (cycles + is.length) := by
  induction is generalizing s m cycles with
  | nil => exact ⟨m, h⟩
  | cons i is ih =>
      obtain ⟨hi, his⟩ := his
      obtain ⟨m', hm'⟩ := ih (h.next hp hi.1 hi.2) his
      rw [List.length_cons, Nat.add_left_comm, Nat.add_comm]
      exact ⟨m', by rwa [run_cons]⟩

/-- The transaction layer sees that the end-point is ready. -/
theorem outRdyQ_step (hp : Enabled p ABITS) (hen : en p s = true) (hlive : s.ep.state ≠ .halt)
    (hrdy : s.ep.rdyQ = true) (htok : i.proto.tokEndp = (port p).number) :
    (step p s i).proto.outRdyQ = true := by
  have hout := hp.out
  obtain ⟨proto, ep, place⟩ := p
  show Protocol.outRdyW proto s.proto (report i.proto (UsbUlpiTop.outReports s.ep) place) = true
  match place with
  | 0 | 1 | 2 | 3 =>
    simp only [en, port, Protocol.State.bulk, Protocol.Params.bulk] at hen hout htok
    simp [Protocol.outRdyW, Protocol.ep1OutRdyW, Protocol.outSelOf, report, UsbUlpiTop.outReports,
      BulkOut.epReadyO, BulkOut.stalledO, hen, hout, htok, hrdy, hlive]

/-! ### Answered -/

/-- While the end-point is selected and the FSM waits for a packet, it waits for one or takes it. -/
theorem Phase.answered (h : Phase p s m) (hp : Enabled p ABITS) (hi : Regular p m s i)
    (hsel : sel p s = true) (hstate : s.proto.state = .recv) (husb : i.proto.usbRecv = true) :
    Answering p (step p s i) (watch p m s i) := by
  cases h with
  | quiet h => simp [h.sel] at hsel
  | opened h =>
      have hends := hi.ends hsel hstate (by rw [husb]; rfl)
      simp [hi.start hsel h.ep] at hends
  | receiving h => exact h.answers hp hi husb
  | answering h => simp [h.state] at hstate
  | acked h => simp [h.state] at hstate
  | failed h => simp [h.state] at hstate
  | cancelled h => simp [h.state] at hstate

/-- While the end-point is selected and the FSM sends a handshake, it accepts a packet. -/
theorem Phase.answering_of_resp (h : Phase p s m) (hsel : sel p s = true)
    (hstate : s.proto.state = .resp) : Answering p s m := by
  cases h with
  | quiet h => simp [h.sel] at hsel
  | opened h => simp [h.state] at hstate
  | receiving h => simp [h.state] at hstate
  | answering h => exact h
  | acked h => simp [h.state] at hstate
  | failed h => simp [h.state] at hstate
  | cancelled h => simp [h.state] at hstate

theorem Answering.accepts (h : Answering p s m) : OutPipe.accepts s.proto = true := by
  rcases h.pid with hpid | hpid <;> simp [OutPipe.accepts, h.state, hpid]

/-- Without a transaction the time between two of them it is. -/
theorem Phase.quiet_of_unselected (h : Phase p s m) (hsel : sel p s = false) : Quiet p s m := by
  cases h with
  | quiet h => exact h
  | opened h => simp [h.sel] at hsel
  | receiving h => simp [h.sel] at hsel
  | answering h => simp [h.sel] at hsel
  | acked h => simp [h.sel] at hsel
  | failed h => simp [h.sel] at hsel
  | cancelled h => simp [h.sel] at hsel

theorem Phase.recovers (h : Phase p s m) (hp : Enabled p ABITS) :
    Recovers (fun m s i => Regular p m s i) p s m where
  live := h.live
  ready := by
    intro hsel hrst hroom is hlen his
    have hquiet := h.quiet_of_unselected hsel
    have hstart : Resting p s m 0 :=
      ⟨hquiet, hrst, hroom, by simp, by simp, by simp⟩
    obtain ⟨m', hend⟩ := hstart.run hp his
    exact ⟨hend.idle (by omega), hend.rdy (by omega)⟩
  seen := fun hrdy i _ htok => outRdyQ_step hp h.en h.live hrdy htok
  answered := by
    intro hsel hstate i hi husb
    have hanswering := h.answered hp hi hsel hstate husb
    exact ⟨hanswering.accepts, hanswering.ep⟩
  accepted := by
    intro hsel haccepts i hi hsent
    have hstate : s.proto.state = .resp := by
      simp only [accepts, Bool.and_eq_true, beq_iff_eq] at haccepts
      exact haccepts.1
    have hanswering := h.answering_of_resp hsel hstate
    refine ⟨?_, (hanswering.acked hp hi hsent).ack⟩
    simp [watch, hanswering.rst, hsel, haccepts, hsent, hanswering.good]

end Steps

/-- Whatever transactions there are with the end-point, it recovers from them. -/
def AlwaysRecovers : Prop :=
  ∀ (ABITS : ℕ) (p : Params), Enabled p ABITS → ∀ (s : State ABITS) (c : Inputs) (is : List Inputs),
    Unconfigured p s → Configures c →
    Along (watched (step p) (watch p)) (fun q i => Bus p q.2 q.1 i) (step p s c, Ledger.empty) is →
    Recovers (fun m s i => Bus p m s i) p (watchedRun p s c is).1 (watchedRun p s c is).2

end MiscVerilogCores.OutPipe
