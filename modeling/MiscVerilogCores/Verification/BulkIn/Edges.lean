import MiscVerilogCores.Verification.BulkIn.Traffic

/-! # The edges of the transmitter

What a clock edge does to the transmit state, to the packet under way, and to the positions
in the stream of the FIFO. -/

namespace MiscVerilogCores.BulkIn

open Clocked PacketFifo

variable {ABITS : ℕ} {p : Params} {s : State ABITS p} {i : Inputs} {m m' : Log}

/-- Nothing is sent or answered. -/
structure Kept (m m' : Log) : Prop where
  start : m'.ledger.start = m.ledger.start
  pos : m'.ledger.pos = m.ledger.pos
  replayed : m'.ledger.replayed = m.ledger.replayed
  acked : m'.traffic.acked = m.traffic.acked
  packet : m'.traffic.packet = m.traffic.packet
  waiting : m'.traffic.waiting = m.traffic.waiting
  attempt : m'.traffic.attempt = m.traffic.attempt

/-- A beat is sent, which takes `n` words from the stream. -/
structure Beats (m m' : Log) (beat : Beat) (last : Bool) (n : ℕ) : Prop where
  start : m'.ledger.start = m.ledger.start
  pos : m'.ledger.pos = m.ledger.pos + n
  replayed : m'.ledger.replayed = m.ledger.replayed
  acked : m'.traffic.acked = m.traffic.acked
  packet : m'.traffic.packet = m.traffic.packet ++ [beat]
  waiting : m'.traffic.waiting = last
  attempt : m'.traffic.attempt = m.traffic.attempt

/-- The packet that was sent, if there is one, is acknowledged. -/
structure Acks (m m' : Log) : Prop where
  start : m'.ledger.start = m.ledger.pos
  pos : m'.ledger.pos = m.ledger.pos
  replayed : m'.ledger.replayed = false
  acked : m'.traffic.acked = m.traffic.acked ++ if m.traffic.waiting then [m.traffic.packet] else []
  packet : m'.traffic.packet = if m.traffic.waiting then [] else m.traffic.packet
  waiting : m'.traffic.waiting = false
  attempt : m'.traffic.attempt = if m.traffic.waiting then none else m.traffic.attempt

/-- The packet that was sent, if there is one, times out. -/
structure TimesOut (m m' : Log) : Prop where
  start : m'.ledger.start = m.ledger.start
  pos : m'.ledger.pos = m.ledger.start
  acked : m'.traffic.acked = m.traffic.acked
  packet : m'.traffic.packet = if m.traffic.waiting then [] else m.traffic.packet
  waiting : m'.traffic.waiting = false
  attempt : m'.traffic.attempt =
    if m.traffic.waiting then some m.traffic.packet else m.traffic.attempt

/-- What an edge can be to the transmitter. -/
inductive Edge (s : State ABITS p) (i : Inputs) (m m' : Log) : Prop where
  | keep (hk : Kept m m') (hsent : (mTvalid s && i.mTready) = false) (hnext : nextW s i = false)
      (hredo : redoW s i = false) (hsend : snxt s i = s.send)
  | poll (hs : s.send = .idle) (hsel : i.selectedI = true) (hk : Kept m m')
      (hsend : snxt s i = if tvalidR s then .send else .none)
  | again (hs : s.send = .redo) (hk : Kept m m') (hsend : snxt s i = .send)
  | word (hs : s.send = .send) (hv : tvalidR s = true) (hm : i.mTready = true)
      (hb : Beats m m' (some (mTdata s)) (tlastR s) 1)
      (hsend : snxt s i = if tlastR s then .wait else .send)
  | zero (hs : s.send = .none) (hm : i.mTready = true) (hb : Beats m m' none true 0)
      (hsend : snxt s i = .wait)
  | ack (hs : s.send = .wait) (hack : i.ackRecvI = true) (ha : Acks m m')
      (hsend : snxt s i = if s.zdpQ then .none else .idle)
  | timeout (hs : s.send = .wait) (hredo : redoW s i = true) (ha : TimesOut m m')
      (hsend : snxt s i = .redo)

/-- A configured end-point with its FIFO out of reset. Only in `TX_WAIT` an answer can be
due. -/
structure Ready (s : State ABITS p) (m : Log) : Prop where
  setQ : s.setQ = true
  rstQ : s.rstQ = false
  enabled : p.enabled = false → s.send = .idle
  waiting : s.send ≠ .wait → m.traffic.waiting = false

@[simp] theorem none_beq_send : (Send.none == Send.send) = false := rfl

@[simp] theorem send_beq_none : (Send.send == Send.none) = false := rfl

theorem delivered_eq : delivered (fifoParams p) s.fifo (fifoInputs s i) =
    if s.send == .send && tvalidR s && i.mTready then [(tlastR s, mTdata s)] else [] := by
  cases hs : s.send == .send <;>
    simp [delivered, offered, fifoInputs, treadyR, tvalidR, tlastR, mTdata, hs]

theorem snxt_eq (h : Ready s m) (hs : s.send ≠ .idle) : (!s.setQ || !p.enabled) = false := by
  cases hen : p.enabled
  · exact absurd (h.enabled hen) hs
  · simp [h.setQ]

/-- The positions in the stream after an edge. -/
theorem ledger_watch (h : Ready s m) (i : Inputs) :
    (m.watch s i).ledger.start =
        (if nextW s i && !redoW s i then m.ledger.pos else m.ledger.start) ∧
      (m.watch s i).ledger.pos =
        (if redoW s i then m.ledger.start
        else m.ledger.pos + (s.send == .send && tvalidR s && i.mTready).toNat) ∧
      (m.watch s i).ledger.replayed = (redoW s i || (m.ledger.replayed && !nextW s i)) := by
  simp only [Log.watch, h.rstQ, Bool.false_eq_true, if_false, Ledger.watch, delivered_eq]
  refine ⟨rfl, ?_, rfl⟩
  cases (s.send == .send && tvalidR s && i.mTready) <;> rfl

/-- An edge that sends nothing and answers nothing. -/
theorem kept (h : Ready s m) (hsent : (mTvalid s && i.mTready) = false)
    (hnext : nextW s i = false) (hredo : redoW s i = false) : Kept m (m.watch s i) := by
  obtain ⟨hst, hps, hrp⟩ := ledger_watch h i
  have hword : (s.send == .send && tvalidR s && i.mTready) = false := by
    cases hs : s.send == .send <;> simp_all [mTvalid]
  have hans : m.traffic.acks i = false ∧ m.traffic.timesOut i = false := by
    by_cases hs : s.send = .wait
    · simp only [nextW, redoW, hs, beq_self_eq_true, Bool.true_and] at hnext hredo
      simp [Traffic.acks, Traffic.timesOut, Bool.and_assoc, hnext, hredo]
    · simp [Traffic.acks, Traffic.timesOut, h.waiting hs]
  refine ⟨?_, ?_, ?_, ?_, ?_, ?_, ?_⟩
  · simp [hst, hnext]
  · simp [hps, hredo, hword]
  · simp [hrp, hnext, hredo]
  · simp [Log.watch, Traffic.watch, hans.1]
  · simp [Log.watch, Traffic.watch, hans.1, hans.2, sent, hsent]
  · simp [Log.watch, Traffic.watch, hans.1, hans.2, hsent]
  · simp [Log.watch, Traffic.watch, hans.1, hans.2]

/-- A beat of a data packet or of a zero-data packet is sent. -/
theorem beats_edge (h : Ready s m) (hs : s.send = .send ∨ s.send = .none)
    (hsent : (mTvalid s && i.mTready) = true) :
    Beats m (m.watch s i) (if mTkeep s then some (mTdata s) else none) (mTlast s)
      (mTkeep s).toNat := by
  have hne : s.send ≠ .wait := by
    rcases hs with hs | hs <;> simp [hs]
  obtain ⟨hst, hps, hrp⟩ := ledger_watch h i
  have hw := h.waiting hne
  have hnext : nextW s i = false := by simp [nextW, hne]
  have hredo : redoW s i = false := by simp [redoW, hne]
  have hans : m.traffic.acks i = false ∧ m.traffic.timesOut i = false := by
    simp [Traffic.acks, Traffic.timesOut, hw]
  refine ⟨?_, ?_, ?_, ?_, ?_, ?_, ?_⟩
  · simp [hst, hnext]
  · rcases hs with hs | hs <;> simp_all [mTvalid, mTkeep]
  · simp [hrp, hnext, hredo]
  · simp [Log.watch, Traffic.watch, hans.1]
  · simp [Log.watch, Traffic.watch, hans.1, hans.2, sent, hsent]
  · simp [Log.watch, Traffic.watch, hans.1, hans.2, hw, hsent]
  · simp [Log.watch, Traffic.watch, hans.1, hans.2]

theorem acks_edge (h : Ready s m) (hs : s.send = .wait) (hsel : i.selectedI = true)
    (hack : i.ackRecvI = true) (hto : i.timedoutI = false) : Acks m (m.watch s i) := by
  obtain ⟨hst, hps, hrp⟩ := ledger_watch h i
  have hnext : nextW s i = true := by simp [nextW, hs, hsel, hack]
  have hredo : redoW s i = false := by simp [redoW, hto]
  refine ⟨?_, ?_, ?_, ?_, ?_, ?_, ?_⟩
  · simp [hst, hnext, hredo]
  · simp [hps, hredo, hs]
  · simp [hrp, hnext, hredo]
  all_goals
    cases hw : m.traffic.waiting <;>
      simp [Log.watch, Traffic.watch, Traffic.acks, Traffic.timesOut, hsel, hack, hto, hw, sent,
        mTvalid, hs]

theorem timesOut_edge (h : Ready s m) (hs : s.send = .wait) (hsel : i.selectedI = true)
    (hto : i.timedoutI = true) (hack : i.ackRecvI = false) : TimesOut m (m.watch s i) := by
  obtain ⟨hst, hps, hrp⟩ := ledger_watch h i
  have hnext : nextW s i = false := by simp [nextW, hack]
  have hredo : redoW s i = true := by simp [redoW, hs, hsel, hto]
  refine ⟨?_, ?_, ?_, ?_, ?_, ?_⟩
  · simp [hst, hnext]
  · simp [hps, hredo]
  all_goals
    cases hw : m.traffic.waiting <;>
      simp [Log.watch, Traffic.watch, Traffic.acks, Traffic.timesOut, hsel, hack, hto, hw, sent,
        mTvalid, hs]

/-- Every edge is one of these. -/
theorem edge (h : Ready s m) (hi : Polled i) : Edge s i m (m.watch s i) := by
  cases hs : s.send
  · have hsent : (mTvalid s && i.mTready) = false := by simp [mTvalid, hs]
    have hnext : nextW s i = false := by simp [nextW, hs]
    have hredo : redoW s i = false := by simp [redoW, hs]
    have hk := kept h hsent hnext hredo
    cases hoff : (!s.setQ || !p.enabled)
    · cases hsel : i.selectedI
      · exact .keep hk hsent hnext hredo (by simp [snxt, hs, hsel])
      · refine .poll hs hsel hk ?_
        simp only [snxt, hoff, hs, hsel, Bool.false_eq_true, if_false, if_true]
    · exact .keep hk hsent hnext hredo (by simp only [snxt, hoff, hs, if_true])
  · have hoff := snxt_eq h (by simp [hs])
    cases hv : (tvalidR s && i.mTready)
    · have hsent : (mTvalid s && i.mTready) = false := by simpa [mTvalid, hs] using hv
      have hnext : nextW s i = false := by simp [nextW, hs]
      have hredo : redoW s i = false := by simp [redoW, hs]
      refine .keep (kept h hsent hnext hredo) hsent hnext hredo ?_
      simp only [snxt, hoff, hs, hv, Bool.false_and, Bool.false_eq_true, if_false]
    · have hsent : (mTvalid s && i.mTready) = true := by simpa [mTvalid, hs] using hv
      have hb := beats_edge h (Or.inl hs) hsent
      rw [Bool.and_eq_true] at hv
      refine .word hs hv.1 hv.2 (by simpa [mTkeep, mTlast, hs] using hb) ?_
      simp only [snxt, hoff, hs, hv.1, hv.2, Bool.true_and, Bool.false_eq_true, if_false]
  · have hoff := snxt_eq h (by simp [hs])
    have hsent : (mTvalid s && i.mTready) = false := by simp [mTvalid, hs]
    have hans := hi.answer
    cases hsel : i.selectedI
    · have hnext : nextW s i = false := by simp [nextW, hsel]
      have hredo : redoW s i = false := by simp [redoW, hsel]
      refine .keep (kept h hsent hnext hredo) hsent hnext hredo ?_
      simp only [snxt, hoff, hs, hsel, Bool.false_and, Bool.false_eq_true, if_false]
    · cases hack : i.ackRecvI
      · cases hto : i.timedoutI
        · have hnext : nextW s i = false := by simp [nextW, hack]
          have hredo : redoW s i = false := by simp [redoW, hto]
          refine .keep (kept h hsent hnext hredo) hsent hnext hredo ?_
          simp only [snxt, hoff, hs, hack, hto, Bool.and_false, Bool.false_eq_true, if_false]
        · refine .timeout hs (by simp [redoW, hs, hsel, hto]) (timesOut_edge h hs hsel hto hack) ?_
          simp only [snxt, hoff, hs, hsel, hack, hto, Bool.and_false, Bool.and_true,
            Bool.false_eq_true, if_false, if_true]
      · have hto : i.timedoutI = false := by simpa [hack] using hans
        refine .ack hs hack (acks_edge h hs hsel hack hto) ?_
        simp only [snxt, hoff, hs, hsel, hack, Bool.and_true, Bool.false_eq_true, if_false, if_true]
  · have hoff := snxt_eq h (by simp [hs])
    cases hm : i.mTready
    · have hsent : (mTvalid s && i.mTready) = false := by simp [hm]
      have hnext : nextW s i = false := by simp [nextW, hs]
      have hredo : redoW s i = false := by simp [redoW, hs]
      refine .keep (kept h hsent hnext hredo) hsent hnext hredo ?_
      simp only [snxt, hoff, hs, hm, Bool.and_false, Bool.false_and, Bool.false_eq_true, if_false]
    · have hb := beats_edge (i := i) h (Or.inr hs) (by simp [mTvalid, hs, hm])
      refine .zero hs hm (by simpa [mTkeep, mTlast, hs] using hb) ?_
      simp [snxt, hoff, hs, hm, mTvalid, mTlast]
  · have hoff := snxt_eq h (by simp [hs])
    have hsent : (mTvalid s && i.mTready) = false := by simp [mTvalid, hs]
    have hnext : nextW s i = false := by simp [nextW, hs]
    have hredo : redoW s i = false := by simp [redoW, hs]
    have hk := kept h hsent hnext hredo
    cases hsel : i.selectedI
    · refine .keep hk hsent hnext hredo ?_
      simp only [snxt, hoff, hs, hsel, Bool.false_eq_true, if_false]
    · refine .again hs hk ?_
      simp only [snxt, hoff, hs, hsel, Bool.false_eq_true, if_false, if_true]

end MiscVerilogCores.BulkIn
