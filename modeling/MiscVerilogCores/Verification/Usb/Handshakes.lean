import MiscVerilogCores.Verification.Usb.Sending

/-! # What the encoder sends

Handshakes too: one byte and the stop, put into both output registers at once. -/

namespace MiscVerilogCores.UlpiEncoder

open Usb

/-- The handshake and its stop are in the output registers. -/
structure Shakes (pid : BitVec 4) (x : Xsend) (ws : List (Bool × BitVec 8)) (y : System) :
    Prop where
  pipe : Pipe y ws
  words : ws = [(false, usbPidW pid), (true, 0)] ∨ ws = [(true, 0)]
  bus : y.log.bus ++ ws.map Bus.ofWord = [Bus.byte (usbPidW pid), Bus.stop]
  xsend : y.enc.xsend = x
  dir : y.enc.dirQ = false
  stp : y.enc.stpQ = false
  crc : y.enc.crc16Q = 0xffff
  ended : y.enc.endQ = false
  beats : y.sender.beats = []

/-- `hsk_done_o` is raised, and `hsk_send_i` falls behind it. -/
structure Reports (y : System) : Prop where
  hold : y.sender.hold = y.enc.hskDoneQ
  once : y.log.answered + y.enc.hskDoneQ.toNat = 1

section Handshakes

variable {pid : BitVec 4} {y : System} {i : Inputs} {x x' : Xsend}
  {ws : List (Bool × BitVec 8)}

theorem Shakes.takes_eq (h : Shakes pid x ws y) : takes y.enc (drive pid y.sender i) = false := by
  simp [takes, h.beats]

theorem Shakes.beats_next (h : Shakes pid x ws y) : (y.next pid i).sender.beats = [] := by
  simp [System.next, Sender.next, h.takes_eq, h.beats]

theorem Shakes.crc_next (h : Shakes pid x ws y) : (y.next pid i).enc.crc16Q = 0xffff := by
  simp [System.next, step, crc16Next, h.takes_eq, h.crc]

theorem Shakes.ended_next (h : Shakes pid x ws y) : (y.next pid i).enc.endQ = false := by
  simp [System.next, step, endNext, h.takes_eq, h.ended]

variable (pid i) in
/-- The words go on to the PHY, and nothing is put behind them. -/
theorem Shakes.next (h : Shakes pid x ws y) (hstp : ulpiStp y.enc = false)
    (hload : SkidLoader.loads skidParams y.enc.skid
      (skidInputs y.enc (drive pid y.sender i)) = false)
    (hlast : (mux y.enc (drive pid y.sender i)).slast = true →
      (mux y.enc (drive pid y.sender i)).svalid = true)
    (hx : (y.next pid i).enc.xsend = x') :
    Shakes pid x' (if i.ulpiNxt then ws.tail else ws) (y.next pid i) ∧
      (y.next pid i).log.bus.length = y.log.bus.length + i.ulpiNxt.toNat := by
  have hwords : ws = [(false, usbPidW pid), (true, 0)] := by
    refine h.words.resolve_right fun hws => ?_
    have hpipe := h.pipe
    rw [hws] at hpipe
    exact absurd (hpipe.stp_eq.symm.trans hstp) (by simp)
  subst hwords
  obtain ⟨hpipe, hbus⟩ := h.pipe.next pid i rfl hload hlast
  have hoff : offered (mux y.enc (drive pid y.sender i))
      [(false, usbPidW pid), (true, 0)] = [] := by
    simp [offered]
  rw [hoff, List.append_nil] at hpipe
  refine ⟨⟨hpipe, ?_, ?_, hx, rfl, hstp, h.crc_next, h.ended_next, h.beats_next⟩, ?_⟩
  · cases i.ulpiNxt <;> simp
  · rw [hbus, ← h.bus]
    cases i.ulpiNxt <;> simp
  · rw [hbus]
    cases i.ulpiNxt <;> simp

/-- The stop comes behind the handshake. -/
theorem Shakes.close (h : Shakes pid x ws y) (hstp : ulpiStp y.enc = true)
    (hhold : (y.next pid i).sender.hold = (y.next pid i).enc.hskDoneQ)
    (hx : (y.next pid i).enc.xsend = .idle ∧ (y.next pid i).sender.hold = false ∨
      (y.next pid i).enc.xsend = .done) : Closing [usbPidW pid] (y.next pid i) := by
  have hwords : ws = [(true, 0)] := by
    refine h.words.resolve_left fun hws => ?_
    have hpipe := h.pipe
    rw [hws] at hpipe
    exact absurd (hpipe.stp_eq.symm.trans hstp) (by simp)
  subst hwords
  refine ⟨?_, ?_, h.beats_next, hhold, hx.imp id fun hx => ⟨hx, hstp⟩, rfl, h.crc_next,
    h.ended_next, ?_, ?_, ?_, ?_, ?_⟩
  · simpa [System.next, Log.watch, hstp, Bus.ofWord] using h.bus
  · simp [System.next, Log.watch, hstp]
  all_goals simp [System.next, step, SkidLoader.step, skidInputs, skidParams, hstp]

variable (pid i) in
/-- The handshake goes into the registers, with its stop behind it. -/
theorem Seen.next_handshake (h : Seen y) (hhold : y.sender.hold = true)
    (hbeats : y.sender.beats = []) :
    Shakes pid .xpid [(false, usbPidW pid), (true, 0)] (y.next pid i) ∧
      (y.next pid i).enc.skid.tready = false ∧ (y.next pid i).sender.hold = true ∧
      (y.next pid i).enc.hskDoneQ = false ∧ (y.next pid i).log.answered = 0 := by
  have huser : (drive pid y.sender i).sTuser = pid := by simp [drive, hhold]
  have hmux := h.mux_eq pid i
  rw [hhold, huser] at hmux
  have hno : takes y.enc (drive pid y.sender i) = false := by simp [takes, hbeats]
  have hstp : ulpiStp y.enc = false := h.mlast
  have hskid : (y.next pid i).enc.skid = ⟨false, false, true, false, true, true, usbPidW pid, 0⟩ := by
    simp [System.next, step, SkidLoader.step, SkidLoader.loads, skidInputs, skidParams, hmux, hstp,
      h.sready, h.tready, h.mvalid, h.tvalid, Skid.srcReady, Skid.tmpReady, Skid.tmpValid,
      Skid.dstValid, Skid.srcToDst]
  have hholds : SkidLoader.Holds (y.next pid i).enc.skid [(false, usbPidW pid), (true, 0)] := by
    rw [hskid]
    refine ⟨⟨?_, ?_, ?_, ?_⟩, ?_, ?_, ?_⟩ <;> simp [SkidLoader.contents]
  have hbus : (y.next pid i).log.bus = [] := by rw [h.log_next]; rfl
  refine ⟨⟨⟨hholds, Or.inr ⟨hbus, pid, _, rfl⟩⟩, Or.inl rfl, ?_, ?_, rfl, hstp, ?_, ?_, ?_⟩, ?_, ?_,
    ?_, ?_⟩
  · rw [hbus]
    rfl
  · simp [System.next, step, xsendNext, xsendCase, h.xsend, h.dir, h.ended, mvalidW, h.mvalid]
  · simp [System.next, step, crc16Next, h.xsend, hno, h.crc]
  · simp [System.next, step, endNext, h.xsend, hno, h.ended]
  · simp [System.next, Sender.next, hno, hbeats]
  · rw [hskid]
  · simp [System.next, Sender.next, hhold, h.hskDone]
  · simp [System.next, step, h.xsend]
  · rw [h.log_next]
    rfl

/-- The encoder goes on to stop the packet. -/
theorem Shakes.next_xpid (h : Shakes pid .xpid [(false, usbPidW pid), (true, 0)] y)
    (htready : y.enc.skid.tready = false) (hhold : y.sender.hold = true)
    (hdone : y.enc.hskDoneQ = false) (hanswered : y.log.answered = 0) :
    (∃ ws, Shakes pid .stop ws (y.next pid i)) ∧
      (y.next pid i).log.bus.length = i.ulpiNxt.toNat ∧ (y.next pid i).sender.hold = true ∧
      (y.next pid i).enc.hskDoneQ = false ∧ (y.next pid i).log.answered = 0 := by
  have hmvalid : mvalidW y.enc = true := h.pipe.skid.mvalid_eq
  have hmux : mux y.enc (drive pid y.sender i) = muxXpid y.enc (drive pid y.sender i) := by
    simp [mux, h.xsend, h.dir]
  have hx : (y.next pid i).enc.xsend = .stop := by
    simp [System.next, step, xsendNext, xsendCase, h.xsend, h.dir, hmvalid, hhold]
  obtain ⟨hnext, hlen⟩ := h.next pid i h.pipe.stp_eq
    (by simp [SkidLoader.loads, htready]) (by simp [hmux, muxXpid]) hx
  have hzero : y.log.bus.length = 0 := by
    have hall := congrArg List.length h.bus
    simpa using hall
  refine ⟨⟨_, hnext⟩, by rw [hlen, hzero, Nat.zero_add], ?_, ?_, ?_⟩
  · simp [System.next, Sender.next, hhold, hdone]
  · simp [System.next, step, h.xsend]
  · simp [System.next, Log.watch, hanswered, hdone]

/-- A handshake that has been reported, on its way to the PHY. -/
def Drains (pid : BitVec 4) (y : System) : Prop :=
  Reports y ∧ ∃ x ws, Shakes pid x ws y ∧ (x = .done ∨ x = .idle ∧ y.sender.hold = false)

/-- The report comes when the encoder leaves its state for stopping a packet. -/
theorem Shakes.next_stop (h : Shakes pid .stop ws y) (hhold : y.sender.hold = true)
    (hdone : y.enc.hskDoneQ = false) (hanswered : y.log.answered = 0) :
    Reports (y.next pid i) ∧
      (Drains pid (y.next pid i) ∧
          (y.next pid i).log.bus.length = y.log.bus.length + i.ulpiNxt.toNat ∨
        Closing [usbPidW pid] (y.next pid i)) := by
  have hmux : mux y.enc (drive pid y.sender i) =
      { Mux.none with svalid := true, slast := true } := by
    simp [mux, h.xsend, h.dir]
  have hx : (y.next pid i).enc.xsend = .done := by
    simp [System.next, step, xsendNext, xsendCase, h.xsend, h.dir]
  have hhold' : (y.next pid i).sender.hold = true := by
    simp [System.next, Sender.next, hhold, hdone]
  have hdone' : (y.next pid i).enc.hskDoneQ = true := by
    simp [System.next, step, h.xsend, hhold]
  have hreports : Reports (y.next pid i) :=
    ⟨by rw [hhold', hdone'], by rw [hdone']; simp [System.next, Log.watch, hanswered, hdone]⟩
  refine ⟨hreports, ?_⟩
  cases hstp : ulpiStp y.enc
  · obtain ⟨hnext, hlen⟩ := h.next pid i hstp
      (by simp [SkidLoader.loads, skidInputs, hmux, Mux.none]) (by simp [hmux]) hx
    exact Or.inl ⟨⟨hreports, _, _, hnext, Or.inl rfl⟩, hlen⟩
  · exact Or.inr (h.close hstp hreports.hold (Or.inr hx))

/-- The PHY takes the handshake while the encoder may be idle already. -/
theorem Drains.next (h : Drains pid y) :
    Reports (y.next pid i) ∧
      (ulpiStp y.enc = true → Closing [usbPidW pid] (y.next pid i)) ∧
      (ulpiStp y.enc = false → Drains pid (y.next pid i) ∧
        (y.next pid i).log.bus.length = y.log.bus.length + i.ulpiNxt.toNat) := by
  obtain ⟨hreports, x, ws, h, hx⟩ := h
  have hno : y.enc.xsend ≠ .stop := by
    rw [h.xsend]
    rcases hx with rfl | ⟨rfl, -⟩ <;> simp
  have hmux : mux y.enc (drive pid y.sender i) = Mux.none :=
    mux_none pid i h.dir h.beats (by
      rw [h.xsend]
      exact (hx.imp id And.left).symm)
  have hhold' : (y.next pid i).sender.hold = false := by
    simp [System.next, Sender.next, hreports.hold]
  have hdone' : (y.next pid i).enc.hskDoneQ = false := by
    simp [System.next, step, hno]
  have hreports' : Reports (y.next pid i) := by
    refine ⟨by rw [hhold', hdone'], ?_⟩
    rw [hdone']
    simpa [System.next, Log.watch] using hreports.once
  have hx' : (y.next pid i).enc.xsend = .idle ∨ (y.next pid i).enc.xsend = .done := by
    rcases hx with rfl | ⟨rfl, hhold⟩
    · by_cases hl : (!ulpiStp y.enc && y.enc.stpQ) || i.lineState == 0
      · left
        simp only [System.next, step, xsendNext, xsendCase, h.xsend, h.dir, drive_reset,
          drive_ulpiDir, drive_lineState, hl]
        simp
      · right
        simp only [System.next, step, xsendNext, xsendCase, h.xsend, h.dir, drive_reset,
          drive_ulpiDir, drive_lineState, hl]
        simp
    · left
      simp [System.next, step, xsendNext, xsendCase, h.xsend, h.dir, hhold, h.beats]
  refine ⟨hreports', fun hstp => ?_, fun hstp => ?_⟩
  · exact h.close hstp hreports'.hold (hx'.imp (fun hx => ⟨hx, hhold'⟩) id)
  · obtain ⟨hnext, hlen⟩ := h.next pid i hstp
      (by simp [SkidLoader.loads, skidInputs, hmux, Mux.none]) (by simp [hmux, Mux.none]) rfl
    refine ⟨⟨hreports', _, _, hnext, ?_⟩, hlen⟩
    exact hx'.symm.imp id fun hx => ⟨hx, hhold'⟩

/-- A handshake after its first cycles, in cycle `t`. -/
inductive Answers (pid : BitVec 4) (env : ℕ → Inputs) (t : ℕ) (y : System) : Prop where
  | drains (h : Drains pid y) (hcount : y.log.bus.length = nxtCount 2 env t)
  | closing (h : Closing [usbPidW pid] y) (hreports : Reports y)
  | settled (h : Settled [usbPidW pid] y) (hanswered : y.log.answered = 1)

theorem Answers.next {env : ℕ → Inputs} {t : ℕ} (h : Answers pid env t (after pid y env t))
    (ht : 2 ≤ t) : Answers pid env (t + 1) (after pid y env (t + 1)) := by
  cases h with
  | drains h hcount =>
      obtain ⟨hreports, hclose, hdrain⟩ := h.next (i := env t)
      cases hstp : ulpiStp (after pid y env t).enc
      · obtain ⟨hdrains, hlen⟩ := hdrain hstp
        refine .drains hdrains ?_
        have hyes : decide (2 ≤ t) = true := by simpa using ht
        rw [after, hlen, nxtCount, hyes, Bool.true_and, hcount]
      · exact .closing (hclose hstp) hreports
  | closing h hreports =>
      obtain ⟨hsettled, -, hcount⟩ := h.next pid (env t)
      exact .settled hsettled (by rw [after, hcount, hreports.once])
  | settled h hanswered =>
      obtain ⟨hsettled, -, hcount⟩ := h.next pid (env t)
      exact .settled hsettled (by rw [after, hcount, hanswered])

theorem Answers.bus {env : ℕ → Inputs} {t : ℕ} (h : Answers pid env t y) :
    y.log.bus <+: [usbPidW pid].map Bus.byte ++ [Bus.stop] := by
  cases h with
  | drains h _ =>
      obtain ⟨-, x, ws, h, -⟩ := h
      exact ⟨_, h.bus⟩
  | closing h _ => exact ⟨[], by rw [List.append_nil, h.bus]⟩
  | settled h _ => exact ⟨[], by rw [List.append_nil, h.finished.bus]⟩

/-- A PHY that has taken the handshake sees its stop. -/
theorem Drains.stp_of_length (h : Drains pid y) (hlen : 1 ≤ y.log.bus.length) :
    ulpiStp y.enc = true := by
  obtain ⟨-, x, ws, h, -⟩ := h
  have hcount := congrArg List.length h.bus
  have hpipe := h.pipe
  rcases h.words with hws | hws <;> rw [hws] at hcount hpipe
  · simp only [List.length_append, List.length_map, List.length_cons, List.length_nil] at hcount
    omega
  · exact hpipe.stp_eq

end Handshakes

section Encoder

variable {s : State} {env : ℕ → Inputs}

theorem answers_handshake (hs : Idle s) (pid : BitVec 4) :
    Answers pid env 4 (after pid (handshakeStart s) env 4) := by
  have hmux : mux s (drive pid (handshakeStart s).sender (env 0)) = Mux.none := by
    simp [mux, hs.xsend, hs.dir, muxIdle, handshakeStart]
  have hfresh : Fresh (handshakeStart s) := ⟨hs, rfl⟩
  obtain ⟨hseen, hsender⟩ := hfresh.next_seen pid (env 0) hmux (Or.inl rfl)
  obtain ⟨hxpid, htready, hhold, hdone, hanswered⟩ := hseen.next_handshake pid
    (env 1) (by rw [hsender]; rfl) (by rw [hsender]; rfl)
  obtain ⟨⟨ws, hstop⟩, hlen, hhold, hdone, hanswered⟩ := hxpid.next_xpid (i := env 2) htready hhold
    hdone hanswered
  obtain ⟨hreports, ⟨hdrains, hlen'⟩ | hclose⟩ := hstop.next_stop (i := env 3) hhold hdone hanswered
  · refine .drains hdrains (hlen'.trans ?_)
    rw [hlen]
    simp [nxtCount]
  · exact .closing hclose hreports

theorem answers_after (hs : Idle s) (pid : BitVec 4) {t : ℕ} (ht : 4 ≤ t) :
    Answers pid env t (after pid (handshakeStart s) env t) := by
  induction t, ht using Nat.le_induction with
  | base => exact answers_handshake hs pid
  | succ t ht ih => exact ih.next (by omega)

theorem onlySends_handshake (hs : Idle s) (pid : BitVec 4) :
    OnlySends pid (handshakeStart s) env [usbPidW pid] := fun t =>
  (bus_mono (le_max_left t 4)).trans (answers_after hs pid (le_max_right t 4)).bus

theorem sendsHandshake (hs : Idle s) (pid : BitVec 4) (henough : Enough 1 2 env) :
    SendsHandshake s pid env := by
  obtain ⟨u, hu⟩ := henough
  have ht : 4 ≤ max u 4 := le_max_right u 4
  have hcount := le_trans hu (nxtCount_mono env 2 (le_max_left u 4))
  generalize max u 4 = t at ht hcount
  have hanswers : Answers pid env t (after pid (handshakeStart s) env t) := answers_after hs pid ht
  cases hanswers with
  | drains h hlen =>
      obtain ⟨hreports, hclose, -⟩ := h.next (i := env t)
      obtain ⟨hsettled, -, hcount⟩ := (hclose (h.stp_of_length (by omega))).next pid
        (env (t + 1))
      exact ⟨t + 2, hsettled.finished, by rw [after, after, hcount, hreports.once]⟩
  | closing h hreports =>
      obtain ⟨hsettled, -, hcount⟩ := h.next pid (env t)
      exact ⟨t + 1, hsettled.finished, by rw [after, hcount, hreports.once]⟩
  | settled h hanswered => exact ⟨t, h.finished, hanswered⟩

end Encoder

/-- The encoder is idle one cycle after a reset. -/
theorem idle_of_reset (s : State) (i j : Inputs) (hi : i.reset = true) (hdir : i.ulpiDir = false)
    (hj : j.reset = false) (hdir' : j.ulpiDir = false) : Idle (step (step s i) j) := by
  have hskid : (step s i).skid.sready = false ∧ (step s i).skid.mvalid = false ∧
      (step s i).skid.tvalid = false ∧ (step s i).skid.mlast = false ∧
      (step s i).skid.mdata = 0 := by
    simp [step, SkidLoader.step, skidInputs, skidParams, hi]
  obtain ⟨hsready, hmvalid, htvalid, hmlast, hmdata⟩ := hskid
  have hx : (step s i).xsend = .idle := by simp [step, xsendNext, hi]
  have hq : (step s i).dirQ = false := hdir
  have hcrc : (step s i).crc16Q = 0xffff := by simp [step, crc16Next, hi]
  have hend : (step s i).endQ = false := by simp [step, endNext, hi]
  generalize step s i = s at hsready hmvalid htvalid hmlast hmdata hx hq hcrc hend
  have hsreadyW : ∀ j, sreadyW s j = false := fun _ => hsready
  have hmux : mux s j = Mux.none := by simp [mux, hx, muxIdle, hsreadyW]
  have hno : takes s j = false := by simp [takes, sTready, hmux, Mux.none]
  have hstp : ulpiStp s = false := hmlast
  refine ⟨?_, hdir', hmlast, ?_, ?_, ?_, ?_, ?_, ?_, ?_, ?_, ?_, ?_⟩
  · simp [step, xsendNext, xsendCase, hj, hx, hq, hdir', hsreadyW]
  · simp [step, hx]
  · simp [step, hx]
  · simp [step, crc16Next, hj, hx, hno, hcrc]
  · simp [step, endNext, hj, hx, hno, hend]
  all_goals simp [step, SkidLoader.step, SkidLoader.loads, skidInputs, skidParams, hmux, Mux.none,
    hj, hstp, hsready, hmvalid, htvalid, hmlast, hmdata, Skid.srcReady, Skid.tmpReady,
    Skid.tmpValid, Skid.dstValid, Skid.srcToDst, Skid.tmpToDst]

/-- What the encoder sends from its idle state. Where the PHY takes enough bytes: every handshake,
and exactly the packets for which the PHY and `LineState` leave it alone where it is not prepared
for them. Where it stops taking them, a beginning. -/
theorem sends_iff_sound (s : State) (hs : Idle s) (env : ℕ → Inputs) (pid : BitVec 4) :
    (∀ x payload,
      (Enough (payload.length + 3) (commandCycle payload) env →
        (SendsPacket s pid x payload env ↔ Sound payload env)) ∧
      (Sound payload env → ∃ bytes, PacketBytes pid payload bytes ∧
        OnlySends pid (packetStart s x payload) env bytes)) ∧
      (Enough 1 2 env → SendsHandshake s pid env) ∧
      OnlySends pid (handshakeStart s) env [usbPidW pid] :=
  ⟨fun x payload => ⟨sendsPacket_iff hs pid x payload, Sound.onlySends hs pid x⟩,
    sendsHandshake hs pid, onlySends_handshake hs pid⟩

/-- The encoder one cycle after a reset. -/
def rested : State :=
  step (step default { (default : Inputs) with reset := true }) default

theorem idle_rested : Idle rested :=
  idle_of_reset _ _ _ rfl rfl rfl rfl

/-- A PHY that takes a byte in every cycle. -/
def eager (_ : ℕ) : Inputs := { (default : Inputs) with ulpiNxt := true }

/-- A packet of one byte, and an ACK. -/
theorem sends_iff_sound_eager :
    SendsPacket rested 3 0 [0x11] eager ∧ SendsHandshake rested 2 eager := by
  have hsound : Sound [0x11] eager := ⟨by simp, fun t _ hn => by simp [eager] at hn⟩
  have hpacket := (sends_iff_sound rested idle_rested eager 3).1 0 [0x11]
  have hshake := (sends_iff_sound rested idle_rested eager 2).2.1
  exact ⟨(hpacket.1 ⟨5, by decide⟩).mpr hsound, hshake ⟨3, by decide⟩⟩

/-- A packet without payload is not sent as it should be to an eager PHY. -/
theorem not_alwaysSends :
    ¬ ∀ (s : State), Idle s → ∀ (env : ℕ → Inputs) (pid : BitVec 4) (x : BitVec 8)
      (payload : List (BitVec 8)), Enough (payload.length + 3) (commandCycle payload) env →
        SendsPacket s pid x payload env := by
  intro h
  have hempty := h rested idle_rested eager 3 0 [] ⟨5, by decide⟩
  exact empty_spoiled idle_rested 3 0 rfl rfl hempty

end MiscVerilogCores.UlpiEncoder
