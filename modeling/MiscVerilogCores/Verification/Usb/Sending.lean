import MiscVerilogCores.Verification.Usb.Transmission

/-! # When a packet is sent as it should be

From the first cycle to the idle state after the packet, with whatever the PHY does on `nxt`. -/

namespace MiscVerilogCores.UlpiEncoder

open Clocked Usb

/-! ## Behind the stop -/

/-- The stop has cleared the output registers. -/
structure Closing (bytes : List (BitVec 8)) (y : System) : Prop where
  bus : y.log.bus = bytes.map Bus.byte ++ [Bus.stop]
  listening : y.log.listening = false
  beats : y.sender.beats = []
  hold : y.sender.hold = y.enc.hskDoneQ
  xsend : y.enc.xsend = .idle ∧ y.sender.hold = false ∨ y.enc.xsend = .done ∧ y.enc.stpQ = true
  dir : y.enc.dirQ = false
  crc : y.enc.crc16Q = 0xffff
  ended : y.enc.endQ = false
  sready : y.enc.skid.sready = false
  mvalid : y.enc.skid.mvalid = false
  tvalid : y.enc.skid.tvalid = false
  mlast : y.enc.skid.mlast = false
  mdata : y.enc.skid.mdata = 0

/-- All is sent, and the PHY waits for the next command. -/
structure Settled (bytes : List (BitVec 8)) (y : System) : Prop where
  finished : Finished y bytes
  listening : y.log.listening = false

/-- The encoder has left its last state without a report. -/
structure Lost (y : System) : Prop where
  xsend : y.enc.xsend = .idle
  dir : y.enc.dirQ = false
  beats : y.sender.beats = []
  hold : y.sender.hold = false
  usbDone : y.enc.usbDoneQ = false
  sent : y.log.sent = 0

section Behind

variable {bytes : List (BitVec 8)} {pid : BitVec 4} {y : System} {i : Inputs}

variable (pid i) in
theorem mux_none (hdir : y.enc.dirQ = false) (hbeats : y.sender.beats = [])
    (hx : y.enc.xsend = .idle ∨ y.enc.xsend = .done) :
    mux y.enc (drive pid y.sender i) = Mux.none := by
  rcases hx with hx | hx <;> simp [mux, hx, hdir, muxIdle, hbeats]

variable (pid i) in
theorem Tracks.close {ws : List (Bool × BitVec 8)} {rest : List (BitVec 8)}
    (h : Tracks bytes y ws rest) (hstp : ulpiStp y.enc = true) :
    Closing bytes (y.next pid i) ∧ (y.next pid i).enc.usbDoneQ = true ∧
      (y.next pid i).log.sent = 0 := by
  obtain ⟨hx, rfl, rfl⟩ := h.stopped hstp
  have hbus := h.bus
  simp only [ahead, hx, List.append_nil, List.map_cons, List.map_nil, Bus.ofWord] at hbus
  refine ⟨⟨?_, ?_, ?_, ?_, ?_, rfl, ?_, ?_, ?_, ?_, ?_, ?_, ?_⟩, ?_, ?_⟩
  · simpa [System.next, Log.watch, hstp] using hbus
  · simp [System.next, Log.watch, hstp]
  · simp [System.next, Sender.next, h.takes_nil, h.beats, payloadBeats]
  · simp [System.next, Sender.next, h.hold, step, hx]
  · by_cases hl : i.lineState = 0
    · left
      refine ⟨?_, by simp [System.next, Sender.next, h.hold]⟩
      simp [System.next, step, xsendNext, xsendCase, hx, h.dir, hl]
    · right
      have hzero : (i.lineState == 0) = false := by simpa using hl
      refine ⟨?_, hstp⟩
      simp only [System.next, step, xsendNext, xsendCase, hx, h.dir, h.stp, drive_reset,
        drive_ulpiDir, drive_lineState, hzero]
      simp
  · simp [System.next, step, crc16Next, hx]
  · simp [System.next, step, endNext, hx, h.takes_nil]
  all_goals simp [System.next, step, SkidLoader.step, skidInputs, skidParams, hstp, hx, h.hold,
    Log.watch, h.sent, h.usbDone]

theorem Tracks.lose {ws : List (Bool × BitVec 8)} {rest : List (BitVec 8)}
    (h : Tracks bytes y ws rest) (hx : Waits y.enc) (hline : i.lineState = 0) :
    Lost (y.next pid i) := by
  obtain ⟨hx, hstp⟩ := hx
  have hs := h.stage
  simp only [Stage, hx] at hs
  obtain ⟨rfl, -⟩ := hs
  refine ⟨?_, rfl, ?_, ?_, ?_, ?_⟩
  · simp [System.next, step, xsendNext, xsendCase, hx, h.dir, hline]
  · simp [System.next, Sender.next, h.takes_nil, h.beats, payloadBeats]
  · simp [System.next, Sender.next, h.hold]
  · simp [System.next, step, hstp]
  · simp [System.next, Log.watch, h.sent, h.usbDone]

theorem Lost.next (h : Lost y) : Lost (y.next pid i) := by
  refine ⟨?_, rfl, ?_, ?_, ?_, ?_⟩
  · simp [System.next, step, xsendNext, xsendCase, h.xsend, h.dir, h.beats, h.hold]
  · simp [System.next, Sender.next, h.beats]
  · simp [System.next, Sender.next, h.hold]
  · simp [System.next, step, h.xsend]
  · simp [System.next, Log.watch, h.sent, h.usbDone]

variable (pid i) in
/-- One more cycle, and the encoder is ready for a packet. -/
theorem Closing.next (h : Closing bytes y) :
    Settled bytes (y.next pid i) ∧
      (y.next pid i).log.sent = y.log.sent + y.enc.usbDoneQ.toNat ∧
      (y.next pid i).log.answered = y.log.answered + y.enc.hskDoneQ.toNat := by
  have hstp : ulpiStp y.enc = false := h.mlast
  have hx : y.enc.xsend = .idle ∨ y.enc.xsend = .done := h.xsend.imp And.left And.left
  have hmux := mux_none pid i h.dir h.beats hx
  have hno : takes y.enc (drive pid y.sender i) = false := by simp [takes, h.beats]
  have hquiet : taking y.log y.enc (drive pid y.sender i) = false := by
    simp [taking, h.listening, ulpiData, h.mdata]
  refine ⟨⟨⟨?_, ?_, ?_, ?_⟩, ?_⟩, rfl, rfl⟩
  · simpa [System.next, Log.watch, hstp, hquiet] using h.bus
  · simp [System.next, Sender.next, hno, h.beats]
  · simp [System.next, Sender.next, h.hold]
  · refine ⟨?_, rfl, h.mlast, ?_, ?_, ?_, ?_, ?_, ?_, ?_, ?_, ?_, ?_⟩
    · rcases h.xsend with ⟨hx, hhold⟩ | ⟨hx, hq⟩
      · simp [System.next, step, xsendNext, xsendCase, hx, h.dir, sreadyW, SkidLoader.sTready,
          skidParams, h.sready]
      · simp [System.next, step, xsendNext, xsendCase, hx, h.dir, hstp, hq]
    · rcases hx with hx | hx <;> simp [System.next, step, hx]
    · simp [System.next, step, hstp]
    · rcases hx with hx | hx <;> simp [System.next, step, crc16Next, hx, hno, h.crc]
    · rcases hx with hx | hx <;> simp [System.next, step, endNext, hx, hno, h.ended]
    all_goals simp [System.next, step, SkidLoader.step, SkidLoader.loads, skidInputs, skidParams,
      hstp, hmux, Mux.none, h.sready, h.mvalid, h.tvalid, h.mlast, h.mdata, Skid.srcReady,
      Skid.tmpReady, Skid.tmpValid, Skid.dstValid, Skid.srcToDst, Skid.tmpToDst]
  · simp [System.next, Log.watch, hquiet, h.listening]

variable (pid i) in
/-- Nothing happens until the next packet. -/
theorem Settled.next (h : Settled bytes y) :
    Settled bytes (y.next pid i) ∧ (y.next pid i).log.sent = y.log.sent ∧
      (y.next pid i).log.answered = y.log.answered := by
  have hidle := h.finished.idle
  have hstp : ulpiStp y.enc = false := hidle.mlast
  have hmux := mux_none pid i hidle.dir h.finished.beats (Or.inl hidle.xsend)
  have hno : takes y.enc (drive pid y.sender i) = false := by simp [takes, h.finished.beats]
  have hquiet : taking y.log y.enc (drive pid y.sender i) = false := by
    simp [taking, h.listening, ulpiData, hidle.mdata]
  refine ⟨⟨⟨?_, ?_, ?_, ?_⟩, ?_⟩, ?_, ?_⟩
  · simpa [System.next, Log.watch, hstp, hquiet] using h.finished.bus
  · simp [System.next, Sender.next, hno, h.finished.beats]
  · simp [System.next, Sender.next, h.finished.hold]
  · refine ⟨?_, rfl, hidle.mlast, ?_, ?_, ?_, ?_, ?_, ?_, ?_, ?_, ?_, ?_⟩
    · simp [System.next, step, xsendNext, xsendCase, hidle.xsend, hidle.dir, h.finished.beats,
        h.finished.hold]
    · simp [System.next, step, hidle.xsend]
    · simp [System.next, step, hstp]
    · simp [System.next, step, crc16Next, hidle.xsend, hno, hidle.crc]
    · simp [System.next, step, endNext, hidle.xsend, hno, hidle.ended]
    all_goals simp [System.next, step, SkidLoader.step, SkidLoader.loads, skidInputs, skidParams,
      hstp, hmux, Mux.none, hidle.sready, hidle.mvalid, hidle.tvalid, Skid.srcReady,
      Skid.tmpReady, Skid.tmpValid, Skid.dstValid, Skid.srcToDst]
  · simp [System.next, Log.watch, hquiet, h.listening]
  · simp [System.next, Log.watch, hidle.usbDone]
  · simp [System.next, Log.watch, hidle.hskDone]

end Behind

/-! ## The first cycles -/

theorem wire_halves (x : BitVec 16) :
    wire (x.setWidth 8) ++ wire (x.extractLsb' 8 8) = wire x := by
  simp [wire, List.range_succ]

theorem packetBytes (pid : BitVec 4) (payload : List (BitVec 8)) :
    PacketBytes pid payload (usbPidW pid :: payload ++ crcBytes (crc16s payload)) := by
  refine ⟨_, _, rfl, ?_⟩
  rw [crcLow, crcHigh, wire_halves, crc16Nw, wire_not_reverse, checkBits, crc16s_eq_feed]

/-- A packet or a handshake is about to be offered to the idle encoder. -/
structure Fresh (y : System) : Prop where
  idle : Idle y.enc
  log : y.log = Log.start

section Start

variable {pid : BitVec 4} {y : System} {i : Inputs}

theorem Fresh.sreadyW_eq (h : Fresh y) (j : Inputs) : sreadyW y.enc j = true :=
  h.idle.sready

theorem Fresh.ulpiStp_eq (h : Fresh y) : ulpiStp y.enc = false :=
  h.idle.mlast

theorem Fresh.log_next (h : Fresh y) : (y.next pid i).log = Log.start := by
  have htaking : taking y.log y.enc (drive pid y.sender i) = false := by
    simp [taking, h.log, Log.start, ulpiData, h.idle.mdata]
  rw [h.log] at htaking
  simp only [System.next, Log.watch, htaking, h.ulpiStp_eq, h.log, h.idle.usbDone, h.idle.hskDone]
  rfl

variable (pid i) in
/-- The first byte of the payload goes into the temporary register together with the command. -/
theorem Fresh.next_payload (h : Fresh y) (hhold : y.sender.hold = false) {b : BitVec 8}
    {bs : List (BitVec 8)} (hbeats : y.sender.beats = payloadBeats (b :: bs)) :
    Tracks (usbPidW pid :: (b :: bs) ++ crcBytes (crc16s (b :: bs))) (y.next pid i)
        [(false, usbPidW pid), (false, b)] bs ∧
      (y.next pid i).log.bus = [] ∧ (y.next pid i).enc.xsend = .xpid := by
  have hbeats : y.sender.beats = ⟨true, bs.isEmpty, b⟩ :: payloadBeats bs := hbeats
  have hkeep : (drive pid y.sender i).sTkeep = true := by simp [drive, hbeats]
  have hlast : (drive pid y.sender i).sTlast = bs.isEmpty := by simp [drive, hbeats]
  have hdata : (drive pid y.sender i).sTdata = b := by simp [drive, hbeats]
  have huser : (drive pid y.sender i).sTuser = pid := by simp [drive, hbeats]
  have hmux : mux y.enc (drive pid y.sender i) =
      ⟨true, true, false, usbPidW pid, true, false, b⟩ := by
    simp [mux, h.idle.xsend, h.idle.dir, muxIdle, hbeats, h.sreadyW_eq, hkeep, hdata, huser]
  have hyes : takes y.enc (drive pid y.sender i) = true := by
    simp [takes, sTready, hmux, hbeats]
  have hx : (y.next pid i).enc.xsend = .xpid := by
    simp [System.next, step, xsendNext, xsendCase, h.idle.xsend, h.idle.dir, h.sreadyW_eq, hbeats]
  have hcrc : (y.next pid i).enc.crc16Q = crc16 b 0xffff := by
    simp [System.next, step, crc16Next, h.idle.xsend, hyes, hkeep, hdata, h.idle.crc]
  have hend : (y.next pid i).enc.endQ = bs.isEmpty := by
    cases bs <;>
      simp [System.next, step, endNext, h.idle.xsend, hyes, hkeep, hlast, h.idle.ended]
  have hskid : (y.next pid i).enc.skid =
      ⟨false, false, true, false, true, false, usbPidW pid, b⟩ := by
    simp [System.next, step, SkidLoader.step, SkidLoader.loads, skidInputs, skidParams, hmux,
      h.ulpiStp_eq, h.idle.sready, h.idle.tready, h.idle.mvalid, h.idle.tvalid, Skid.srcReady,
      Skid.tmpReady, Skid.tmpValid, Skid.dstValid, Skid.srcToDst]
  have hbus : (y.next pid i).log.bus = [] := by rw [h.log_next]; rfl
  have hholds : SkidLoader.Holds (y.next pid i).enc.skid [(false, usbPidW pid), (false, b)] := by
    rw [hskid]
    refine ⟨⟨?_, ?_, ?_, ?_⟩, ?_, ?_, ?_⟩ <;> simp [SkidLoader.contents]
  refine ⟨⟨⟨hholds, Or.inr ⟨hbus, pid, _, rfl⟩⟩, by simp, ?_, rfl, ?_, ?_, ?_, h.idle.mlast, ?_, ?_⟩,
    hbus, hx⟩
  · simp [Stage, hx, hend]
  · simp [System.next, Sender.next, hyes, hbeats]
  · simp [System.next, Sender.next, hhold]
  · simp [hbus, ahead, hx, hcrc, words, crc16s, Bus.ofWord, crcBytes]
  · simp [System.next, step, h.idle.xsend]
  · rw [h.log_next]
    rfl

/-- The encoder has seen that something is to be sent, and has not put anything on the bus. -/
structure Seen (y : System) : Prop where
  log : y.log = Log.start
  xsend : y.enc.xsend = .xpid
  dir : y.enc.dirQ = false
  stp : y.enc.stpQ = false
  usbDone : y.enc.usbDoneQ = false
  hskDone : y.enc.hskDoneQ = false
  crc : y.enc.crc16Q = 0xffff
  ended : y.enc.endQ = false
  sready : y.enc.skid.sready = true
  tready : y.enc.skid.tready = true
  mvalid : y.enc.skid.mvalid = false
  tvalid : y.enc.skid.tvalid = false
  mlast : y.enc.skid.mlast = false
  mdata : y.enc.skid.mdata = 0

variable (pid i) in
theorem Fresh.next_seen (h : Fresh y)
    (hmux : mux y.enc (drive pid y.sender i) = Mux.none)
    (hsend : y.sender.hold = true ∨ y.sender.beats ≠ []) :
    Seen (y.next pid i) ∧ (y.next pid i).sender = y.sender := by
  have hno : takes y.enc (drive pid y.sender i) = false := by
    simp [takes, sTready, hmux, Mux.none]
  have hsender : (y.next pid i).sender = y.sender := by
    simp [System.next, Sender.next, hno, h.idle.hskDone]
  refine ⟨⟨h.log_next, ?_, rfl, h.idle.mlast, ?_, ?_, ?_, ?_, ?_, ?_, ?_, ?_, ?_, ?_⟩, hsender⟩
  · rcases hsend with hhold | hbeats
    · simp [System.next, step, xsendNext, xsendCase, h.idle.xsend, h.idle.dir, h.sreadyW_eq, hhold]
    · simp [System.next, step, xsendNext, xsendCase, h.idle.xsend, h.idle.dir, h.sreadyW_eq, hbeats]
  · simp [System.next, step, h.idle.xsend]
  · simp [System.next, step, h.idle.xsend]
  · simp [System.next, step, crc16Next, h.idle.xsend, hno, h.idle.crc]
  · simp [System.next, step, endNext, h.idle.xsend, hno, h.idle.ended]
  all_goals simp [System.next, step, SkidLoader.step, SkidLoader.loads, skidInputs, skidParams,
    hmux, Mux.none, h.ulpiStp_eq, h.idle.sready, h.idle.mvalid, h.idle.tvalid, Skid.srcReady,
    Skid.tmpReady, Skid.tmpValid, Skid.dstValid, Skid.srcToDst]

theorem Seen.log_next (h : Seen y) : (y.next pid i).log = Log.start := by
  have htaking : taking Log.start y.enc (drive pid y.sender i) = false := by
    simp [taking, Log.start, ulpiData, h.mdata]
  have hstp : ulpiStp y.enc = false := h.mlast
  simp only [System.next, Log.watch, h.log, htaking, hstp, h.usbDone, h.hskDone]
  rfl

variable (pid i) in
theorem Seen.mux_eq (h : Seen y) : mux y.enc (drive pid y.sender i) =
    ⟨true, true, false, usbPidW (drive pid y.sender i).sTuser, y.sender.hold, y.sender.hold, 0⟩ := by
  simp [mux, h.xsend, h.dir, muxXpid, mvalidW, h.mvalid, sreadyW, SkidLoader.sTready, skidParams,
    h.sready]

/-- The command of a packet without payload is on the bus, with nothing behind it yet. -/
structure Bare (pid : BitVec 4) (y : System) : Prop where
  skid : SkidLoader.Holds y.enc.skid [(false, usbPidW pid)]
  log : y.log = Log.start
  xsend : y.enc.xsend = .xpid
  dir : y.enc.dirQ = false
  usbDone : y.enc.usbDoneQ = false
  crc : y.enc.crc16Q = 0xffff
  ended : y.enc.endQ = true
  beats : y.sender.beats = []
  hold : y.sender.hold = false

theorem Seen.next_empty (h : Seen y) (hhold : y.sender.hold = false) {x : BitVec 8}
    (hbeats : y.sender.beats = [⟨false, true, x⟩]) : Bare pid (y.next pid i) := by
  have hkeep : (drive pid y.sender i).sTkeep = false := by simp [drive, hbeats]
  have huser : (drive pid y.sender i).sTuser = pid := by simp [drive, hbeats]
  have hmux := h.mux_eq pid i
  rw [hhold, huser] at hmux
  have hyes : takes y.enc (drive pid y.sender i) = true := by
    simp [takes, sTready, hmux, hbeats]
  have hstp : ulpiStp y.enc = false := h.mlast
  have hskid : (y.next pid i).enc.skid = ⟨true, true, true, false, false,
      (y.next pid i).enc.skid.tlast, usbPidW pid, (y.next pid i).enc.skid.tdata⟩ := by
    simp [System.next, step, SkidLoader.step, SkidLoader.loads, skidInputs, skidParams, hmux, hstp,
      h.sready, h.mvalid, h.tvalid, Skid.srcReady, Skid.tmpReady, Skid.tmpValid, Skid.dstValid,
      Skid.srcToDst]
  have hholds : SkidLoader.Holds (y.next pid i).enc.skid [(false, usbPidW pid)] := by
    rw [hskid]
    refine ⟨⟨?_, ?_, ?_, ?_⟩, ?_, ?_, ?_⟩ <;> simp [SkidLoader.contents]
  refine ⟨hholds, h.log_next, ?_, rfl, ?_, ?_, ?_, ?_, ?_⟩
  · simp [System.next, step, xsendNext, xsendCase, h.xsend, h.dir, h.ended, mvalidW, h.mvalid]
  · simp [System.next, step, h.xsend]
  · simp [System.next, step, crc16Next, h.xsend, hyes, hkeep, h.crc]
  · simp [System.next, step, endNext, h.xsend, hyes, hkeep]
  · simp [System.next, Sender.next, hyes, hbeats]
  · simp [System.next, Sender.next, hhold]

theorem Bare.next (h : Bare pid y) :
    Pipe (y.next pid i) (if i.ulpiNxt then [] else [(false, usbPidW pid)]) ∧
      (y.next pid i).log.bus = (if i.ulpiNxt then [Bus.byte (usbPidW pid)] else []) ∧
      (y.next pid i).enc.xsend = .crc0 ∧ (y.next pid i).enc.crc16Q = 0xffff := by
  have hpipe : Pipe y [(false, usbPidW pid)] :=
    ⟨h.skid, Or.inr ⟨by rw [h.log]; rfl, pid, [], rfl⟩⟩
  have hmvalid : mvalidW y.enc = true := h.skid.mvalid_eq
  have hmux : mux y.enc (drive pid y.sender i) = muxXpid y.enc (drive pid y.sender i) := by
    simp [mux, h.xsend, h.dir]
  have hno : takes y.enc (drive pid y.sender i) = false := by simp [takes, h.beats]
  obtain ⟨hnext, hbus⟩ := hpipe.next pid i rfl
    (by simp [SkidLoader.loads, skidInputs, hmux, muxXpid, h.hold]) (by simp [hmux, muxXpid])
  have hoff : offered (mux y.enc (drive pid y.sender i)) [(false, usbPidW pid)] = [] := by
    simp [offered, hmux, muxXpid, h.hold, hmvalid, h.beats]
  rw [hoff, List.append_nil] at hnext
  refine ⟨hnext, by rw [hbus, h.log]; rfl, ?_, ?_⟩
  · simp [System.next, step, xsendNext, xsendCase, h.xsend, h.dir, h.hold, h.ended]
  · simp [System.next, step, crc16Next, h.xsend, hno, h.crc]

/-- The PHY leaves the command on the bus, and the CRC comes behind it. -/
theorem Bare.next_stall (h : Bare pid y) (hn : i.ulpiNxt = false) :
    Tracks (usbPidW pid :: crcBytes 0xffff) (y.next pid i) [(false, usbPidW pid)] [] ∧
      (y.next pid i).log.bus = [] ∧ (y.next pid i).enc.xsend = .crc0 := by
  obtain ⟨hpipe, hbus, hx, hcrc⟩ := h.next (i := i)
  rw [hn] at hpipe hbus
  have hstp : ulpiStp y.enc = false := congrArg Prod.fst h.skid.head
  refine ⟨⟨hpipe, by simp, ?_, rfl, ?_, ?_, ?_, hstp, ?_, ?_⟩, hbus, hx⟩
  · simp [Stage, hx]
  · simp [System.next, Sender.next, takes, h.beats, payloadBeats]
  · simp [System.next, Sender.next, h.hold]
  · rw [hbus]
    simp [ahead, hx, hcrc, words, Bus.ofWord]
  · simp [System.next, step, h.xsend]
  · simp [System.next, Log.watch, h.log, Log.start, h.usbDone]

/-- The PHY takes the command, and then finds a cycle in which there is no byte for it. -/
theorem Bare.next_take (h : Bare pid y) (hn : i.ulpiNxt = true) (j : Inputs) :
    Tracks (usbPidW pid :: (if j.ulpiNxt then [ulpiData (y.next pid i).enc] else []) ++
        crcBytes 0xffff) ((y.next pid i).next pid j) [(false, crcLow 0xffff)] [] ∧
      ((y.next pid i).next pid j).log.bus.length = 1 + j.ulpiNxt.toNat ∧
      ((y.next pid i).next pid j).enc.xsend = .crc1 := by
  obtain ⟨hpipe, hbus, hx, hcrc⟩ := h.next (i := i)
  rw [hn] at hpipe hbus
  have hdir : (y.next pid i).enc.dirQ = false := rfl
  have hbeats : (y.next pid i).sender.beats = [] := by
    simp [System.next, Sender.next, takes, h.beats]
  have hhold : (y.next pid i).sender.hold = false := by simp [System.next, Sender.next, h.hold]
  have hdone : (y.next pid i).enc.usbDoneQ = false := by simp [System.next, step, h.xsend]
  have hsent : (y.next pid i).log.sent = 0 := by
    simp [System.next, Log.watch, h.log, Log.start, h.usbDone]
  generalize y.next pid i = y at hpipe hbus hx hcrc hdir hbeats hhold hdone hsent ⊢
  have hsready : ∀ j, sreadyW y.enc j = true := fun _ => hpipe.skid.sready_eq
  have hmux : mux y.enc (drive pid y.sender j) =
      { Mux.none with svalid := true, sdata := crcLow 0xffff } := by
    simp [mux, hx, hdir, hbeats, hcrc, Mux.none]
  have hno : takes y.enc (drive pid y.sender j) = false := by simp [takes, hbeats]
  obtain ⟨hnext, hbus'⟩ := hpipe.next_nil pid j
    (by simp [SkidLoader.loads, skidInputs, hmux, Mux.none]) (by simp [hmux])
  have hoff : offered (mux y.enc (drive pid y.sender j)) [] = [(false, crcLow 0xffff)] := by
    simp [offered, hmux, Mux.none]
  have hx' : (y.next pid j).enc.xsend = .crc1 := by
    simp [System.next, step, xsendNext, xsendCase, hx, hdir, hsready, hmux]
  have hcrc' : (y.next pid j).enc.crc16Q = 0xffff := by
    simp [System.next, step, crc16Next, hx, hno, hcrc]
  rw [hoff] at hnext
  refine ⟨⟨hnext, by simp, ?_, rfl, ?_, ?_, ?_, hpipe.skid.no_last, ?_, ?_⟩, ?_, hx'⟩
  · simp [Stage, hx']
  · simp [System.next, Sender.next, hno, hbeats, payloadBeats]
  · simp [System.next, Sender.next, hhold]
  · rw [hbus', hbus]
    cases j.ulpiNxt <;> simp [ahead, hx', hcrc', words, Bus.ofWord, crcBytes]
  · simp [System.next, step, hx]
  · simp [System.next, Log.watch, hdone, hsent]
  · rw [hbus', hbus]
    cases j.ulpiNxt <;> simp

end Start

/-! ## Whole packets -/

/-- Where a packet is after its first cycles. -/
inductive Phase (bytes : List (BitVec 8)) (y : System) : Prop where
  | tracks (ws rest) (h : Tracks bytes y ws rest)
  | closing (h : Closing bytes y) (hdone : y.enc.usbDoneQ = true) (hsent : y.log.sent = 0)
  | settled (h : Settled bytes y) (hsent : y.log.sent = 1)
  | lost (h : Lost y)

section Runs

variable {pid : BitVec 4} {y : System} {env : ℕ → Inputs} {i : Inputs} {bytes : List (BitVec 8)}

theorem Phase.next (h : Phase bytes y) : Phase bytes (y.next pid i) := by
  cases h with
  | tracks ws rest h =>
      by_cases hstp : ulpiStp y.enc = true
      · obtain ⟨hclose, hdone, hsent⟩ := h.close pid i hstp
        exact .closing hclose hdone hsent
      have hstp : ulpiStp y.enc = false := by simpa using hstp
      by_cases hlost : Waits y.enc ∧ i.lineState = 0
      · exact .lost (h.lose hlost.1 hlost.2)
      · obtain ⟨ws, rest, hnext, -⟩ := h.next pid i hstp (fun hwait hl => hlost ⟨hwait, hl⟩)
        exact .tracks ws rest hnext
  | closing h hdone hsent =>
      obtain ⟨hsettled, hcount, -⟩ := h.next pid i
      exact .settled hsettled (by rw [hcount, hdone, hsent]; rfl)
  | settled h hsent =>
      obtain ⟨hsettled, hcount, -⟩ := h.next pid i
      exact .settled hsettled (by rw [hcount, hsent])
  | lost h => exact .lost h.next

theorem phase_after {t₀ : ℕ} (h : Phase bytes (after pid y env t₀)) {t : ℕ} (ht : t₀ ≤ t) :
    Phase bytes (after pid y env t) := by
  induction t, ht using Nat.le_induction with
  | base => exact h
  | succ t _ ih => exact ih.next

theorem lost_after {t₀ : ℕ} (h : Lost (after pid y env t₀)) {t : ℕ} (ht : t₀ ≤ t) :
    Lost (after pid y env t) := by
  induction t, ht using Nat.le_induction with
  | base => exact h
  | succ t _ ih => exact ih.next

variable (pid y env) in
theorem sent_mono {t u : ℕ} (h : t ≤ u) :
    (after pid y env t).log.sent ≤ (after pid y env u).log.sent := by
  induction u, h using Nat.le_induction with
  | base => exact le_refl _
  | succ u _ ih => exact le_trans ih (Nat.le_add_right _ _)

theorem bus_mono {t u : ℕ} (h : t ≤ u) :
    (after pid y env t).log.bus <+: (after pid y env u).log.bus := by
  induction u, h using Nat.le_induction with
  | base => exact List.prefix_refl _
  | succ u _ ih => exact ih.trans (List.prefix_append _ _)

variable (env) in
theorem nxtCount_mono (first : ℕ) {t u : ℕ} (h : t ≤ u) :
    nxtCount first env t ≤ nxtCount first env u := by
  induction u, h using Nat.le_induction with
  | base => exact le_refl _
  | succ u _ ih => exact le_trans ih (Nat.le_add_right _ _)

/-- A packet that is reported as sent was never lost. -/
theorem not_lost {t : ℕ} (h : (after pid y env t).log.sent = 1) (u : ℕ) :
    ¬ Lost (after pid y env u) := by
  intro hlost
  have hle := sent_mono pid y env (le_max_left t u)
  have hzero := (lost_after hlost (le_max_right t u)).sent
  omega

/-- In cycle `t` a packet is on its way, and the PHY has taken as many bytes as there were cycles
with `nxt`. -/
def Going (bytes : List (BitVec 8)) (first : ℕ) (env : ℕ → Inputs) (t : ℕ) (y : System) : Prop :=
  (∃ ws rest, Tracks bytes y ws rest) ∧ y.log.bus.length = nxtCount first env t

theorem Tracks.waits_length {ws : List (Bool × BitVec 8)} {rest : List (BitVec 8)}
    (h : Tracks bytes y ws rest) (hwait : Waits y.enc) : y.log.bus.length + 1 = bytes.length := by
  obtain ⟨hx, hstp⟩ := hwait
  have hs := h.stage
  simp only [Stage, hx] at hs
  have hlen := h.length_eq
  obtain ⟨rfl, rfl | ⟨b, rfl⟩⟩ := hs
  · exact absurd (h.pipe.stp_eq.symm.trans hstp) (by simp)
  · simp only [ahead, hx, List.length_cons, List.length_nil] at hlen
    omega

/-- One cycle of a packet on its way, and whether the next is one that depends on `LineState`. -/
theorem Going.next {first t : ℕ} (h : Going bytes first env t (after pid y env t))
    (hfirst : first ≤ t) (hstp : ulpiStp (after pid y env t).enc = false)
    (hline : Waits (after pid y env t).enc → (env t).lineState ≠ 0) :
    Going bytes first env (t + 1) (after pid y env (t + 1)) ∧
      (Waits (after pid y env (t + 1)).enc →
        (env t).ulpiNxt = false ∧ nxtCount first env t + 1 = bytes.length) := by
  obtain ⟨⟨ws, rest, htrack⟩, hcount⟩ := h
  obtain ⟨ws', rest', hnext, hlen, hwait⟩ := htrack.next pid _ hstp hline
  have hcount' : (after pid y env (t + 1)).log.bus.length = nxtCount first env (t + 1) := by
    have hyes : decide (first ≤ t) = true := by simpa using hfirst
    rw [nxtCount, hyes, Bool.true_and, ← hcount]
    exact hlen
  refine ⟨⟨⟨ws', rest', hnext⟩, hcount'⟩, fun hw => ?_⟩
  have hstay := hwait hw
  have hlast := hnext.waits_length hw
  refine ⟨hstay, ?_⟩
  rw [hlen, hstay, hcount] at hlast
  exact hlast

/-- With at most one byte left to take, no word follows those in the pipe. -/
theorem Tracks.at_end {ws : List (Bool × BitVec 8)} {rest : List (BitVec 8)}
    (h : Tracks bytes y ws rest) (hlen : bytes.length ≤ y.log.bus.length + 1) :
    y.enc.xsend = .last ∧ rest = [] ∧ (∃ w, ws = [w]) ∧ y.log.bus.length < bytes.length ∨
      y.enc.xsend = .done := by
  have hcount := h.length_eq
  obtain ⟨w, tl, rfl⟩ := List.exists_cons_of_ne_nil h.some
  have hs := h.stage
  cases hx : y.enc.xsend <;>
    simp only [Stage, hx, ahead, words, crcBytes, List.length_append, List.length_map,
      List.length_cons, List.length_nil] at hs hcount
  case last =>
    obtain rfl : tl = [] := List.eq_nil_of_length_eq_zero (by omega)
    exact .inl ⟨rfl, hs.2, ⟨w, rfl⟩, by simp at hcount; omega⟩
  case done => exact .inr rfl
  all_goals omega

variable (pid) in
/-- With one byte left to take, the encoder ends up waiting for it. -/
theorem Tracks.waits_next {ws : List (Bool × BitVec 8)} {rest : List (BitVec 8)}
    (h : Tracks bytes y ws rest) (hlen : y.log.bus.length + 1 = bytes.length)
    (hn : i.ulpiNxt = false) (hstp : ulpiStp y.enc = false)
    (hline : Waits y.enc → i.lineState ≠ 0) : Waits (y.next pid i).enc := by
  obtain ⟨ws', rest', hnext, hlen', -⟩ := h.next pid i hstp hline
  have hx : (y.next pid i).enc.xsend = .done := by
    rcases h.at_end hlen.ge with ⟨hx, rfl, ⟨w, rfl⟩, -⟩ | hx
    · exact h.last_done pid i hx
    · exact h.stays_done pid ⟨hx, hstp⟩ (hline ⟨hx, hstp⟩)
  refine ⟨hx, ?_⟩
  cases hstp' : ulpiStp (y.next pid i).enc
  · rfl
  · obtain ⟨-, rfl, rfl⟩ := hnext.stopped hstp'
    have hcount := hnext.length_eq
    simp only [ahead, hx, List.length_cons, List.length_nil] at hcount
    rw [hlen', hn] at hcount
    simp only [Bool.toNat_false] at hcount
    omega

theorem Tracks.stopped_length {ws : List (Bool × BitVec 8)} {rest : List (BitVec 8)}
    (h : Tracks bytes y ws rest) (hstp : ulpiStp y.enc = true) :
    y.log.bus.length = bytes.length := by
  obtain ⟨hx, rfl, rfl⟩ := h.stopped hstp
  have hcount := h.length_eq
  simp only [ahead, hx, List.length_cons, List.length_nil] at hcount
  omega

/-- The stop is on the bus once the PHY has taken all bytes. -/
theorem Tracks.stp_of_length {ws : List (Bool × BitVec 8)} {rest : List (BitVec 8)}
    (h : Tracks bytes y ws rest) (hlen : bytes.length ≤ y.log.bus.length) :
    ulpiStp y.enc = true := by
  rcases h.at_end (Nat.le_succ_of_le hlen) with ⟨-, -, -, hless⟩ | hx
  · exact absurd hless (Nat.not_lt.mpr hlen)
  · have hcount := h.length_eq
    have hs := h.stage
    simp only [Stage, hx, ahead, List.length_nil] at hs hcount
    obtain ⟨rfl, rfl | ⟨b, rfl⟩⟩ := hs
    · exact h.pipe.stp_eq
    · simp only [List.length_cons, List.length_nil] at hcount
      omega

/-- A packet that is not lost, in cycle `t`. -/
inductive OnTime (bytes : List (BitVec 8)) (first : ℕ) (env : ℕ → Inputs) (t : ℕ) (y : System) :
    Prop where
  | going (h : Going bytes first env t y) (hline : Waits y.enc → (env t).lineState ≠ 0)
  | closing (h : Closing bytes y) (hdone : y.enc.usbDoneQ = true) (hsent : y.log.sent = 0)
  | settled (h : Settled bytes y) (hsent : y.log.sent = 1)

theorem OnTime.next {first t : ℕ} (h : OnTime bytes first env t (after pid y env t))
    (hfirst : first ≤ t)
    (hline : nxtCount first env t + 1 = bytes.length → (env t).ulpiNxt = false →
      (env (t + 1)).lineState ≠ 0) :
    OnTime bytes first env (t + 1) (after pid y env (t + 1)) := by
  cases h with
  | going hgo hwait =>
      cases hstp : ulpiStp (after pid y env t).enc
      · obtain ⟨hgo', hwait'⟩ := hgo.next hfirst hstp hwait
        exact .going hgo' fun hw => hline (hwait' hw).2 (hwait' hw).1
      · obtain ⟨⟨ws, rest, htrack⟩, -⟩ := hgo
        obtain ⟨hclose, hdone, hsent⟩ := htrack.close pid (env t) hstp
        exact .closing hclose hdone hsent
  | closing h hdone hsent =>
      obtain ⟨hsettled, hcount, -⟩ := h.next pid (env t)
      exact .settled hsettled (by rw [after, hcount, hdone, hsent]; rfl)
  | settled h hsent =>
      obtain ⟨hsettled, hcount, -⟩ := h.next pid (env t)
      exact .settled hsettled (by rw [after, hcount, hsent])

theorem OnTime.bus {first t : ℕ} (h : OnTime bytes first env t y) :
    y.log.bus <+: bytes.map Bus.byte ++ [Bus.stop] := by
  cases h with
  | going hgo _ =>
      obtain ⟨⟨ws, rest, htrack⟩, -⟩ := hgo
      exact ⟨_, htrack.bus⟩
  | closing h _ _ => exact ⟨[], by rw [List.append_nil, h.bus]⟩
  | settled h _ => exact ⟨[], by rw [List.append_nil, h.finished.bus]⟩

/-- A packet that is reported found `LineState` high where it had to. -/
theorem line_of_sent {first t₀ : ℕ} (hfirst : first ≤ t₀)
    (h : Going bytes first env t₀ (after pid y env t₀))
    (hno : ∀ t, ¬ Lost (after pid y env t)) {t : ℕ} (ht : t₀ ≤ t)
    (hcount : nxtCount first env t + 1 = bytes.length) (hn : (env t).ulpiNxt = false) :
    (env (t + 1)).lineState ≠ 0 := by
  have hsafe : ∀ u, Going bytes first env u (after pid y env u) →
      Waits (after pid y env u).enc → (env u).lineState ≠ 0 := by
    rintro u ⟨⟨ws, rest, htrack⟩, -⟩ hwait hl
    exact hno (u + 1) (htrack.lose hwait hl)
  have hgoing : ∀ u, t₀ ≤ u → Going bytes first env u (after pid y env u) ∨
      bytes.length ≤ nxtCount first env u := by
    intro u hu
    induction u, hu using Nat.le_induction with
    | base => exact Or.inl h
    | succ u hu ih =>
        rcases ih with hgo | hmany
        · cases hstp : ulpiStp (after pid y env u).enc
          · exact Or.inl (hgo.next (le_trans hfirst hu) hstp (hsafe u hgo)).1
          · obtain ⟨⟨ws, rest, htrack⟩, hlen⟩ := hgo
            right
            rw [← htrack.stopped_length hstp, hlen]
            exact nxtCount_mono env first (by omega)
        · exact Or.inr (le_trans hmany (nxtCount_mono env first (by omega)))
  have hgo := (hgoing t ht).resolve_right (by omega)
  obtain ⟨⟨ws, rest, htrack⟩, hlen⟩ := hgo
  have hstp : ulpiStp (after pid y env t).enc = false := by
    cases hstp : ulpiStp (after pid y env t).enc
    · rfl
    · have hall := htrack.stopped_length hstp
      omega
  have hgo : Going bytes first env t (after pid y env t) := ⟨⟨ws, rest, htrack⟩, hlen⟩
  have hwait := htrack.waits_next pid (by omega) hn hstp (hsafe t hgo)
  exact hsafe (t + 1) (hgo.next (le_trans hfirst ht) hstp (hsafe t hgo)).1 hwait

/-- A packet is on its way in cycle `t₀`, and before that the PHY has not come far. -/
structure Begins (bytes : List (BitVec 8)) (pid : BitVec 4) (y : System) (env : ℕ → Inputs)
    (first t₀ : ℕ) : Prop where
  started : first ≤ t₀
  going : Going bytes first env t₀ (after pid y env t₀)
  early : ¬ Waits (after pid y env t₀).enc
  few : nxtCount first env t₀ + 1 < bytes.length

theorem Begins.line_of_sent {first t₀ t : ℕ} (h : Begins bytes pid y env first t₀)
    (hsent : (after pid y env t).log.sent = 1) :
    ∀ u, nxtCount first env u + 1 = bytes.length → (env u).ulpiNxt = false →
      (env (u + 1)).lineState ≠ 0 := by
  intro u hcount hn
  have hle : t₀ ≤ u := by
    by_contra hlt
    have hmono := nxtCount_mono env first (by omega : u ≤ t₀)
    have hfew := h.few
    omega
  exact UlpiEncoder.line_of_sent h.started h.going (not_lost hsent) hle hcount hn

theorem Begins.onTime {first t₀ t : ℕ} (h : Begins bytes pid y env first t₀)
    (hline : ∀ u, nxtCount first env u + 1 = bytes.length → (env u).ulpiNxt = false →
      (env (u + 1)).lineState ≠ 0) (ht : t₀ ≤ t) :
    OnTime bytes first env t (after pid y env t) := by
  induction t, ht using Nat.le_induction with
  | base => exact .going h.going fun hw => absurd hw h.early
  | succ t ht ih => exact ih.next (le_trans h.started ht) (hline t)

theorem Begins.onlySends {first t₀ : ℕ} (h : Begins bytes pid y env first t₀)
    (hline : ∀ u, nxtCount first env u + 1 = bytes.length → (env u).ulpiNxt = false →
      (env (u + 1)).lineState ≠ 0) : OnlySends pid y env bytes := fun t =>
  (bus_mono (le_max_left t t₀)).trans (h.onTime hline (le_max_right t t₀)).bus

/-- A PHY that takes all bytes of a packet that is not lost sees it to its end. -/
theorem Begins.sent {first t₀ : ℕ} (h : Begins bytes pid y env first t₀)
    (hline : ∀ u, nxtCount first env u + 1 = bytes.length → (env u).ulpiNxt = false →
      (env (u + 1)).lineState ≠ 0) (henough : Enough bytes.length first env) :
    ∃ t, Settled bytes (after pid y env t) ∧ (after pid y env t).log.sent = 1 := by
  obtain ⟨t, ht⟩ := henough
  have hle : t₀ ≤ t := by
    by_contra hlt
    have hmono := nxtCount_mono env first (by omega : t ≤ t₀)
    have hfew := h.few
    omega
  have hone : OnTime bytes first env t (after pid y env t) := h.onTime hline hle
  cases hone with
  | going hgo _ =>
      obtain ⟨⟨ws, rest, htrack⟩, hcount⟩ := hgo
      have hstp := htrack.stp_of_length (by omega)
      obtain ⟨hclose, hdone, hsent⟩ := htrack.close pid (env t) hstp
      obtain ⟨hsettled, hcount, -⟩ := hclose.next pid (env (t + 1))
      exact ⟨t + 2, hsettled, by rw [after, after, hcount, hdone, hsent]; rfl⟩
  | closing hclose hdone hsent =>
      obtain ⟨hsettled, hcount, -⟩ := hclose.next pid (env t)
      exact ⟨t + 1, hsettled, by rw [after, hcount, hdone, hsent]; rfl⟩
  | settled hsettled hsent => exact ⟨t, hsettled, hsent⟩

end Runs

section Packets

variable {s : State} {env : ℕ → Inputs}

theorem fresh_packet (hs : Idle s) (x : BitVec 8) (payload : List (BitVec 8)) :
    Fresh (packetStart s x payload) := ⟨hs, rfl⟩

theorem begins_payload (hs : Idle s) (pid : BitVec 4) (x b : BitVec 8) (bs : List (BitVec 8)) :
    Begins (usbPidW pid :: (b :: bs) ++ crcBytes (crc16s (b :: bs))) pid
      (packetStart s x (b :: bs)) env 1 1 := by
  obtain ⟨htrack, hbus, hx⟩ := (fresh_packet hs x (b :: bs)).next_payload pid
    (env 0) rfl rfl
  refine ⟨le_refl 1, ⟨⟨_, _, htrack⟩, ?_⟩, fun hwait => ?_, ?_⟩
  · rw [after, after, hbus]
    rfl
  · rw [after, after] at hwait
    exact absurd (hx.symm.trans hwait.1) (by simp)
  · simp [nxtCount, crcBytes]

variable (env) in
theorem bare_empty (hs : Idle s) (pid : BitVec 4) (x : BitVec 8) :
    Bare pid (after pid (packetStart s x []) env 2) := by
  have hfresh := fresh_packet hs x []
  have hmux : mux s (drive pid (packetStart s x []).sender (env 0)) = Mux.none := by
    simp [mux, hs.xsend, hs.dir, muxIdle, drive, packetStart, packetBeats]
  obtain ⟨hseen, hsender⟩ := hfresh.next_seen pid (env 0) hmux (by
    right
    simp [packetStart, packetBeats])
  exact hseen.next_empty (by rw [hsender]; rfl) (by rw [hsender]; rfl)

theorem begins_empty (hs : Idle s) (pid : BitVec 4) (x : BitVec 8)
    (h : ¬ ((env 2).ulpiNxt = true ∧ (env 3).ulpiNxt = true)) :
    ∃ t₀, Begins (usbPidW pid :: [] ++ crcBytes (crc16s [])) pid (packetStart s x []) env 2 t₀ := by
  have hbare := bare_empty env hs pid x
  cases hn : (env 2).ulpiNxt
  · obtain ⟨htrack, hbus, hx⟩ := hbare.next_stall hn
    refine ⟨3, by omega, ⟨⟨_, _, htrack⟩, ?_⟩, fun hwait => ?_, ?_⟩
    · rw [after, hbus]
      simp [nxtCount, hn]
    · rw [after] at hwait
      exact absurd (hx.symm.trans hwait.1) (by simp)
    · simp [nxtCount, crcBytes, hn]
  · have hn' : (env 3).ulpiNxt = false := by simpa [hn] using h
    obtain ⟨htrack, hlen, hx⟩ := hbare.next_take hn (env 3)
    rw [hn'] at htrack hlen
    refine ⟨4, by omega, ⟨⟨_, _, htrack⟩, ?_⟩, fun hwait => ?_, ?_⟩
    · rw [after, after, hlen]
      simp [nxtCount, hn, hn']
    · rw [after, after] at hwait
      exact absurd (hx.symm.trans hwait.1) (by simp)
    · simp [nxtCount, crcBytes, hn, hn']

/-- A PHY that takes two bytes in a row at the start of an empty packet takes one too many. -/
theorem empty_spoiled (hs : Idle s) (pid : BitVec 4) (x : BitVec 8)
    (hn : (env 2).ulpiNxt = true) (hn' : (env 3).ulpiNxt = true) :
    ¬ SendsPacket s pid x [] env := by
  rintro ⟨t, bytes, ⟨crc₀, crc₁, rfl, -⟩, hfinished, hsent⟩
  obtain ⟨htrack, -, -⟩ := (bare_empty env hs pid x).next_take hn (env 3)
  have hphase := Phase.tracks _ _ htrack
  have hle : 4 ≤ t := by
    by_contra hlt
    have hmono := sent_mono pid (packetStart s x []) env (by omega : t ≤ 4)
    have hzero := htrack.sent
    rw [hsent] at hmono
    exact absurd hzero (by
      rw [after, after] at hmono
      omega)
  have hlate : Phase _ (after pid (packetStart s x []) env t) := phase_after hphase hle
  cases hlate with
  | tracks ws rest h => simp [h.sent] at hsent
  | closing h hdone hzero => simp [hzero] at hsent
  | settled h _ =>
      have hbus := h.finished.bus.symm.trans hfinished.bus
      have hlen := congrArg List.length hbus
      simp [hn', crcBytes] at hlen
  | lost h => simp [h.sent] at hsent

theorem begins_packet (hs : Idle s) (pid : BitVec 4) (x : BitVec 8) (payload : List (BitVec 8))
    (h : payload = [] → ¬ ((env 2).ulpiNxt = true ∧ (env 3).ulpiNxt = true)) :
    ∃ t₀, Begins (usbPidW pid :: payload ++ crcBytes (crc16s payload)) pid
      (packetStart s x payload) env (commandCycle payload) t₀ := by
  cases payload with
  | nil => exact begins_empty hs pid x (h rfl)
  | cons b bs => exact ⟨1, begins_payload hs pid x b bs⟩

theorem length_packet (pid : BitVec 4) (payload : List (BitVec 8)) :
    (usbPidW pid :: payload ++ crcBytes (crc16s payload)).length = payload.length + 3 := by
  simp [crcBytes]

theorem sendsPacket_iff (hs : Idle s) (pid : BitVec 4) (x : BitVec 8) (payload : List (BitVec 8))
    (henough : Enough (payload.length + 3) (commandCycle payload) env) :
    SendsPacket s pid x payload env ↔ Sound payload env := by
  have hlen := length_packet pid payload
  constructor
  · intro hsends
    have hempty : payload = [] → ¬ ((env 2).ulpiNxt = true ∧ (env 3).ulpiNxt = true) := by
      rintro rfl ⟨hn, hn'⟩
      exact empty_spoiled hs pid x hn hn' hsends
    obtain ⟨t₀, hbegins⟩ := begins_packet hs pid x payload hempty
    obtain ⟨t, bytes, -, -, hsent⟩ := hsends
    exact ⟨hempty, fun u hcount hn => hbegins.line_of_sent hsent u (by omega) hn⟩
  · intro hsound
    obtain ⟨t₀, hbegins⟩ := begins_packet hs pid x payload hsound.empty
    obtain ⟨t, hsettled, hsent⟩ := hbegins.sent
      (fun u hcount hn => hsound.waiting u (by omega) hn) (hlen ▸ henough)
    exact ⟨t, _, packetBytes pid payload, hsettled.finished, hsent⟩

theorem Sound.onlySends (hs : Idle s) (pid : BitVec 4) (x : BitVec 8) {payload : List (BitVec 8)}
    (h : Sound payload env) :
    ∃ bytes, PacketBytes pid payload bytes ∧ OnlySends pid (packetStart s x payload) env bytes := by
  have hlen := length_packet pid payload
  obtain ⟨t₀, hbegins⟩ := begins_packet hs pid x payload h.empty
  exact ⟨_, packetBytes pid payload,
    hbegins.onlySends fun u hcount hn => h.waiting u (by omega) hn⟩

end Packets

end MiscVerilogCores.UlpiEncoder
