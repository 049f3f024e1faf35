import MiscVerilogCores.Library.Clocked
import MiscVerilogCores.Model.UlpiEncoder
import MiscVerilogCores.Verification.Skid.Contents
import MiscVerilogCores.Verification.Usb.Crc

/-! # Sending a packet

The encoder between the module that feeds it and the PHY. The PHY has no signal that tells it
which cycles carry a byte: once it has taken a transmit command it takes what is on the bus in
every cycle in which it asserts `nxt`, until the encoder stops it. -/

namespace MiscVerilogCores.UlpiEncoder

open Usb

/-! ## The two sides of the encoder -/

/-- A beat of a packet on the input stream. -/
structure Beat where
  keep : Bool
  last : Bool
  data : BitVec 8
deriving DecidableEq

def payloadBeats : List (BitVec 8) → List Beat
  | [] => []
  | b :: bs => ⟨true, bs.isEmpty, b⟩ :: payloadBeats bs

/-- A packet without payload is a single beat, whose data do not matter. -/
def packetBeats (x : BitVec 8) (payload : List (BitVec 8)) : List Beat :=
  if payload = [] then [⟨false, true, x⟩] else payloadBeats payload

/-- Beats of a packet are offered without stalls; `hsk_send` is held until the encoder reports
the handshake as sent. -/
structure Sender where
  beats : List Beat
  hold : Bool

/-- The inputs of a cycle in high-speed mode, with `dir` low and no request to stop the PHY;
`i` has the pins that the sender does not drive. -/
def drive (pid : BitVec 4) (c : Sender) (i : Inputs) : Inputs :=
  { i with
    reset := false
    highSpeed := true
    phyStop := false
    ulpiDir := false
    hskSend := c.hold
    sTvalid := !c.beats.isEmpty
    sTkeep := (c.beats.head?.map Beat.keep).getD i.sTkeep
    sTlast := (c.beats.head?.map Beat.last).getD i.sTlast
    sTdata := (c.beats.head?.map Beat.data).getD i.sTdata
    sTuser := if c.beats.isEmpty && !c.hold then i.sTuser else pid }

section Drive

variable (pid : BitVec 4) (c : Sender) (i : Inputs)

@[simp] theorem drive_reset : (drive pid c i).reset = false := rfl
@[simp] theorem drive_highSpeed : (drive pid c i).highSpeed = true := rfl
@[simp] theorem drive_lineState : (drive pid c i).lineState = i.lineState := rfl
@[simp] theorem drive_phyStop : (drive pid c i).phyStop = false := rfl
@[simp] theorem drive_hskSend : (drive pid c i).hskSend = c.hold := rfl
@[simp] theorem drive_sTvalid : (drive pid c i).sTvalid = !c.beats.isEmpty := rfl
@[simp] theorem drive_ulpiDir : (drive pid c i).ulpiDir = false := rfl
@[simp] theorem drive_ulpiNxt : (drive pid c i).ulpiNxt = i.ulpiNxt := rfl

end Drive

def Sender.next (c : Sender) (s : State) (i : Inputs) : Sender where
  beats := if takes s i then c.beats.tail else c.beats
  hold := c.hold && !s.hskDoneQ

/-- What the PHY sees on the bus: a byte that it takes, or `stp`. -/
inductive Bus where
  | byte (b : BitVec 8)
  | stop
deriving DecidableEq

/-- `listening` from the transmit command on; `sent` and `answered` count the cycles in which
`usb_done_o` and `hsk_done_o` are high. -/
structure Log where
  bus : List Bus
  listening : Bool
  sent : ℕ
  answered : ℕ
deriving DecidableEq

def Log.start : Log := ⟨[], false, 0, 0⟩

/-- The PHY takes what is on the bus, where it waits for a command if it is not yet listening. -/
def taking (m : Log) (s : State) (i : Inputs) : Bool :=
  i.ulpiNxt && (m.listening || (ulpiData s).extractLsb' 6 2 != 0)

def Log.watch (m : Log) (s : State) (i : Inputs) : Log where
  bus := m.bus ++
    if ulpiStp s then [Bus.stop] else if taking m s i then [Bus.byte (ulpiData s)] else []
  listening := !ulpiStp s && (m.listening || taking m s i)
  sent := m.sent + s.usbDoneQ.toNat
  answered := m.answered + s.hskDoneQ.toNat

/-- The encoder, what is still to be sent, and what has been seen. -/
structure System where
  enc : State
  sender : Sender
  log : Log

/-- One clock edge. -/
def System.next (pid : BitVec 4) (y : System) (i : Inputs) : System where
  enc := step y.enc (drive pid y.sender i)
  sender := y.sender.next y.enc (drive pid y.sender i)
  log := y.log.watch y.enc (drive pid y.sender i)

/-- The system after some cycles. -/
def after (pid : BitVec 4) (y : System) (env : ℕ → Inputs) : ℕ → System
  | 0 => y
  | t + 1 => (after pid y env t).next pid (env t)

/-! ## Packets -/

/-- Nothing is being sent, and the registers are ready for a packet. -/
structure Idle (s : State) : Prop where
  xsend : s.xsend = .idle
  dir : s.dirQ = false
  stp : s.stpQ = false
  hskDone : s.hskDoneQ = false
  usbDone : s.usbDoneQ = false
  crc : s.crc16Q = 0xffff
  ended : s.endQ = false
  sready : s.skid.sready = true
  tready : s.skid.tready = true
  mvalid : s.skid.mvalid = false
  tvalid : s.skid.tvalid = false
  mlast : s.skid.mlast = false
  mdata : s.skid.mdata = 0

/-- The transmit command, the payload and its CRC16, the low byte first. -/
def PacketBytes (pid : BitVec 4) (payload bytes : List (BitVec 8)) : Prop :=
  ∃ crc₀ crc₁, bytes = usbPidW pid :: payload ++ [crc₀, crc₁] ∧
    wire crc₀ ++ wire crc₁ = checkBits payload

/-- A state in which all is sent and the encoder is idle again. -/
structure Finished (y : System) (bytes : List (BitVec 8)) : Prop where
  bus : y.log.bus = bytes.map Bus.byte ++ [Bus.stop]
  beats : y.sender.beats = []
  hold : y.sender.hold = false
  idle : Idle y.enc

def packetStart (s : State) (x : BitVec 8) (payload : List (BitVec 8)) : System :=
  ⟨s, ⟨packetBeats x payload, false⟩, Log.start⟩

def handshakeStart (s : State) : System :=
  ⟨s, ⟨[], true⟩, Log.start⟩

/-- The PHY takes exactly the packet, and it is reported once. -/
def SendsPacket (s : State) (pid : BitVec 4) (x : BitVec 8) (payload : List (BitVec 8))
    (env : ℕ → Inputs) : Prop :=
  ∃ t bytes, PacketBytes pid payload bytes ∧
    Finished (after pid (packetStart s x payload) env t) bytes ∧
    (after pid (packetStart s x payload) env t).log.sent = 1

/-- The PHY takes exactly the handshake, and it is reported once. -/
def SendsHandshake (s : State) (pid : BitVec 4) (env : ℕ → Inputs) : Prop :=
  ∃ t, Finished (after pid (handshakeStart s) env t) [usbPidW pid] ∧
    (after pid (handshakeStart s) env t).log.answered = 1

/-- At no time has the PHY seen anything but the beginning of these bytes and their stop. -/
def OnlySends (pid : BitVec 4) (y : System) (env : ℕ → Inputs) (bytes : List (BitVec 8)) : Prop :=
  ∀ t, (after pid y env t).log.bus <+: bytes.map Bus.byte ++ [Bus.stop]

/-- The cycles with `nxt` from the given one on. -/
def nxtCount (first : ℕ) (env : ℕ → Inputs) : ℕ → ℕ
  | 0 => 0
  | t + 1 => nxtCount first env t + (decide (first ≤ t) && (env t).ulpiNxt).toNat

/-- The first cycle with the transmit command on the bus, for a packet that is offered in
cycle 0. -/
def commandCycle (payload : List (BitVec 8)) : ℕ :=
  if payload = [] then 2 else 1

/-- The PHY takes at least this many bytes. -/
def Enough (count first : ℕ) (env : ℕ → Inputs) : Prop :=
  ∃ t, count ≤ nxtCount first env t

/-- When a packet is sent as it should be: the PHY does not take two bytes in a row at the start
of a packet without payload, and `LineState` is not `00` in a cycle after one in which the PHY
left the last byte waiting. -/
structure Sound (payload : List (BitVec 8)) (env : ℕ → Inputs) : Prop where
  empty : payload = [] → ¬ ((env 2).ulpiNxt = true ∧ (env 3).ulpiNxt = true)
  waiting : ∀ t, nxtCount (commandCycle payload) env t = payload.length + 2 →
    (env t).ulpiNxt = false → (env (t + 1)).lineState ≠ 0

/-! ## The words on their way to the PHY -/

/-- What a word of the output registers is on the bus. -/
def Bus.ofWord (w : Bool × BitVec 8) : Bus :=
  if w.1 then .stop else .byte w.2

/-- The word that the multiplexer offers to the output registers, where there is room. -/
def offered (m : Mux) (ws : List (Bool × BitVec 8)) : List (Bool × BitVec 8) :=
  if m.svalid && decide (ws.length ≤ 1) then [(m.slast, m.sdata)] else []

/-- The output registers hold these words, and the PHY listens, or is about to see a command. -/
structure Pipe (y : System) (ws : List (Bool × BitVec 8)) : Prop where
  skid : SkidLoader.Holds y.enc.skid ws
  listening : y.log.listening = true ∨
    y.log.bus = [] ∧ ∃ pid rest, ws = (false, usbPidW pid) :: rest

theorem command_bits (pid : BitVec 4) : ((usbPidW pid).extractLsb' 6 2 != 0) = true := by
  revert pid
  decide

section Pipe

variable {pid : BitVec 4} {y : System} {i : Inputs} {w : Bool × BitVec 8}
  {rest : List (Bool × BitVec 8)}

theorem Pipe.stp_eq (h : Pipe y (w :: rest)) : ulpiStp y.enc = w.1 :=
  congrArg Prod.fst h.skid.head

theorem Pipe.data_eq (h : Pipe y (w :: rest)) : ulpiData y.enc = w.2 :=
  congrArg Prod.snd h.skid.head

theorem Pipe.taking_eq (h : Pipe y (w :: rest)) :
    taking y.log y.enc (drive pid y.sender i) = i.ulpiNxt := by
  rcases h.listening with hl | ⟨-, p, tl, heq⟩
  · simp [taking, drive, hl]
  · obtain ⟨rfl, rfl⟩ := List.cons.inj heq
    rw [taking, h.data_eq, command_bits, Bool.or_true, Bool.and_true]
    rfl

variable (pid i) in
/-- One edge: the PHY takes the first word, and the offered one goes behind the others. -/
theorem Pipe.next (h : Pipe y (w :: rest)) (hw : w.1 = false)
    (hload : SkidLoader.loads skidParams y.enc.skid
      (skidInputs y.enc (drive pid y.sender i)) = false)
    (hlast : (mux y.enc (drive pid y.sender i)).slast = true →
      (mux y.enc (drive pid y.sender i)).svalid = true) :
    Pipe (y.next pid i) ((if i.ulpiNxt then rest else w :: rest) ++
        offered (mux y.enc (drive pid y.sender i)) (w :: rest)) ∧
      (y.next pid i).log.bus = y.log.bus ++ if i.ulpiNxt then [Bus.ofWord w] else [] := by
  have hstp := h.stp_eq.trans hw
  have hbus : (y.next pid i).log.bus = y.log.bus ++ if i.ulpiNxt then [Bus.ofWord w] else [] := by
    simp [System.next, Log.watch, hstp, h.taking_eq, h.data_eq, Bus.ofWord, hw]
  refine ⟨⟨?_, ?_⟩, hbus⟩
  · have hreset : (skidInputs y.enc (drive pid y.sender i)).reset = false := by
      simp [skidInputs, drive, hstp]
    exact h.skid.step hreset hload hlast
  · cases hn : i.ulpiNxt
    · rcases h.listening with hl | ⟨hnil, p, tl, heq⟩
      · left
        simp [System.next, Log.watch, hstp, hl]
      · right
        refine ⟨by rw [hbus, hnil, hn]; rfl, p, ?_⟩
        rw [heq]
        exact ⟨_, rfl⟩
    · left
      simp [System.next, Log.watch, hstp, h.taking_eq, hn]

variable (pid i) in
/-- With nothing held, a PHY that listens takes whatever is on the bus. -/
theorem Pipe.next_nil (h : Pipe y [])
    (hload : SkidLoader.loads skidParams y.enc.skid
      (skidInputs y.enc (drive pid y.sender i)) = false)
    (hlast : (mux y.enc (drive pid y.sender i)).slast = true →
      (mux y.enc (drive pid y.sender i)).svalid = true) :
    Pipe (y.next pid i) (offered (mux y.enc (drive pid y.sender i)) []) ∧
      (y.next pid i).log.bus =
        y.log.bus ++ if i.ulpiNxt then [Bus.byte (ulpiData y.enc)] else [] := by
  have hstp : ulpiStp y.enc = false := h.skid.no_last
  have hlisten : y.log.listening = true := by
    rcases h.listening with hl | ⟨-, p, tl, heq⟩
    · exact hl
    · simp at heq
  have hreset : (skidInputs y.enc (drive pid y.sender i)).reset = false := by
    simp [skidInputs, hstp]
  refine ⟨⟨?_, Or.inl ?_⟩, ?_⟩
  · have hskid := h.skid.step hreset hload hlast
    rw [List.tail_nil, ite_self, List.nil_append] at hskid
    exact hskid
  · simp [System.next, Log.watch, hstp, hlisten]
  · simp [System.next, Log.watch, hstp, taking, hlisten]

end Pipe

/-! ## A packet on its way -/

/-- The words of some bytes, and the stop behind them. -/
def words (bs : List (BitVec 8)) : List (Bool × BitVec 8) :=
  bs.map (Prod.mk false) ++ [(true, 0)]

/-- The bytes that come behind the payload. -/
def crcBytes (crc : BitVec 16) : List (BitVec 8) := [crcLow crc, crcHigh crc]

/-- The words still to be offered, when `rest` of the payload is still to come. -/
def ahead (s : State) (rest : List (BitVec 8)) : List (Bool × BitVec 8) :=
  match s.xsend with
  | .xpid | .data => words (rest ++ crcBytes (rest.foldl (fun c d => crc16 d c) s.crc16Q))
  | .crc0 => words (crcBytes s.crc16Q)
  | .crc1 => words [crcHigh s.crc16Q]
  | .last => words []
  | _ => []

/-- What each state of the encoder says about the words held and the payload to come. -/
def Stage (s : State) (ws : List (Bool × BitVec 8)) (rest : List (BitVec 8)) : Prop :=
  match s.xsend with
  | .xpid => (∀ w ∈ ws, w.1 = false) ∧ ws.length = 2 ∧ s.endQ = rest.isEmpty
  | .data => (∀ w ∈ ws, w.1 = false) ∧ rest ≠ []
  | .crc0 | .crc1 | .last => (∀ w ∈ ws, w.1 = false) ∧ rest = []
  | .done => rest = [] ∧ (ws = [(true, 0)] ∨ ∃ b, ws = [(false, b), (true, 0)])
  | _ => False

/-- The encoder on its way through a packet, of which the PHY is to take `bytes`. -/
structure Tracks (bytes : List (BitVec 8)) (y : System) (ws : List (Bool × BitVec 8))
    (rest : List (BitVec 8)) : Prop where
  pipe : Pipe y ws
  some : ws ≠ []
  stage : Stage y.enc ws rest
  dir : y.enc.dirQ = false
  beats : y.sender.beats = payloadBeats rest
  hold : y.sender.hold = false
  bus : y.log.bus ++ (ws ++ ahead y.enc rest).map Bus.ofWord = bytes.map Bus.byte ++ [Bus.stop]
  stp : y.enc.stpQ = false
  usbDone : y.enc.usbDoneQ = false
  sent : y.log.sent = 0

/-- The encoder waits for the PHY to take the last byte, and `usb_done_o` depends on that it does
not leave its state before. -/
def Waits (s : State) : Prop :=
  s.xsend = .done ∧ ulpiStp s = false

section Tracks

variable {bytes : List (BitVec 8)} {pid : BitVec 4} {y : System} {i : Inputs}
  {w : Bool × BitVec 8} {tl : List (Bool × BitVec 8)} {rest rest' : List (BitVec 8)}

/-- What an edge leaves to be shown: what was offered, and what the new state says. -/
theorem Tracks.edge (h : Tracks bytes y (w :: tl) rest) (pid : BitVec 4) (i : Inputs)
    (hw : w.1 = false)
    (htvalid : (mux y.enc (drive pid y.sender i)).tvalid = false)
    (hlast : (mux y.enc (drive pid y.sender i)).slast = true →
      (mux y.enc (drive pid y.sender i)).svalid = true)
    (ws : List (Bool × BitVec 8)) (rest' : List (BitVec 8))
    (hws : ws = (if i.ulpiNxt then tl else w :: tl) ++
      offered (mux y.enc (drive pid y.sender i)) (w :: tl))
    (hsome : ws ≠ [])
    (hahead : offered (mux y.enc (drive pid y.sender i)) (w :: tl) ++
      ahead (y.next pid i).enc rest' = ahead y.enc rest)
    (hstage : Stage (y.next pid i).enc ws rest')
    (hbeats : (y.next pid i).sender.beats = payloadBeats rest') :
    Tracks bytes (y.next pid i) ws rest' ∧
      (y.next pid i).log.bus.length = y.log.bus.length + i.ulpiNxt.toNat := by
  have hload : SkidLoader.loads skidParams y.enc.skid
      (skidInputs y.enc (drive pid y.sender i)) = false := by
    simp [SkidLoader.loads, skidInputs, htvalid]
  obtain ⟨hpipe, hbus⟩ := h.pipe.next pid i hw hload hlast
  rw [← hws] at hpipe
  have hstp := h.pipe.stp_eq.trans hw
  refine ⟨⟨hpipe, hsome, hstage, rfl, hbeats, ?_, ?_, hstp, ?_, ?_⟩, ?_⟩
  · simp [System.next, Sender.next, h.hold]
  · have hold := h.bus
    rw [← hahead] at hold
    rw [hbus, hws, ← hold]
    cases i.ulpiNxt <;> simp
  · simp [System.next, step, hstp]
  · simp [System.next, Log.watch, h.usbDone, h.sent]
  · rw [hbus]
    cases i.ulpiNxt <;> simp

/-- What one edge makes of a packet on its way, as long as the stop is not on the bus. -/
def Advances (bytes : List (BitVec 8)) (y y' : System) (nxt : Bool) : Prop :=
  ∃ ws rest, Tracks bytes y' ws rest ∧ y'.log.bus.length = y.log.bus.length + nxt.toNat ∧
    (Waits y'.enc → nxt = false)

theorem Tracks.sreadyW_eq {ws : List (Bool × BitVec 8)} (h : Tracks bytes y ws rest)
    (j : Inputs) : sreadyW y.enc j = decide (ws.length ≤ 1) :=
  h.pipe.skid.sready_eq

theorem Tracks.mvalidW_eq (h : Tracks bytes y (w :: tl) rest) : mvalidW y.enc = true :=
  h.pipe.skid.mvalid_eq

theorem plain_edge {tl : List (Bool × BitVec 8)} {w : Bool × BitVec 8} (nxt : Bool)
    (off : List (Bool × BitVec 8)) (h : ∀ v ∈ w :: tl, v.1 = false) (hoff : ∀ v ∈ off, v.1 = false) :
    ∀ v ∈ (if nxt then tl else w :: tl) ++ off, v.1 = false := by
  intro v hv
  rcases List.mem_append.mp hv with hv | hv
  · cases nxt <;> simp only [if_true, Bool.false_eq_true, if_false] at hv
    · exact h v hv
    · exact h v (List.mem_cons_of_mem _ hv)
  · exact hoff v hv

/-- The data of the packet wait behind the command, and nothing is taken. -/
theorem Tracks.next_xpid (h : Tracks bytes y (w :: tl) rest) (hx : y.enc.xsend = .xpid) :
    Advances bytes y (y.next pid i) i.ulpiNxt := by
  obtain ⟨hplain, hlen, hend⟩ : (∀ v ∈ w :: tl, v.1 = false) ∧ (w :: tl).length = 2 ∧
      y.enc.endQ = rest.isEmpty := by
    simpa only [Stage, hx] using h.stage
  obtain ⟨v, rfl⟩ : ∃ v, tl = [v] := by simpa [List.length_eq_one_iff] using hlen
  have hsready : ∀ j, sreadyW y.enc j = false := fun j => by simp [h.sreadyW_eq]
  have hmux : mux y.enc (drive pid y.sender i) = muxXpid y.enc (drive pid y.sender i) := by
    simp [mux, hx, h.dir]
  have hno : takes y.enc (drive pid y.sender i) = false := by
    simp [takes, sTready, hmux, muxXpid, hsready]
  have hoff : offered (mux y.enc (drive pid y.sender i)) [w, v] = [] := by
    simp [offered]
  have hxsend : (y.next pid i).enc.xsend = if rest.isEmpty then .crc0 else .data := by
    simp [System.next, step, xsendNext, xsendCase, hx, h.dir, h.hold, hend, h.mvalidW_eq]
  have hcrc : (y.next pid i).enc.crc16Q = y.enc.crc16Q := by
    simp [System.next, step, crc16Next, hno, hx]
  have hplain' := plain_edge i.ulpiNxt [] hplain (by simp)
  have hstage : Stage (y.next pid i).enc ((if i.ulpiNxt then [v] else [w, v]) ++ []) rest := by
    cases rest <;> simp only [Stage, hxsend, List.isEmpty_nil, List.isEmpty_cons, if_true,
      Bool.false_eq_true, if_false]
    · exact ⟨hplain', trivial⟩
    · exact ⟨hplain', by simp⟩
  obtain ⟨htrack, hbus⟩ := h.edge pid i (hplain w (by simp)) (by simp [hmux, muxXpid, h.hold])
    (by simp [hmux, muxXpid]) _ rest (by rw [hoff]) (by cases i.ulpiNxt <;> simp)
    (by cases rest <;> simp [hoff, ahead, hxsend, hx, hcrc]) hstage
    (by simp [System.next, Sender.next, hno, h.beats])
  refine ⟨_, rest, htrack, hbus, fun hwait => ?_⟩
  have hdone := hwait.1
  rw [hxsend] at hdone
  cases rest <;> simp at hdone

/-- A byte of the payload is taken once there is room for it. -/
theorem Tracks.next_data (h : Tracks bytes y (w :: tl) rest) (hx : y.enc.xsend = .data) :
    Advances bytes y (y.next pid i) i.ulpiNxt := by
  obtain ⟨hplain, hrest⟩ : (∀ v ∈ w :: tl, v.1 = false) ∧ rest ≠ [] := by
    simpa only [Stage, hx] using h.stage
  obtain ⟨b, bs, rfl⟩ := List.exists_cons_of_ne_nil hrest
  have hbeats : y.sender.beats = ⟨true, bs.isEmpty, b⟩ :: payloadBeats bs := h.beats
  have hkeep : (drive pid y.sender i).sTkeep = true := by simp [drive, hbeats]
  have hlast : (drive pid y.sender i).sTlast = bs.isEmpty := by simp [drive, hbeats]
  have hdata : (drive pid y.sender i).sTdata = b := by simp [drive, hbeats]
  have hsready := h.sreadyW_eq (drive pid y.sender i)
  have hmux : mux y.enc (drive pid y.sender i) = muxData y.enc (drive pid y.sender i) := by
    simp [mux, hx, h.dir]
  have htakes : takes y.enc (drive pid y.sender i) = decide ((w :: tl).length ≤ 1) := by
    simp [takes, sTready, hmux, muxData, hsready, hbeats]
  rcases tl with _ | ⟨v, tl⟩
  · have hyes : takes y.enc (drive pid y.sender i) = true := by simp [htakes]
    have hoff : offered (mux y.enc (drive pid y.sender i)) [w] = [(false, b)] := by
      simp [offered, hmux, muxData, Mux.none, hsready, hbeats, hkeep, hdata]
    have hxsend : (y.next pid i).enc.xsend = if bs.isEmpty then .crc0 else .data := by
      cases bs <;>
        simp [System.next, step, xsendNext, xsendCase, hx, h.dir, hkeep, hlast, hsready]
    have hcrc : (y.next pid i).enc.crc16Q = crc16 b y.enc.crc16Q := by
      simp [System.next, step, crc16Next, hyes, hx, hkeep, hdata]
    have hplain' := plain_edge i.ulpiNxt [(false, b)] hplain (by simp)
    have hstage : Stage (y.next pid i).enc ((if i.ulpiNxt then [] else [w]) ++ [(false, b)]) bs := by
      cases bs <;> simp only [Stage, hxsend, List.isEmpty_nil, List.isEmpty_cons, if_true,
        Bool.false_eq_true, if_false]
      · exact ⟨hplain', trivial⟩
      · exact ⟨hplain', by simp⟩
    obtain ⟨htrack, hbus⟩ := h.edge pid i (hplain w (by simp)) (by simp [hmux, muxData, Mux.none])
      (by simp [hmux, muxData, Mux.none]) _ bs (by rw [hoff]) (by simp)
      (by cases bs <;> simp [hoff, ahead, hxsend, hx, hcrc, words]) hstage
      (by simp [System.next, Sender.next, hyes, hbeats])
    refine ⟨_, bs, htrack, hbus, fun hwait => ?_⟩
    have hdone := hwait.1
    rw [hxsend] at hdone
    cases bs <;> simp at hdone
  · have hno : takes y.enc (drive pid y.sender i) = false := by simp [htakes]
    have hoff : offered (mux y.enc (drive pid y.sender i)) (w :: v :: tl) = [] := by
      simp [offered]
    have hxsend : (y.next pid i).enc.xsend = .data := by
      simp [System.next, step, xsendNext, xsendCase, hx, h.dir, hkeep, hsready, hmux, muxData,
        Mux.none]
    have hcrc : (y.next pid i).enc.crc16Q = y.enc.crc16Q := by
      simp [System.next, step, crc16Next, hno, hx]
    have hplain' := plain_edge i.ulpiNxt [] hplain (by simp)
    obtain ⟨htrack, hbus⟩ := h.edge pid i (hplain w (by simp)) (by simp [hmux, muxData, Mux.none])
      (by simp [hmux, muxData, Mux.none]) _ (b :: bs) (by rw [hoff])
      (by cases i.ulpiNxt <;> simp) (by simp [hoff, ahead, hxsend, hx, hcrc])
      (by simp only [Stage, hxsend]; exact ⟨hplain', by simp⟩)
      (by simp [System.next, Sender.next, hno, h.beats])
    refine ⟨_, b :: bs, htrack, hbus, fun hwait => ?_⟩
    simp [Waits, hxsend] at hwait

/-- The states that send what comes behind the payload. -/
def Trails (s : State) : Prop :=
  s.xsend = .crc0 ∨ s.xsend = .crc1 ∨ s.xsend = .last

theorem Tracks.takes_nil {ws : List (Bool × BitVec 8)} (h : Tracks bytes y ws []) :
    takes y.enc (drive pid y.sender i) = false := by
  simp [takes, h.beats, payloadBeats]

variable (pid i) in
theorem Tracks.crc_nil {ws : List (Bool × BitVec 8)} (h : Tracks bytes y ws [])
    (hx : y.enc.xsend ≠ .done) : (y.next pid i).enc.crc16Q = y.enc.crc16Q := by
  simp [System.next, step, crc16Next, hx, h.takes_nil]

variable (pid i) in
theorem Trails.offers (hx : Trails y.enc) (hdir : y.enc.dirQ = false) :
    (mux y.enc (drive pid y.sender i)).svalid = true ∧
      (mux y.enc (drive pid y.sender i)).tvalid = false := by
  rcases hx with hx | hx | hx <;> simp [mux, hx, hdir, Mux.none]

/-- While there is no room nothing changes but the words on the bus. -/
theorem Tracks.next_full (h : Tracks bytes y (w :: tl) []) (hx : Trails y.enc) (htl : tl ≠ []) :
    Advances bytes y (y.next pid i) i.ulpiNxt := by
  have hplain : ∀ v ∈ w :: tl, v.1 = false := by
    have hs := h.stage
    rcases hx with hx | hx | hx <;> simp only [Stage, hx] at hs <;> exact hs.1
  have hno : y.enc.xsend ≠ .done := by
    rcases hx with hx | hx | hx <;> simp [hx]
  have hsready : ∀ j, sreadyW y.enc j = false := fun j => by
    simp [h.sreadyW_eq, htl]
  have hoff : offered (mux y.enc (drive pid y.sender i)) (w :: tl) = [] := by
    simp [offered, htl]
  have hxsend : (y.next pid i).enc.xsend = y.enc.xsend := by
    rcases hx with hx | hx | hx <;>
      simp [System.next, step, xsendNext, xsendCase, hx, h.dir, hsready]
  have hcrc := h.crc_nil pid i hno
  have hplain' := plain_edge i.ulpiNxt [] hplain (by simp)
  have hsome : (if i.ulpiNxt then tl else w :: tl) ++ [] ≠ [] := by cases i.ulpiNxt <;> simp [htl]
  obtain ⟨hsvalid, htvalid⟩ := hx.offers pid i h.dir
  obtain ⟨htrack, hbus⟩ := h.edge pid i (hplain w (by simp)) htvalid (fun _ => hsvalid) _ []
    (by rw [hoff]) hsome (by rw [hoff]; simp [ahead, hxsend, hcrc])
    (by
      rcases hx with hx | hx | hx <;> simp only [Stage, hxsend, hx] <;> exact ⟨hplain', trivial⟩)
    (by simp [System.next, Sender.next, h.takes_nil, h.beats])
  refine ⟨_, [], htrack, hbus, fun hwait => ?_⟩
  exact absurd (hxsend ▸ hwait.1) hno

variable (pid i) in
theorem Tracks.last_done (h : Tracks bytes y [w] []) (hx : y.enc.xsend = .last) :
    (y.next pid i).enc.xsend = .done := by
  simp [System.next, step, xsendNext, xsendCase, hx, h.dir, h.sreadyW_eq, mux, Mux.none]

/-- With room, the next word goes into the output registers. -/
theorem Tracks.next_room (h : Tracks bytes y [w] []) (hx : Trails y.enc) :
    Advances bytes y (y.next pid i) i.ulpiNxt := by
  have hplain : ∀ v ∈ [w], v.1 = false := by
    have hs := h.stage
    rcases hx with hx | hx | hx <;> simp only [Stage, hx] at hs <;> exact hs.1
  have hw := hplain w (by simp)
  have hno : y.enc.xsend ≠ .done := by
    rcases hx with hx | hx | hx <;> simp [hx]
  have hsready : ∀ j, sreadyW y.enc j = true := fun j => by simp [h.sreadyW_eq]
  have hcrc := h.crc_nil pid i hno
  have hbeats : (y.next pid i).sender.beats = payloadBeats [] := by
    simp [System.next, Sender.next, h.takes_nil, h.beats]
  obtain ⟨hsvalid, htvalid⟩ := hx.offers pid i h.dir
  have hmove := h.edge pid i hw htvalid (fun _ => hsvalid)
    ((if i.ulpiNxt then [] else [w]) ++ offered (mux y.enc (drive pid y.sender i)) [w]) [] rfl
    (by simp [offered, hsvalid])
  rcases hx with hx | hx | hx
  · have hxsend : (y.next pid i).enc.xsend = .crc1 := by
      simp [System.next, step, xsendNext, xsendCase, hx, h.dir, hsready, hsvalid]
    have hoff : offered (mux y.enc (drive pid y.sender i)) [w] = [(false, crcLow y.enc.crc16Q)] := by
      simp [offered, mux, hx, h.dir, Mux.none]
    rw [hoff] at hmove
    obtain ⟨htrack, hbus⟩ := hmove (by simp [ahead, hxsend, hx, hcrc, words, crcBytes])
      (by
        simp only [Stage, hxsend]
        exact ⟨plain_edge i.ulpiNxt _ hplain (by simp), trivial⟩) hbeats
    exact ⟨_, [], htrack, hbus, fun hwait => by simp [Waits, hxsend] at hwait⟩
  · have hxsend : (y.next pid i).enc.xsend = .last := by
      simp [System.next, step, xsendNext, xsendCase, hx, h.dir, hsready, hsvalid]
    have hoff : offered (mux y.enc (drive pid y.sender i)) [w] =
        [(false, crcHigh y.enc.crc16Q)] := by
      simp [offered, mux, hx, h.dir, Mux.none]
    rw [hoff] at hmove
    obtain ⟨htrack, hbus⟩ := hmove (by simp [ahead, hxsend, hx, words])
      (by
        simp only [Stage, hxsend]
        exact ⟨plain_edge i.ulpiNxt _ hplain (by simp), trivial⟩) hbeats
    exact ⟨_, [], htrack, hbus, fun hwait => by simp [Waits, hxsend] at hwait⟩
  · have hxsend := h.last_done pid i hx
    have hoff : offered (mux y.enc (drive pid y.sender i)) [w] = [(true, 0)] := by
      simp [offered, mux, hx, h.dir, Mux.none]
    rw [hoff] at hmove
    obtain ⟨htrack, hbus⟩ := hmove (by simp [ahead, hxsend, hx, words])
      (by
        simp only [Stage, hxsend]
        obtain ⟨last, b⟩ := w
        obtain rfl : last = false := hw
        cases i.ulpiNxt
        · exact ⟨trivial, Or.inr ⟨b, rfl⟩⟩
        · exact ⟨trivial, Or.inl rfl⟩) hbeats
    refine ⟨_, [], htrack, hbus, fun hwait => ?_⟩
    cases hn : i.ulpiNxt
    · rfl
    · rw [hn] at htrack
      exact absurd (htrack.pipe.stp_eq.symm.trans hwait.2) (by simp)

variable (pid) in
theorem Tracks.stays_done {ws : List (Bool × BitVec 8)} (h : Tracks bytes y ws rest)
    (hx : Waits y.enc) (hline : i.lineState ≠ 0) : (y.next pid i).enc.xsend = .done := by
  obtain ⟨hx, hstp⟩ := hx
  have hzero : (i.lineState == 0) = false := by simpa using hline
  simp only [System.next, step, xsendNext, xsendCase, hx, h.dir, h.stp, drive_reset,
    drive_ulpiDir, drive_lineState, hzero]
  simp

/-- While the encoder waits for the last byte to be taken it has to find `LineState` high. -/
theorem Tracks.next_done (h : Tracks bytes y (w :: tl) rest) (hx : Waits y.enc)
    (hline : i.lineState ≠ 0) : Advances bytes y (y.next pid i) i.ulpiNxt := by
  have hxsend := h.stays_done pid hx hline
  obtain ⟨hx, hstp⟩ := hx
  obtain ⟨rfl, hws⟩ : rest = [] ∧ (w :: tl = [(true, 0)] ∨ ∃ b, w :: tl = [(false, b), (true, 0)]) := by
    simpa only [Stage, hx] using h.stage
  have hw : w.1 = false := h.pipe.stp_eq.symm.trans hstp
  obtain ⟨b, hws⟩ : ∃ b, w :: tl = [(false, b), (true, 0)] := by
    rcases hws with hws | hws
    · simp [(List.cons.inj hws).1] at hw
    · exact hws
  obtain ⟨rfl, rfl⟩ := List.cons.inj hws
  have hmux : mux y.enc (drive pid y.sender i) = Mux.none := by simp [mux, hx, h.dir]
  have hoff : offered (mux y.enc (drive pid y.sender i)) [(false, b), (true, 0)] = [] := by
    simp [offered]
  obtain ⟨htrack, hbus⟩ := h.edge pid i rfl (by rw [hmux]; rfl) (by simp [hmux, Mux.none]) _ []
    (by rw [hoff]) (by cases i.ulpiNxt <;> simp) (by rw [hoff]; simp [ahead, hxsend, hx])
    (by
      simp only [Stage, hxsend]
      cases i.ulpiNxt
      · exact ⟨trivial, Or.inr ⟨b, rfl⟩⟩
      · exact ⟨trivial, Or.inl rfl⟩)
    (by simp [System.next, Sender.next, h.takes_nil, h.beats])
  refine ⟨_, [], htrack, hbus, fun hwait => ?_⟩
  cases hn : i.ulpiNxt
  · rfl
  · rw [hn] at htrack
    exact absurd (htrack.pipe.stp_eq.symm.trans hwait.2) (by simp)

variable (pid i) in
/-- A packet goes on until the stop is on the bus, unless the encoder leaves its last state too
early. -/
theorem Tracks.next {ws : List (Bool × BitVec 8)} (h : Tracks bytes y ws rest)
    (hstp : ulpiStp y.enc = false) (hline : Waits y.enc → i.lineState ≠ 0) :
    Advances bytes y (y.next pid i) i.ulpiNxt := by
  obtain ⟨w, tl, rfl⟩ := List.exists_cons_of_ne_nil h.some
  have htrails : Trails y.enc → Advances bytes y (y.next pid i) i.ulpiNxt := by
    intro hx
    obtain rfl : rest = [] := by
      have hs := h.stage
      rcases hx with hx | hx | hx <;> simp only [Stage, hx] at hs <;> exact hs.2
    rcases tl with _ | ⟨v, tl⟩
    · exact h.next_room hx
    · exact h.next_full hx (by simp)
  cases hx : y.enc.xsend with
  | xpid => exact h.next_xpid hx
  | data => exact h.next_data hx
  | crc0 => exact htrails (Or.inl hx)
  | crc1 => exact htrails (Or.inr (Or.inl hx))
  | last => exact htrails (Or.inr (Or.inr hx))
  | done => exact h.next_done ⟨hx, hstp⟩ (hline ⟨hx, hstp⟩)
  | idle | init | regw | stop => exact absurd h.stage (by simp [Stage, hx])

/-- The stop is the last word of a packet. -/
theorem Tracks.stopped {ws : List (Bool × BitVec 8)} (h : Tracks bytes y ws rest)
    (hstp : ulpiStp y.enc = true) : y.enc.xsend = .done ∧ ws = [(true, 0)] ∧ rest = [] := by
  obtain ⟨w, tl, rfl⟩ := List.exists_cons_of_ne_nil h.some
  have hw : w.1 = true := h.pipe.stp_eq.symm.trans hstp
  have hno : ¬ ∀ v ∈ w :: tl, v.1 = false := fun hall => by simp [hall w] at hw
  have hs := h.stage
  cases hx : y.enc.xsend <;> simp only [Stage, hx] at hs
  case done =>
    obtain ⟨hrest, hws | ⟨b, hws⟩⟩ := hs
    · exact ⟨rfl, hws, hrest⟩
    · simp [(List.cons.inj hws).1] at hw
  all_goals exact absurd hs.1 hno

/-- The bytes that the PHY has taken, and the words that are still to come. -/
theorem Tracks.length_eq {ws : List (Bool × BitVec 8)} (h : Tracks bytes y ws rest) :
    y.log.bus.length + ws.length + (ahead y.enc rest).length = bytes.length + 1 := by
  have hlen := congrArg List.length h.bus
  simpa [← Nat.add_assoc] using hlen

end Tracks

end MiscVerilogCores.UlpiEncoder
