import MiscVerilogCores.Verification.Usb.Reception

/-! # DATAx packets

The payload comes out without its PID and its CRC, and the packet is reported as received
exactly when the CRC is that of the payload. -/

namespace MiscVerilogCores.UlpiDecoder

open Clocked Usb

/-- A PID, behind its complement. -/
def pidByte (pid : BitVec 4) : BitVec 8 := ~~~pid ++ pid

@[simp] theorem isPid_pidByte (pid : BitVec 4) : isPid (pidByte pid) = true := by
  revert pid
  decide

@[simp] theorem pidOf_pidByte (pid : BitVec 4) : pidOf (pidByte pid) = pid := by
  revert pid
  decide

/-- What the decoder makes of a DATAx packet: `mid` are its cycles and `last` ends it. -/
structure DataDecoded (s : State) (mid : List Inputs) (last : Inputs) (pid : BitVec 4)
    (payload : List (BitVec 8)) (crc₀ crc₁ : BitVec 8) : Prop where
  data : ((packet s (mid ++ [last])).2.beats.filter Beat.keep).map Beat.data = payload
  ended : ∃ front b, (packet s (mid ++ [last])).2.beats = front ++ [b] ∧ b.last = true ∧
    ∀ b ∈ front, b.last = false
  after : ∀ js, Along step (fun s i => pidVldW s i = false) (packet s (mid ++ [last])).1 js →
    emitted step (fun s i => beat (step s i)) (packet s (mid ++ [last])).1 js = []
  user : ∀ b ∈ (packet s (mid ++ [last])).2.beats, b.user = pid
  residue : (packet s (mid ++ [last])).2.strobes.usb = true ↔
    crc16s (payload ++ [crc₀, crc₁]) = 0x800d
  correct : (packet s (mid ++ [last])).2.strobes.usb = true ↔
    wire crc₀ ++ wire crc₁ = checkBits payload
  held : (packet s mid).1.crcErrorFlag = s.crcErrorFlag
  error : (packet s (mid ++ [last])).1.crcErrorFlag = !(packet s (mid ++ [last])).2.strobes.usb

/-- Between packets nothing is put out. -/
theorem no_beats {s : State} {js : List Inputs} (hcyc : s.cycQ = false)
    (h : Along step (fun s i => pidVldW s i = false) s js) :
    emitted step (fun s i => beat (step s i)) s js = [] := by
  induction js generalizing s with
  | nil => rfl
  | cons i js ih =>
      obtain ⟨hno, hrest⟩ := h
      have hbeat : beat (step s i) = [] := by simp [beat, step, hcyc]
      have hcyc' : (step s i).cycQ = false := by simp [step, hcyc, hno]
      rw [emitted_cons, hbeat, ih hcyc' hrest]
      rfl

theorem class_data {pid : BitVec 4} (h : pidClass pid = pidData) :
    isToken pid = false ∧ isHandshake pid = false := by
  revert pid
  decide

section Decode

variable {s : State} {i : Inputs} {p : BitVec 8} {rest : List (BitVec 8)}

/-- The beat that ends a packet. -/
theorem Locked.last_beat (h : Locked s p rest) (hi : Ending i) :
    beat (step s i) = [⟨false, true, pidOf p, i.undef⟩] := by
  have hno : emits s i = false := by simp [emits, hi.nxt]
  have hvld : pidVldW s i = false := by simp [pidVldW, hi.nxt]
  rw [UlpiDecoder.beat_step hi.reset, h.cyc, if_pos rfl, hno, hi.rxEndW]
  simp [step, hi.reset, hno, hvld, h.tuser]

/-- A data packet that ends sets one of the two reports. -/
theorem Locked.error_data (h : Locked s p rest) (hi : Ending i)
    (hclass : pidClass (pidOf p) = pidData) :
    (step s i).crcErrorFlag = !(strobes (step s i)).usb := by
  obtain ⟨htok, hhsk⟩ := class_data hclass
  simp [step, strobes, flagsNext, hi.reset, hi.rxEndW, h.cyc, h.tok, h.hsk, htok, hhsk]

end Decode

/-- Every DATAx packet, from any state that a run from reset has reached, with any RX CMDs
between its bytes. -/
theorem dataDecoded (s₀ : State) (i₀ : Inputs) (is : List Inputs)
    (hs : Start (reached s₀ i₀ is)) (mid : List Inputs) (last : Inputs)
    (hmid : ∀ i ∈ mid, Receiving i) (hlast : Ending last) (pid : BitVec 4)
    (hpid : pidClass pid = pidData) (payload : List (BitVec 8)) (crc₀ crc₁ : BitVec 8)
    (hbytes : bytes mid = pidByte pid :: payload ++ [crc₀, crc₁]) :
    DataDecoded (reached s₀ i₀ is) mid last pid payload crc₀ crc₁ := by
  have hclean := clean_reached s₀ i₀ is
  have htrack := tracks_packet hs hclean hmid
  have hafter : afterPid (bytes mid) = some (pidByte pid, payload ++ [crc₀, crc₁]) := by
    simp [hbytes, afterPid]
  obtain ⟨hlock, hout⟩ : Locked (packet (reached s₀ i₀ is) mid).1 (pidByte pid)
      (payload ++ [crc₀, crc₁]) ∧
      Output (pidByte pid) (payload ++ [crc₀, crc₁]) (packet (reached s₀ i₀ is) mid).2.beats := by
    have hphase := htrack.phase
    rw [bytes_packet] at hphase
    simpa only [hafter] using hphase
  have hbeats : (packet (reached s₀ i₀ is) (mid ++ [last])).2.beats =
      (packet (reached s₀ i₀ is) mid).2.beats ++ [⟨false, true, pid, last.undef⟩] := by
    rw [packet_concat, Log.watch, hlock.last_beat hlast, pidOf_pidByte]
  have hstrobes := strobes_packet hs hclean hmid hlast
  have husb : (packet (reached s₀ i₀ is) (mid ++ [last])).2.strobes.usb = true ↔
      crc16s (payload ++ [crc₀, crc₁]) = 0x800d := by
    obtain ⟨htok, -⟩ := class_data hpid
    simp [hstrobes, packetStrobes, hafter, lockedStrobes, htok]
  refine ⟨?_, ⟨_, _, hbeats, rfl, hout.last⟩, fun js hjs => ?_, fun b hb => ?_, husb, ?_,
    htrack.error, ?_⟩
  · rw [hbeats, List.filter_append, List.map_append, hout.data]
    simp
  · rw [packet_concat] at hjs ⊢
    exact no_beats hlast.hunting.cyc hjs
  · rw [hbeats] at hb
    rcases List.mem_append.mp hb with hb | hb
    · simpa using hout.user b hb
    · simp [List.mem_singleton.mp hb]
  · rw [husb]
    exact crc16s_residue_iff payload crc₀ crc₁
  · rw [packet_concat]
    simp only [Log.watch, htrack.quiet, Strobes.none_or]
    exact hlock.error_data hlast (by simpa using hpid)

/-- A cycle with `dir` high. -/
def dirCycle (nxt : Bool) (data : BitVec 8) : Inputs where
  reset := false
  lineState := 0
  ulpiDir := true
  ulpiNxt := nxt
  ulpiData := data
  undef := 0

/-- An RX CMD with `RxActive` set. -/
def activeCmd : Inputs := dirCycle false 0x10

/-- `dir` falls. -/
def dirFalls : Inputs := { dirCycle false 0 with ulpiDir := false }

theorem receiving_dirCycle (data : BitVec 8) : Receiving (dirCycle true data) :=
  ⟨rfl, rfl, by simp [dirCycle]⟩

theorem receiving_activeCmd : Receiving activeCmd :=
  ⟨rfl, rfl, fun _ => by decide⟩

/-- The cycles of some bytes, with an RX CMD before each. -/
def spaced (bs : List (BitVec 8)) : List Inputs :=
  bs.flatMap fun b => [activeCmd, dirCycle true b]

theorem receiving_spaced (bs : List (BitVec 8)) : ∀ i ∈ spaced bs, Receiving i := by
  intro i hi
  obtain ⟨b, -, hb⟩ := List.mem_flatMap.mp hi
  rcases List.mem_cons.mp hb with rfl | hb
  · exact receiving_activeCmd
  · rw [List.mem_singleton.mp hb]
    exact receiving_dirCycle b

theorem bytes_spaced (bs : List (BitVec 8)) : bytes (spaced bs) = bs := by
  induction bs with
  | nil => rfl
  | cons b bs ih => simpa [spaced, bytes, activeCmd, dirCycle] using ih

theorem ending_dirFalls : Ending dirFalls :=
  ⟨rfl, rfl, by simp [dirFalls]⟩

/-- A DATA0 packet with one byte and its CRC16, right after reset. -/
theorem dataDecoded_one :
    DataDecoded (reached default activeCmd [activeCmd]) (spaced [0xc3, 0x12, 0xc0, 0xb2]) dirFalls
      0b0011 [0x12] 0xc0 0xb2 :=
  dataDecoded default activeCmd [activeCmd] ⟨by decide, by decide⟩ (spaced [0xc3, 0x12, 0xc0, 0xb2])
    dirFalls (receiving_spaced _) ending_dirFalls 0b0011 rfl [0x12] 0xc0 0xb2
    (bytes_spaced _)

end MiscVerilogCores.UlpiDecoder
