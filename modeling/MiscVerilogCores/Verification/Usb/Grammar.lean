import MiscVerilogCores.Verification.Usb.DataPackets

/-! # What the decoder accepts as a packet

Any byte whose nibbles are complements is taken for the PID while none has been, and the
strobes do not look at the length of the packet: which malformed packets raise a strobe. -/

namespace MiscVerilogCores.UlpiDecoder

open Usb Crc

def sofPid : BitVec 4 := 0b0101

/-! ## The grammar -/

/-- A handshake is one byte. -/
def HandshakePacket (bs : List (BitVec 8)) : Prop :=
  ∃ p, bs = [p] ∧ isPid p = true ∧ isHandshake (pidOf p) = true

/-- The token in two bytes has the right check bits, on the wire behind it. -/
def TokenChecked (b₀ b₁ : BitVec 8) : Prop :=
  wire (b₁.extractLsb' 3 5) =
    (bits (feed poly5 0x1f (wire ((b₁.setWidth 3 : BitVec 3) ++ b₀)))).map not

/-- A token or start of frame is three bytes, of which two are checked. -/
def TokenPacket (pid : BitVec 4 → Prop) (bs : List (BitVec 8)) : Prop :=
  ∃ p b₀ b₁, bs = [p, b₀, b₁] ∧ isPid p = true ∧ pid (pidOf p) ∧ TokenChecked b₀ b₁

/-- A data packet ends with the CRC16 of its payload. -/
def DataPacket (bs : List (BitVec 8)) : Prop :=
  ∃ p payload crc₀ crc₁, bs = p :: payload ++ [crc₀, crc₁] ∧ isPid p = true ∧
    pidClass (pidOf p) = pidData ∧ wire crc₀ ++ wire crc₁ = checkBits payload

/-- Each strobe stands for a packet of its class. -/
structure Lawful (bs : List (BitVec 8)) (st : Strobes) : Prop where
  tok : st.tok = true → TokenPacket (fun pid => isToken pid = true ∧ pid ≠ sofPid) bs
  sof : st.sof = true → TokenPacket (· = sofPid) bs
  hsk : st.hsk = true → HandshakePacket bs
  usb : st.usb = true → DataPacket bs

/-! ## The packets that are decoded by the grammar -/

/-- The byte `p` that is taken for the PID, with `rest` behind it, raises no wrong strobe. -/
structure Sound (regs : BitVec 8 × BitVec 8) (bs : List (BitVec 8)) (p : BitVec 8)
    (rest : List (BitVec 8)) : Prop where
  handshake : isHandshake (pidOf p) = true → bs = [p]
  residue : crc16s rest = 0x800d →
    isToken (pidOf p) = true ∨ pidClass (pidOf p) = pidData ∧ bs = p :: rest
  frame : tokenOk (shifted regs bs) = true → sofMark p rest = true →
    pidOf p = sofPid ∧ bs = p :: rest ∧ rest.length = 2
  token : tokenOk (shifted regs bs) = true → sofMark p rest = false → isToken (pidOf p) = true →
    bs = p :: rest ∧ rest.length = 2

theorem tokenOk_iff (b₀ b₁ : BitVec 8) : tokenOk (b₀, b₁) = true ↔ TokenChecked b₀ b₁ := by
  rw [TokenChecked, ← wire_crc5, tokenOk, beq_iff_eq]
  exact ⟨fun h => congrArg wire h.symm, fun h => (wire_injective h).symm⟩

section Bytes

variable {regs : BitVec 8 × BitVec 8} {bs rest : List (BitVec 8)} {p : BitVec 8}

/-- A packet whose first byte is a PID is locked on to at that byte. -/
theorem eq_of_afterPid (h : afterPid bs = some (p, rest)) {p' : BitVec 8}
    {rest' : List (BitVec 8)} (hbs : bs = p' :: rest') (hp : isPid p' = true) :
    p' = p ∧ rest' = rest := by
  simpa [hbs, afterPid, hp] using h

theorem Lawful.sound (h : Lawful bs (packetStrobes regs bs)) (hafter : afterPid bs = some (p, rest)) :
    Sound regs bs p rest := by
  have hst : packetStrobes regs bs = lockedStrobes (shifted regs bs) p rest := by
    simp [packetStrobes, hafter]
  rw [hst] at h
  refine ⟨fun hh => ?_, fun hc => ?_, fun hok hs => ?_, fun hok hs ht => ?_⟩
  · obtain ⟨p', hbs, hp, -⟩ := h.hsk hh
    rw [hbs, (eq_of_afterPid hafter hbs hp).1]
  · by_cases ht : isToken (pidOf p) = true
    · exact Or.inl ht
    · obtain ⟨p', payload, crc₀, crc₁, hbs, hp, hclass, -⟩ := h.usb (by simp [lockedStrobes, ht, hc])
      obtain ⟨rfl, hrest⟩ := eq_of_afterPid hafter hbs hp
      exact Or.inr ⟨hclass, hrest ▸ hbs⟩
  · obtain ⟨p', b₀, b₁, hbs, hp, hpid, -⟩ := h.sof (by simp [lockedStrobes, hok, hs])
    obtain ⟨rfl, rfl⟩ := eq_of_afterPid hafter hbs hp
    exact ⟨hpid, hbs, rfl⟩
  · obtain ⟨p', b₀, b₁, hbs, hp, -, -⟩ := h.tok (by simp [lockedStrobes, hok, hs, ht])
    obtain ⟨rfl, rfl⟩ := eq_of_afterPid hafter hbs hp
    exact ⟨hbs, rfl⟩

/-- The residue needs two bytes. -/
theorem exists_crc_of_residue (h : crc16s rest = 0x800d) :
    ∃ payload crc₀ crc₁, rest = payload ++ [crc₀, crc₁] := by
  rcases List.eq_nil_or_concat' rest with rfl | ⟨rest, x, rfl⟩
  · exact absurd h (by decide)
  rcases List.eq_nil_or_concat' rest with rfl | ⟨rest, y, rfl⟩
  · have hone : ∀ x : BitVec 8, crc16s [x] ≠ 0x800d := by decide +kernel
    exact absurd h (hone x)
  · exact ⟨rest, y, x, by simp⟩

theorem Sound.lawful (h : Sound regs bs p rest) (hafter : afterPid bs = some (p, rest)) :
    Lawful bs (packetStrobes regs bs) := by
  have hst : packetStrobes regs bs = lockedStrobes (shifted regs bs) p rest := by
    simp [packetStrobes, hafter]
  obtain ⟨-, -, hp, -⟩ := afterPid_eq_some hafter
  have hchecked : ∀ pid : BitVec 4 → Prop, pid (pidOf p) → tokenOk (shifted regs bs) = true →
      bs = p :: rest ∧ rest.length = 2 → TokenPacket pid bs := by
    rintro pid hpid hok ⟨hbs, hlen⟩
    obtain ⟨b₀, b₁, rfl⟩ := List.length_eq_two.mp hlen
    refine ⟨p, b₀, b₁, hbs, hp, hpid, ?_⟩
    rw [hbs] at hok
    exact (tokenOk_iff b₀ b₁).mp hok
  rw [hst]
  refine ⟨fun ht => ?_, fun hs => ?_, fun hh => ?_, fun hu => ?_⟩
  · simp only [lockedStrobes, Bool.and_eq_true, Bool.not_eq_true'] at ht
    obtain ⟨⟨hok, htok⟩, hmark⟩ := ht
    refine hchecked _ ⟨htok, fun hsof => ?_⟩ hok (h.token hok hmark htok)
    have hyes : looksSof p = true := by
      rw [looksSof, hp, hsof]
      decide
    simp [sofMark, hyes] at hmark
  · simp only [lockedStrobes, Bool.and_eq_true] at hs
    obtain ⟨hpid, hrest⟩ := h.frame hs.1 hs.2
    exact hchecked _ hpid hs.1 hrest
  · exact ⟨p, h.handshake hh, hp, hh⟩
  · simp only [lockedStrobes, Bool.and_eq_true, Bool.not_eq_true', beq_iff_eq] at hu
    obtain ⟨hclass, hbs⟩ := (h.residue hu.2).resolve_left (by simp [hu.1])
    obtain ⟨payload, crc₀, crc₁, rfl⟩ := exists_crc_of_residue hu.2
    exact ⟨p, payload, crc₀, crc₁, hbs, hp, hclass, (crc16s_residue_iff _ _ _).mp hu.2⟩

end Bytes

/-- Which packets raise no strobe but that of their class, from any state that a run from reset
has reached: those in which the byte taken for the PID is sound. -/
theorem lawful_iff_sound (s₀ : State) (i₀ : Inputs) (is : List Inputs)
    (hs : Start (reached s₀ i₀ is)) (mid : List Inputs) (last : Inputs)
    (hmid : ∀ i ∈ mid, Receiving i) (hlast : Ending last) :
    Lawful (bytes mid) (packet (reached s₀ i₀ is) (mid ++ [last])).2.strobes ↔
      ∀ p rest, afterPid (bytes mid) = some (p, rest) →
        Sound ((reached s₀ i₀ is).outQ, (reached s₀ i₀ is).datQ) (bytes mid) p rest := by
  rw [strobes_packet hs (clean_reached s₀ i₀ is) hmid hlast]
  constructor
  · intro h p rest hafter
    exact h.sound hafter
  · intro h
    rcases hafter : afterPid (bytes mid) with _ | ⟨p, rest⟩
    · refine ⟨?_, ?_, ?_, ?_⟩ <;> simp [packetStrobes, hafter, Strobes.none]
    · exact (h p rest hafter).lawful hafter

theorem start_reached : Start (reached default activeCmd [activeCmd]) :=
  ⟨by decide, by decide⟩

/-- An ACK raises its strobe. -/
theorem lawful_iff_sound_ack :
    Lawful (bytes (spaced [0xd2]))
        (packet (reached default activeCmd [activeCmd]) (spaced [0xd2] ++ [dirFalls])).2.strobes ↔
      ∀ p rest, afterPid (bytes (spaced [0xd2])) = some (p, rest) →
        Sound ((reached default activeCmd [activeCmd]).outQ,
          (reached default activeCmd [activeCmd]).datQ) (bytes (spaced [0xd2])) p rest :=
  lawful_iff_sound default activeCmd [activeCmd] start_reached (spaced [0xd2]) dirFalls
    (receiving_spaced _) ending_dirFalls

/-- An ACK behind a byte that is no PID raises its strobe all the same. -/
theorem not_alwaysLawful :
    ¬ ∀ (s₀ : State) (i₀ : Inputs) (is : List Inputs), Start (reached s₀ i₀ is) →
      ∀ (mid : List Inputs) (last : Inputs), (∀ i ∈ mid, Receiving i) → Ending last →
        Lawful (bytes mid) (packet (reached s₀ i₀ is) (mid ++ [last])).2.strobes := by
  intro h
  have hlaw := h default activeCmd [activeCmd] start_reached (spaced [0x00, 0xd2]) dirFalls
    (receiving_spaced _) ending_dirFalls
  rw [bytes_spaced] at hlaw
  obtain ⟨p, hbs, -⟩ := hlaw.hsk (by decide)
  simp at hbs

end MiscVerilogCores.UlpiDecoder
