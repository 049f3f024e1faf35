import MiscVerilogCores.Library.Packets
import MiscVerilogCores.Verification.BulkIn.Delivery

/-! # Framing of a bulk IN end-point

The receiver marks the last word of every packet. As long as no frame is longer than the
receive counter can count, its marks are those of the stream cut into packets, and the
transmit counter tells a frame that needs a zero-data packet from the others. -/

namespace MiscVerilogCores.BulkIn

open Clocked PacketFifo RingMemory Packets

variable {ABITS : ℕ} {p : Params} {s : State ABITS p} {i : Inputs} {m : Log}

/-! ## When frames are kept apart -/

/-- A frame fits the receive counter; only with a full counter it fills a packet, and its
length is not taken for that of the next one. The end-point is polled when it has a packet,
and hears the answers to its own packets only. -/
structure Framed (s : State ABITS p) (i : Inputs) : Prop where
  fits : (i.sTvalid && treadyW s) = true → rcountMax s = true → i.sTlast = true
  whole : (i.sTvalid && treadyW s) = true → i.sTlast = true →
    s.rcount.toNat + 1 = p.maxPacketLength → p.maxPacketLength = 2 ^ p.cbits
  apart : (i.sTvalid && treadyW s) = true → i.sTlast = false → s.fifo.saveQ = true →
    chunkW (fifoParams p) s.fifo (fifoInputs s i) = false
  polled : s.send = .idle → i.selectedI = true → tvalidR s = true
  answered : s.send = .wait → (i.ackRecvI || i.timedoutI) = true → i.selectedI = true

/-- The transmitter does not begin with a zero-data packet. -/
structure NoneDue (s : State ABITS p) (i : Inputs) : Prop where
  send : s.send ≠ .none
  zdpQ : s.zdpQ = false
  polled : s.send = .idle → i.selectedI = true → tvalidR s = true

def KeepsFrames (s : State ABITS p) (i : Inputs) : Prop :=
  if s.rstQ then NoneDue s i else Framed s i

theorem KeepsFrames.noneDue (h : KeepsFrames s i) (hr : s.rstQ = true) : NoneDue s i := by
  simpa [KeepsFrames, hr] using h

theorem KeepsFrames.framed (h : KeepsFrames s i) (hr : s.rstQ = false) : Framed s i := by
  simpa [KeepsFrames, hr] using h

instance (s : State ABITS p) (i : Inputs) : Decidable (Framed s i) :=
  decidable_of_iff (((i.sTvalid && treadyW s) = true → rcountMax s = true → i.sTlast = true) ∧
    ((i.sTvalid && treadyW s) = true → i.sTlast = true →
      s.rcount.toNat + 1 = p.maxPacketLength → p.maxPacketLength = 2 ^ p.cbits) ∧
    ((i.sTvalid && treadyW s) = true → i.sTlast = false → s.fifo.saveQ = true →
      chunkW (fifoParams p) s.fifo (fifoInputs s i) = false) ∧
    (s.send = .idle → i.selectedI = true → tvalidR s = true) ∧
    (s.send = .wait → (i.ackRecvI || i.timedoutI) = true → i.selectedI = true))
    ⟨fun ⟨h₁, h₂, h₃, h₄, h₅⟩ => ⟨h₁, h₂, h₃, h₄, h₅⟩,
      fun ⟨h₁, h₂, h₃, h₄, h₅⟩ => ⟨h₁, h₂, h₃, h₄, h₅⟩⟩

instance (s : State ABITS p) (i : Inputs) : Decidable (NoneDue s i) :=
  decidable_of_iff (s.send ≠ .none ∧ s.zdpQ = false ∧
    (s.send = .idle → i.selectedI = true → tvalidR s = true))
    ⟨fun ⟨h₁, h₂, h₃⟩ => ⟨h₁, h₂, h₃⟩, fun ⟨h₁, h₂, h₃⟩ => ⟨h₁, h₂, h₃⟩⟩

instance (s : State ABITS p) (i : Inputs) : Decidable (KeepsFrames s i) :=
  inferInstanceAs (Decidable (if s.rstQ = true then NoneDue s i else Framed s i))

/-! ## The receive counter -/

theorem maxPacketLength_le : p.maxPacketLength ≤ 2 ^ p.cbits :=
  Nat.le_pow_clog Nat.one_lt_two _

theorem pow_cbits_lt (hM : 0 < p.maxPacketLength) : 2 ^ p.cbits < 2 * p.maxPacketLength := by
  by_cases h1 : 1 < p.maxPacketLength
  · have hlt : 2 ^ (p.cbits - 1) < p.maxPacketLength := Nat.pow_pred_clog_lt_self Nat.one_lt_two h1
    have hpos : 0 < p.cbits := Nat.clog_pos Nat.one_lt_two h1
    have hpow : 2 ^ p.cbits = 2 * 2 ^ (p.cbits - 1) := by
      rw [← Nat.pow_succ', Nat.succ_eq_add_one, Nat.sub_add_cancel hpos]
    omega
  · have heq : p.maxPacketLength = 1 := by omega
    simp [Params.cbits, heq]

theorem rcountMax_iff : rcountMax s = true ↔ s.rcount.toNat + 1 = 2 ^ p.cbits := by
  have hpos := Nat.two_pow_pos p.cbits
  rw [rcountMax, beq_iff_eq, ← BitVec.toNat_inj, BitVec.toNat_allOnes]
  omega

theorem scountMax_iff : scountMax s = true ↔ s.scount.toNat + 1 = 2 ^ p.cbits := by
  have hpos := Nat.two_pow_pos p.cbits
  rw [scountMax, beq_iff_eq, ← BitVec.toNat_inj, BitVec.toNat_allOnes]
  omega

/-- The length of the unfinished packet of a frame of which `n` items have come. -/
def chunkLength (M n : ℕ) : ℕ := if n < M then n else n - M

/-- A packet is full when the counter says so: the second packet of a frame never is. -/
theorem chunkLength_full_iff (hM : 0 < p.maxPacketLength) :
    chunkLength p.maxPacketLength s.rcount.toNat + 1 = p.maxPacketLength ↔
      s.rcount.toNat + 1 = p.maxPacketLength := by
  have hlt := s.rcount.isLt
  have hpow := pow_cbits_lt hM
  rw [chunkLength]
  split <;> omega

theorem chunkLength_succ (hM : 0 < p.maxPacketLength) :
    chunkLength p.maxPacketLength (s.rcount.toNat + 1) =
      if chunkLength p.maxPacketLength s.rcount.toNat + 1 = p.maxPacketLength then 0
      else chunkLength p.maxPacketLength s.rcount.toNat + 1 := by
  have hlt := s.rcount.isLt
  have hpow := pow_cbits_lt hM
  simp only [chunkLength]
  split <;> split <;> split <;> omega

/-! ## The marks of the receiver -/

/-- The words of the FIFO are those accepted, each with the mark that ends its packet. -/
structure Chunked (s : State ABITS p) (m : Log) : Prop where
  length : m.traffic.accepted.length = m.ledger.words.length + s.fifo.xvld.toNat
  words : ∀ k < m.ledger.words.length,
    m.ledger.words[k]? = marked p.maxPacketLength m.traffic.accepted k
  held : s.fifo.xvld = true → m.ledger.words.length < m.ledger.saved + 2 ^ ABITS →
    marked p.maxPacketLength m.traffic.accepted m.ledger.words.length =
      some (s.fifo.xlst, s.fifo.xdat)
  saveQ : s.fifo.saveQ = true → s.fifo.xvld = true ∧ s.fifo.xlst = true ∧ s.rcount = 0
  xmax : s.fifo.xmax = true → s.fifo.xlst = true
  offset : s.fifo.saveQ = false →
    m.ledger.words.length + s.fifo.xvld.toNat = m.ledger.saved + s.rcount.toNat
  chunk : (cut p.maxPacketLength m.traffic.accepted).chunk.length =
    chunkLength p.maxPacketLength s.rcount.toNat
  whole : ∀ k v, m.traffic.accepted[k]? = some v →
    (cut p.maxPacketLength (m.traffic.accepted.take k)).chunk.length + 1 = p.maxPacketLength →
      (v.1 = true ↔ p.maxPacketLength = 2 ^ p.cbits)

section Receive

/-- The end-point takes a word from the source. -/
def captured (s : State ABITS p) (i : Inputs) : Bool := i.sTvalid && treadyW s

/-- The held word ends its packet. -/
def heldLast (s : State ABITS p) : Bool := s.fifo.xvld && s.fifo.xlst

theorem saveW_eq (hf : Framed s i) : saveW s i = (captured s i && i.sTlast) := by
  have hfits := hf.fits
  cases hc : (i.sTvalid && treadyW s) <;> cases hl : i.sTlast <;> cases hm : rcountMax s <;>
    simp_all [saveW, captured]

namespace Chunked

theorem releaseA_eq (h : Chunked s m) : releaseA (fifoParams p) s.fifo = heldLast s := by
  have hsave := h.saveQ
  cases hx : s.fifo.xvld <;> cases hsq : s.fifo.saveQ <;>
    simp_all [releaseA, heldLast, fifoParams]

/-- A held word is stored when the next one comes or when it ends its packet. -/
theorem storeW_eq (h : Chunked s m) (hl : Lossless m s i) :
    storeW (fifoParams p) s.fifo (fifoInputs s i) =
      (s.fifo.xvld && (captured s i || heldLast s)) := by
  have hrel := hl.release
  rw [h.releaseA_eq] at hrel
  have hsave := h.saveQ
  cases hx : s.fifo.xvld <;> cases hw : s.fifo.wready <;> cases hsq : s.fifo.saveQ <;>
    cases hxl : s.fifo.xlst <;>
    simp_all [storeW, heldLast, captured, treadyW, PacketFifo.sTready, fifoParams, fifoInputs]

theorem wordW_eq (h : Chunked s m) :
    wordW (fifoParams p) s.fifo (fifoInputs s i) = (s.fifo.xlst, s.fifo.xdat) := by
  have hsave := h.saveQ
  have hmax := h.xmax
  cases hsq : s.fifo.saveQ <;> cases hxm : s.fifo.xmax <;>
    simp_all [wordW, lastW, dataW, fifoParams]

theorem stored_eq (h : Chunked s m) (hl : Lossless m s i) :
    stored (fifoParams p) s.fifo (fifoInputs s i) =
      if s.fifo.xvld && (captured s i || heldLast s) then [(s.fifo.xlst, s.fifo.xdat)] else [] := by
  rw [stored, h.storeW_eq hl, h.wordW_eq]
  simp [rejectA, fifoInputs]

end Chunked

theorem xvld_step (h : Chunked s m) (hr : s.rstQ = false) :
    (step s i).fifo.xvld = (captured s i || (s.fifo.xvld && !heldLast s)) := by
  have hrel := h.releaseA_eq
  simp only [fifoParams] at hrel
  simp [step, PacketFifo.step, fifoParams, fifoInputs, hr, hrel, captureA, captured, treadyW,
    PacketFifo.sTready]
  cases i.sTvalid <;> simp

theorem xlst_step (h : Chunked s m) (hr : s.rstQ = false) (hf : Framed s i) :
    (step s i).fifo.xlst =
      if captured s i then i.sTlast || chunkW (fifoParams p) s.fifo (fifoInputs s i)
      else s.fifo.xlst && !heldLast s := by
  have hrel := h.releaseA_eq
  have hsave := saveW_eq hf
  simp only [fifoParams] at hrel
  simp [step, PacketFifo.step, fifoParams, fifoInputs, hr, hrel, captureA, hsave, captured,
    treadyW, PacketFifo.sTready]
  cases i.sTvalid <;> cases s.fifo.wready <;> cases i.sTlast <;> simp

theorem saveQ_step (hr : s.rstQ = false) (hf : Framed s i) :
    (step s i).fifo.saveQ = (captured s i && i.sTlast) := by
  have hsave := saveW_eq hf
  simp [step, PacketFifo.step, PacketFifo.saveW, fifoParams, fifoInputs, hr, hsave, captured,
    treadyW, PacketFifo.sTready]

theorem xmax_step (h : Chunked s m) (hr : s.rstQ = false) :
    (step s i).fifo.xmax =
      if captured s i then chunkW (fifoParams p) s.fifo (fifoInputs s i)
      else s.fifo.xmax && !heldLast s := by
  have hrel := h.releaseA_eq
  simp only [fifoParams] at hrel
  simp [step, PacketFifo.step, fifoParams, fifoInputs, hr, hrel, captureA, captured, treadyW,
    PacketFifo.sTready]
  cases i.sTvalid <;> cases s.fifo.wready <;> simp

theorem xdat_step (hr : s.rstQ = false) :
    (step s i).fifo.xdat = if captured s i then i.sTdata else s.fifo.xdat := by
  simp [step, PacketFifo.step, fifoParams, fifoInputs, hr, captureA, captured, treadyW,
    PacketFifo.sTready]
  cases i.sTvalid <;> simp

theorem rcount_step (hi : Polled i) (hen : p.enabled = true) :
    (step s i).rcount =
      if captured s i then (if i.sTlast then 0 else s.rcount + 1) else s.rcount := by
  simp [step, hi.setConfI, hen, captured]

theorem toNat_add_one {w : ℕ} {x : BitVec w} (h : x.toNat + 1 < 2 ^ w) :
    (x + 1).toNat = x.toNat + 1 := by
  rw [BitVec.toNat_add, BitVec.ofNat_eq_ofNat, BitVec.toNat_ofNat, Nat.add_mod_mod,
    Nat.mod_eq_of_lt h]

/-- Inside a frame the counter does not wrap. -/
theorem rcount_succ (hf : Framed s i) (hcap : captured s i = true) (hlast : i.sTlast = false) :
    (s.rcount + 1).toNat = s.rcount.toNat + 1 := by
  have hlt := s.rcount.isLt
  have hne : s.rcount.toNat + 1 ≠ 2 ^ p.cbits := by
    intro heq
    simp [hf.fits hcap (rcountMax_iff.mpr heq)] at hlast
  exact toNat_add_one (by omega)

/-- The FIFO measures the frame from its committed words on. -/
theorem chunkW_captured (h : Delivering s m) (hc : Chunked s m) (hl : Lossless m s i)
    (hcap : captured s i = true) (hsave : s.fifo.saveQ = false)
    (hroom : m.ledger.words.length + s.fifo.xvld.toNat < m.ledger.saved + 2 ^ ABITS) :
    chunkW (fifoParams p) s.fifo (fifoInputs s i) = true ↔
      s.rcount.toNat + 1 = p.maxPacketLength := by
  obtain ⟨rd, hs⟩ := h.replay.stream
  have hsaved := hs.stored.saved_le
  have hlen : (wordsNext (fifoParams p) s.fifo (fifoInputs s i) m.ledger.words
      m.ledger.saved).length = m.ledger.words.length + s.fifo.xvld.toNat := by
    rw [wordsNext, hc.stored_eq hl, hcap]
    cases s.fifo.xvld <;> simp [rejectA, fifoInputs]
  have hoffset := hc.offset hsave
  have hsub := toNat_ptr_sub (A := ABITS)
    (show m.ledger.saved ≤ m.ledger.words.length + s.fifo.xvld.toNat by omega) hroom.le
  have hsize : (wsize (fifoParams p) s.fifo (fifoInputs s i)).toNat = s.rcount.toNat := by
    rw [wsize, hs.stored.waddrNext_eq rfl, hlen, hs.stored.paddr, BitVec.toNat_setWidth, hsub,
      Nat.mod_eq_of_lt (by omega)]
    omega
  rw [chunkW, hsize]
  simp [fifoParams]

theorem accepted_watch (hl : Lossless m s i) : (m.watch s i).traffic.accepted =
    m.traffic.accepted ++ if captured s i then [(i.sTlast, i.sTdata)] else [] := by
  simp [Log.watch, Traffic.watch, accepted_eq hl, captured]

theorem words_watch (hc : Chunked s m) (hr : s.rstQ = false) (hl : Lossless m s i) :
    (m.watch s i).ledger.words = m.ledger.words ++
        (if s.fifo.xvld && (captured s i || heldLast s) then [(s.fifo.xlst, s.fifo.xdat)] else []) ∧
      (m.watch s i).ledger.saved =
        if s.fifo.saveQ then (m.watch s i).ledger.words.length else m.ledger.saved := by
  simp only [Log.watch, hr, Bool.false_eq_true, if_false, Ledger.watch]
  refine ⟨?_, ?_⟩
  · rw [wordsNext, hc.stored_eq hl]
    simp [rejectA, fifoInputs]
  · simp [savedNext, acceptA, fifoParams]

/-- A word that is stored has the mark of its place in the stream. -/
theorem Chunked.words_next (hc : Chunked s m) (h : Delivering s m) (hl : Lossless m s i) :
    ∀ k < (m.watch s i).ledger.words.length, (m.watch s i).ledger.words[k]? =
      marked p.maxPacketLength (m.watch s i).traffic.accepted k := by
  obtain ⟨rd, hs⟩ := h.replay.stream
  have hlen := hc.length
  intro k hk
  rw [accepted_watch hl]
  by_cases hold : k < m.ledger.words.length
  · rw [marked_append _ (by omega), ← hc.words k hold, (words_watch hc h.ready.rstQ hl).1,
      List.getElem?_append_left hold]
  · cases hst : (s.fifo.xvld && (captured s i || heldLast s)) with
    | false =>
        rw [(words_watch hc h.ready.rstQ hl).1, hst] at hk
        simp at hk
        omega
    | true =>
        have hroom := hs.stored.room hl.room (by rw [hc.storeW_eq hl, hst]) rfl
        have hrd := hs.stored.rd_le
        have hx : s.fifo.xvld = true := by
          simp only [Bool.and_eq_true] at hst
          exact hst.1
        rw [(words_watch hc h.ready.rstQ hl).1, hst] at hk
        simp only [if_true, List.length_append, List.length_singleton] at hk
        have hnew : k = m.ledger.words.length := by omega
        rw [hx, Bool.toNat_true] at hlen
        rw [(words_watch hc h.ready.rstQ hl).1, hst, hnew, marked_append _ (by omega),
          hc.held hx (by omega)]
        simp

/-- The mark of a word when it is taken from the source. -/
theorem mark_captured (hc : Chunked s m) (h : Delivering s m) (hM : 0 < p.maxPacketLength)
    (hl : Lossless m s i) (hf : Framed s i) (hcap : captured s i = true)
    (hroom : m.ledger.words.length + s.fifo.xvld.toNat < m.ledger.saved + 2 ^ ABITS ∨
      s.fifo.saveQ = true) :
    (i.sTlast || chunkW (fifoParams p) s.fifo (fifoInputs s i)) =
      (cut p.maxPacketLength m.traffic.accepted).ends p.maxPacketLength i.sTlast := by
  have hfull := chunkLength_full_iff (s := s) hM
  rw [Cut.ends, hc.chunk]
  cases hlast : i.sTlast
  · simp only [Bool.false_or]
    cases hsave : s.fifo.saveQ
    · have hchunk := chunkW_captured h hc hl hcap hsave (hroom.resolve_right (by simp [hsave]))
      rw [Bool.eq_iff_iff, hchunk, beq_iff_eq, hfull]
    · have hne : s.rcount.toNat + 1 ≠ p.maxPacketLength := by
        intro heq
        have hpow := pow_cbits_lt hM
        have hle := maxPacketLength_le (p := p)
        have hzero : s.rcount.toNat = 0 := by simp [(hc.saveQ hsave).2.2]
        have hmax := rcountMax_iff.mpr (show s.rcount.toNat + 1 = 2 ^ p.cbits by omega)
        simp [hf.fits hcap hmax] at hlast
      rw [hf.apart hcap hlast hsave, eq_comm, beq_eq_false_iff_ne]
      exact fun heq => hne (hfull.mp heq)
  · rfl

theorem Chunked.next (hc : Chunked s m) (h : Delivering s m) (hM : 0 < p.maxPacketLength)
    (hen : p.enabled = true) (hi : Polled i) (hl : Lossless m s i) (hf : Framed s i) :
    Chunked (step s i) (m.watch s i) := by
  have hr := h.ready.rstQ
  have hacc := accepted_watch hl
  obtain ⟨hwords, hsaved⟩ := words_watch hc hr hl
  have hxv := xvld_step (i := i) hc hr
  have hxl := xlst_step hc hr hf
  have hxd := xdat_step (i := i) hr
  have hxm := xmax_step (i := i) hc hr
  have hsq := saveQ_step hr hf
  have hrc := rcount_step (s := s) hi hen
  have hwnext := hc.words_next h hl
  have hlen := hc.length
  have hlt := s.rcount.isLt
  cases hcap : captured s i
  · simp only [hcap, Bool.false_or, Bool.false_eq_true, if_false, List.append_nil,
      Bool.false_and] at hacc hwords hxv hxl hxd hxm hsq hrc
    cases hheld : heldLast s
    · -- The held word stays.
      have hsave : s.fifo.saveQ = false := by
        by_contra hsave
        obtain ⟨hx, hl', -⟩ := hc.saveQ (by simpa using hsave)
        simp [heldLast, hx, hl'] at hheld
      simp only [hheld, hsave, Bool.and_false, Bool.not_false, Bool.and_true, Bool.false_eq_true,
        if_false, List.append_nil] at hwords hsaved hxv hxl hxm
      rw [hacc, hwords] at hwnext
      refine ⟨?_, by rwa [hacc, hwords], ?_, ?_, ?_, ?_, ?_, ?_⟩
      · rw [hacc, hwords, hxv, hlen]
      · rw [hacc, hwords, hsaved, hxv, hxl, hxd]
        exact hc.held
      · simp [hsq]
      · rw [hxm, hxl]
        exact hc.xmax
      · rw [hwords, hsaved, hxv, hrc]
        exact fun _ => hc.offset hsave
      · rw [hacc, hrc, hc.chunk]
      · rw [hacc]
        exact hc.whole
    · -- The held word is the last of its packet, and is stored.
      have hx : s.fifo.xvld = true ∧ s.fifo.xlst = true := by simpa [heldLast] using hheld
      simp only [hheld, hx.1, Bool.and_true, Bool.not_true, Bool.and_false, if_true]
        at hwords hxv hxl hxm
      rw [hx.1, Bool.toNat_true] at hlen
      refine ⟨?_, hwnext, ?_, ?_, ?_, ?_, ?_, ?_⟩
      · rw [hacc, hwords, hxv, hlen]
        simp
      · simp [hxv]
      · simp [hsq]
      · simp [hxm]
      · intro _
        have hoffset := hc.offset
        have hzero := hc.saveQ
        rw [hsaved, hxv, hrc, hwords]
        cases hsave : s.fifo.saveQ
        · have := hoffset hsave
          rw [hx.1, Bool.toNat_true] at this
          simpa using this
        · simp [(hzero hsave).2.2]
      · rw [hacc, hrc, hc.chunk]
      · rw [hacc]
        exact hc.whole
  · -- A word is taken; the one held before it is stored.
    simp only [hcap, Bool.true_or, Bool.and_true, Bool.true_and, if_true] at hacc hwords hxv hxl hxd hxm hsq hrc
    have hwlen : (m.watch s i).ledger.words.length =
        m.ledger.words.length + s.fifo.xvld.toNat := by
      rw [hwords]
      cases s.fifo.xvld <;> simp
    have hwacc : (m.watch s i).ledger.words.length = m.traffic.accepted.length := by
      rw [hwlen, hlen]
    refine ⟨?_, hwnext, ?_, ?_, ?_, ?_, ?_, ?_⟩
    · rw [hacc, hxv, hwacc]
      simp
    · intro _ hroom
      rw [hacc, hwacc, marked_length, hxl, hxd,
        ← mark_captured hc h hM hl hf hcap (Or.symm ?_)]
      rw [← hwlen]
      cases hsave : s.fifo.saveQ
      · right
        simpa [hsaved, hsave] using hroom
      · exact Or.inl rfl
    · rw [hsq, hxv, hxl, hrc]
      intro hlast
      simp [hlast]
    · rw [hxm, hxl]
      intro hmax
      simp [hmax]
    · intro hsave'
      have hlast : i.sTlast = false := by rw [← hsq, hsave']
      have hoffset := hc.offset
      have hzero := hc.saveQ
      rw [hsaved, hxv, hrc, hlast, if_neg Bool.false_ne_true, rcount_succ hf hcap hlast]
      cases hsave : s.fifo.saveQ
      · have := hoffset hsave
        simp only [Bool.false_eq_true, if_false, Bool.toNat_true]
        omega
      · simp [(hzero hsave).2.2]
    · rw [hacc, cut_concat, Cut.push, hrc]
      have hfull := chunkLength_succ (s := s) hM
      rw [← hc.chunk] at hfull
      cases hlast : i.sTlast
      · rw [if_neg Bool.false_ne_true, rcount_succ hf hcap hlast, hfull]
        simp only [Cut.ends, Bool.false_or, beq_iff_eq]
        split <;> simp
      · simp [Cut.ends, chunkLength, hM]
    · intro k v hv hk
      rw [hacc] at hv hk
      rcases Nat.lt_or_ge k m.traffic.accepted.length with hold | hnew
      · rw [List.getElem?_append_left hold] at hv
        rw [List.take_append_of_le_length hold.le] at hk
        exact hc.whole k v hv hk
      · have heq : k = m.traffic.accepted.length := by
          have := (List.getElem?_eq_some_iff.mp hv).1
          rw [List.length_append, List.length_singleton] at this
          omega
        subst heq
        rw [List.take_left, hc.chunk, chunkLength_full_iff hM] at hk
        rw [List.getElem?_concat_length, Option.some.injEq] at hv
        subst hv
        exact ⟨fun hlast => hf.whole hcap hlast hk,
          fun hpow => hf.fits hcap (rcountMax_iff.mpr (by omega))⟩

end Receive

/-! ## The packets of the transmitter -/

/-- The stream cut up to a position. -/
def cutAt (M : ℕ) (m : Log) (k : ℕ) : Cut (BitVec 8) := cut M (m.traffic.accepted.take k)

/-- The packets up to `start` are those acknowledged. -/
def CutTo (M : ℕ) (m : Log) (later : List Packet) : Prop :=
  cutAt M m m.ledger.start = ⟨m.traffic.acked ++ later, []⟩

/-- What the transmit states stand for among the packets of the stream, by the flag for a
zero-data packet and the transmit counter. -/
def CutPhase (M : ℕ) (m : Log) (zdp : Bool) (scount : ℕ) : Send → Prop
  | .idle => CutTo M m [] ∧ zdp = false ∧ scount = 0
  | .send => CutTo M m [] ∧ zdp = false ∧ ∃ chunk,
      cutAt M m m.ledger.pos = ⟨m.traffic.acked, chunk⟩ ∧ m.traffic.packet = chunk.map some ∧
        scount = chunk.length
  | .wait => scount = 0 ∧
      ((m.traffic.waiting = true ∧ CutTo M m [] ∧ cutAt M m m.ledger.pos =
          ⟨m.traffic.acked ++ [m.traffic.packet] ++ (if zdp then [[none]] else []), []⟩) ∨
        (m.traffic.waiting = true ∧ m.traffic.packet = [none] ∧ m.ledger.pos = m.ledger.start ∧
          CutTo M m [[none]] ∧ zdp = false) ∨
        (m.traffic.waiting = false ∧ m.ledger.pos = m.ledger.start ∧ CutTo M m [] ∧ zdp = false))
  | .none => CutTo M m [[none]] ∧ zdp = false ∧ scount = 0
  | .redo => CutTo M m [] ∧ zdp = false ∧ scount = 0

section Transmit

theorem zdpQ_step (hset : s.setQ = true) : (step s i).zdpQ =
    if s.send == .wait && (i.ackRecvI || i.timedoutI) then false
    else if s.send == .send && (scountMax s && tvalidR s && i.mTready && tlastR s) then true
    else s.zdpQ := by
  have hcomm : (scountMax s && tvalidR s && treadyR s i && tlastR s) =
      (s.send == .send && (scountMax s && tvalidR s && i.mTready && tlastR s)) := by
    cases hs : s.send == .send <;> simp [treadyR, hs]
  simp [step, hset, hcomm]

theorem scount_step (hi : Polled i) (hen : p.enabled = true) : (step s i).scount =
    if mTvalid s && i.mTready then (if mTlast s then 0 else s.scount + 1) else s.scount := by
  simp [step, hi.setConfI, hen]

/-- Everything the transmitter can see is cut as before. -/
theorem cutAt_watch (hl : Lossless m s i) (M : ℕ) {k : ℕ} (hk : k ≤ m.traffic.accepted.length) :
    cutAt M (m.watch s i) k = cutAt M m k := by
  rw [cutAt, cutAt, accepted_watch hl, List.take_append_of_le_length hk]

theorem CutPhase.kept {M : ℕ} {m' : Log} {zdp : Bool} {scount : ℕ} {state : Send}
    (h : CutPhase M m zdp scount state) (hk : Kept m m')
    (hstart : cutAt M m' m.ledger.start = cutAt M m m.ledger.start)
    (hpos : cutAt M m' m.ledger.pos = cutAt M m m.ledger.pos) :
    CutPhase M m' zdp scount state := by
  cases state <;>
    simpa only [CutPhase, CutTo, hk.start, hk.pos, hk.acked, hk.packet, hk.waiting, hstart, hpos]
      using h

/-- A word of a packet is sent. -/
theorem CutPhase.word {m' : Log} {scount scount' : BitVec p.cbits} {zdp : Bool} {data : BitVec 8}
    {last : Bool} (h : CutPhase p.maxPacketLength m zdp scount.toNat .send)
    (hM : 0 < p.maxPacketLength) (hb : Beats m m' (some data) last 1)
    (hmark : marked p.maxPacketLength m.traffic.accepted m.ledger.pos = some (last, data))
    (hwhole : ∀ v, m.traffic.accepted[m.ledger.pos]? = some v →
      (cutAt p.maxPacketLength m m.ledger.pos).chunk.length + 1 = p.maxPacketLength →
        (v.1 = true ↔ p.maxPacketLength = 2 ^ p.cbits))
    (hcut : ∀ k ≤ m.ledger.pos + 1, cutAt p.maxPacketLength m' k = cutAt p.maxPacketLength m k)
    (hstart : m.ledger.start ≤ m.ledger.pos)
    (hscount : scount' = if last then 0 else scount + 1) :
    CutPhase p.maxPacketLength m'
      (if scount.toNat + 1 = 2 ^ p.cbits ∧ last = true then true else zdp) scount'.toNat
      (if last then .wait else .send) := by
  obtain ⟨hto, hzdp, chunk, hpos, hpacket, hcount⟩ := h
  obtain ⟨hst, hps, -, hack, hpk, hwt, -⟩ := hb
  rw [marked, Option.map_eq_some_iff] at hmark
  obtain ⟨v, hv, hmark⟩ := hmark
  obtain ⟨hends, hdata⟩ := Prod.mk.injEq .. ▸ hmark
  have hle := maxPacketLength_le (p := p)
  have hlt : chunk.length < p.maxPacketLength := by
    have := length_chunk_lt hM (m.traffic.accepted.take m.ledger.pos)
    rwa [← cutAt, hpos] at this
  have hwhole := hwhole v hv
  rw [hpos] at hwhole
  rw [← cutAt, hpos, Cut.ends] at hends
  have hto' : CutTo p.maxPacketLength m' [] := by
    rw [CutTo, hst, hcut _ (by omega), hack]
    exact hto
  have hnext : cutAt p.maxPacketLength m' m'.ledger.pos =
      (⟨m.traffic.acked, chunk⟩ : Cut (BitVec 8)).push p.maxPacketLength v := by
    obtain ⟨hlen, hget⟩ := List.getElem?_eq_some_iff.mp hv
    rw [hps, hcut _ le_rfl, cutAt, List.take_succ_eq_append_getElem hlen, hget, cut_concat,
      ← cutAt, hpos]
  have hsent : m'.traffic.packet = (chunk ++ [data]).map some := by
    rw [hpk, hpacket, List.map_append, List.map_singleton]
  rw [Cut.push, Cut.ends, hdata] at hnext
  simp only at hnext hends hwhole
  rw [hends] at hnext
  subst hscount
  cases hl : last
  · rw [hl] at hends hnext
    have hne : chunk.length + 1 ≠ p.maxPacketLength := by
      intro heq
      simp [heq] at hends
    have hsucc : (scount + 1).toNat = scount.toNat + 1 := toNat_add_one (by omega)
    refine ⟨hto', by simpa using hzdp, chunk ++ [data], ?_, hsent, ?_⟩
    · rw [hnext, hack]
      rfl
    · rw [if_neg Bool.false_ne_true, hsucc, hcount, List.length_append, List.length_singleton]
  · rw [hl] at hends hnext hwt
    have hfull : (scount.toNat + 1 = 2 ^ p.cbits) ↔
        v.1 = true ∧ chunk.length + 1 = p.maxPacketLength := by
      constructor
      · intro hmax
        have heq : chunk.length + 1 = p.maxPacketLength := by omega
        exact ⟨(hwhole heq).mpr (by omega), heq⟩
      · rintro ⟨hlast, heq⟩
        have := (hwhole heq).mp hlast
        omega
    refine ⟨by simp, Or.inl ⟨hwt, hto', ?_⟩⟩
    rw [hnext, hack, hsent, hzdp]
    by_cases hz : v.1 = true ∧ chunk.length + 1 = p.maxPacketLength
    · simp [hfull, hz]
    · simp [hfull, hz]

/-- The framing invariant, behind the reset of the FIFO. -/
structure Framing (s : State ABITS p) (m : Log) : Prop where
  delivering : Delivering s m
  chunked : Chunked s m
  phase : CutPhase p.maxPacketLength m s.zdpQ s.scount.toNat s.send

/-- The transmitter after an edge. -/
theorem Framing.phase_next (h : Framing s m) (hM : 0 < p.maxPacketLength)
    (hen : p.enabled = true) (hi : Polled i) (hl : Lossless m s i) (hf : Framed s i) :
    CutPhase p.maxPacketLength (m.watch s i) (step s i).zdpQ (step s i).scount.toNat
      (snxt s i) := by
  obtain ⟨hd, hc, hphase⟩ := h
  have hlen := hc.length
  have hgrow := hd.grows i
  have hstart := hgrow.start_le
  have hpos := hgrow.pos_le
  obtain ⟨rd, hs⟩ := hd.replay.stream
  have hsaved := hs.stored.saved_le
  have hcutStart := cutAt_watch hl p.maxPacketLength (k := m.ledger.start) (by omega)
  have hcutPos := cutAt_watch hl p.maxPacketLength (k := m.ledger.pos) (by omega)
  have hzdp := zdpQ_step (i := i) hd.ready.setQ
  have hscount := scount_step (s := s) hi hen
  have htrans := hd.transmitted.phase
  cases edge hd.ready hi with
  | keep hk hsent hnext hredo hsend =>
      have hz : (step s i).zdpQ = s.zdpQ := by
        have hans : (s.send == .wait && (i.ackRecvI || i.timedoutI)) = false := by
          by_contra hans
          rw [Bool.not_eq_false, Bool.and_eq_true, beq_iff_eq] at hans
          have hsel := hf.answered hans.1 hans.2
          simp only [nextW, redoW, hans.1, hsel, beq_self_eq_true, Bool.true_and] at hnext hredo
          simp [hnext, hredo] at hans
        have hword : (s.send == .send && (scountMax s && tvalidR s && i.mTready && tlastR s)) =
            false := by
          cases hs : s.send == .send <;> simp_all [mTvalid]
        rw [hzdp, hans, hword]
        simp
      rw [hsent] at hscount
      rw [hz, hscount, hsend]
      exact hphase.kept hk hcutStart hcutPos
  | poll hs hsel hk hsend =>
      rw [hs] at hphase htrans
      have hkept := hphase.kept hk hcutStart hcutPos
      obtain ⟨hto, hz, hcount⟩ := hkept
      have hsent : (mTvalid s && i.mTready) = false := by simp [mTvalid, hs]
      rw [hsent] at hscount
      rw [hsend, hf.polled hs hsel, hzdp, hs, hscount]
      refine ⟨hto, by simpa using hz, [], ?_, ?_, hcount⟩
      · have hpos : m.ledger.pos = m.ledger.start := htrans.pos
        rw [hk.pos, hpos, ← hk.start, hto, List.append_nil]
      · rw [hk.packet, htrans.packet]
        rfl
  | again hs hk hsend =>
      rw [hs] at hphase htrans
      obtain ⟨hto, hz, hcount⟩ := hphase.kept hk hcutStart hcutPos
      have hsent : (mTvalid s && i.mTready) = false := by simp [mTvalid, hs]
      rw [hsent] at hscount
      rw [hsend, hzdp, hs, hscount]
      refine ⟨hto, by simpa using hz, [], ?_, ?_, hcount⟩
      · have hpos : m.ledger.pos = m.ledger.start := htrans.pos
        rw [hk.pos, hpos, ← hk.start, hto, List.append_nil]
      · rw [hk.packet, htrans.packet]
        rfl
  | word hs hv hm hb hsend =>
      obtain ⟨hlt, hword⟩ := hd.word hv
      rw [hs] at hphase
      have hmark := hc.words m.ledger.pos (by omega)
      have hsent : (mTvalid s && i.mTready) = true := by simp [mTvalid, hs, hv, hm]
      have hlast : mTlast s = tlastR s := by simp [mTlast, hs]
      rw [hsent, hlast, if_pos rfl] at hscount
      have hz : (step s i).zdpQ =
          if s.scount.toNat + 1 = 2 ^ p.cbits ∧ tlastR s = true then true else s.zdpQ := by
        have hmax := scountMax_iff (s := s)
        rw [hzdp, hs]
        simp [hv, hm, hmax]
      rw [hsend, hz]
      exact hphase.word hM hb (hmark.symm.trans hword) (fun v hv hk => hc.whole _ v hv hk)
        (fun k hk => cutAt_watch hl _ (by omega)) hstart hscount
  | zero hs hm hb hsend =>
      rw [hs] at hphase htrans
      obtain ⟨hto, hz, hcount⟩ := hphase
      have hsent : (mTvalid s && i.mTready) = true := by simp [mTvalid, hs, hm]
      have hlast : mTlast s = true := by simp [mTlast, hs]
      rw [hsent, hlast, if_pos rfl, if_pos rfl] at hscount
      rw [hsend, hzdp, hs, hscount]
      refine ⟨by simp, Or.inr (Or.inl ⟨hb.waiting, ?_, ?_, ?_, by simpa using hz⟩)⟩
      · rw [hb.packet, htrans.packet]
        rfl
      · have hpos : m.ledger.pos = m.ledger.start := htrans.pos
        rw [hb.pos, hb.start, hpos, Nat.add_zero]
      · rw [CutTo, hb.start, hb.acked, hcutStart]
        exact hto
  | ack hs hack ha hsend =>
      rw [hs] at hphase
      obtain ⟨hcount, hcases⟩ := hphase
      have hsent : (mTvalid s && i.mTready) = false := by simp [mTvalid, hs]
      rw [hsent] at hscount
      have hz : (step s i).zdpQ = false := by simp [hzdp, hs, hack]
      have hacked := ha.acked
      rw [hz, hscount, hsend]
      rcases hcases with ⟨hw, -, hcut⟩ | ⟨hw, hpk, hpos, hto, hzero⟩ | ⟨hw, hpos, hto, hzero⟩
      · rw [hw, if_pos rfl] at hacked
        cases hzero : s.zdpQ <;> rw [hzero] at hcut <;> refine ⟨?_, rfl, hcount⟩ <;>
          rw [CutTo, ha.start, hacked, hcutPos, hcut] <;> rfl
      · rw [hw, if_pos rfl, hpk] at hacked
        rw [hzero]
        refine ⟨?_, rfl, hcount⟩
        rw [CutTo, ha.start, hpos, hcutStart, hto, hacked, List.append_nil]
      · rw [hw, if_neg Bool.false_ne_true, List.append_nil] at hacked
        rw [hzero]
        refine ⟨?_, rfl, hcount⟩
        rw [CutTo, ha.start, hpos, hcutStart, hto, hacked]
  | timeout hs hredo ha hsend =>
      rw [hs] at hphase
      obtain ⟨hcount, hcases⟩ := hphase
      have hsent : (mTvalid s && i.mTready) = false := by simp [mTvalid, hs]
      rw [hsent] at hscount
      have hz : (step s i).zdpQ = false := by
        have hto : i.timedoutI = true := by
          simp only [redoW, Bool.and_eq_true] at hredo
          exact hredo.2
        simp [hzdp, hs, hto]
      rw [hz, hscount, hsend]
      refine ⟨?_, rfl, hcount⟩
      rw [CutTo, ha.start, ha.acked, hcutStart]
      rcases hcases with ⟨-, hto, -⟩ | ⟨-, hpk, -⟩ | ⟨-, -, hto, -⟩
      · exact hto
      · exact absurd hpk (hl.zdp hredo)
      · exact hto

theorem Framing.next (h : Framing s m) (hM : 0 < p.maxPacketLength) (hen : p.enabled = true)
    (hi : Polled i) (hl : Lossless m s i) (hf : Framed s i) :
    Framing (step s i) (m.watch s i) :=
  ⟨h.delivering.next hi hl, h.chunked.next h.delivering hM hen hi hl hf,
    h.phase_next hM hen hi hl hf⟩

/-- A zero-data packet is sent only when one is due. -/
theorem NoneDue.snxt_ne (h : NoneDue s i) : snxt s i ≠ .none := by
  have hpolled := h.polled
  simp only [snxt]
  split
  · simp
  · cases hs : s.send
    · cases hsel : i.selectedI
      · simp
      · simp [hpolled hs hsel]
    · simp only
      split <;> simp
    · simp only [h.zdpQ, Bool.false_eq_true, if_false]
      split
      · simp
      · split <;> simp
    · exact absurd hs h.send
    · simp only
      split <;> simp

/-- The end-point after the reset of its FIFO. -/
theorem framing_of_reset (hset : s.setQ = true) (hr : s.rstQ = true) (hrc : s.rcount = 0)
    (hsc : s.scount = 0) (hM : 0 < p.maxPacketLength) (hi : Polled i) (hq : Quiet s i)
    (hz : NoneDue s i) : Framing (step s i) (Log.empty.watch s i) := by
  have hdeliver := delivering_of_reset hset hr hi hq
  have hsent : (mTvalid s && i.mTready) = false := hq.2
  have htaken : (i.sTvalid && treadyW s) = false := hq.1
  have hacc : (Log.empty.watch s i).traffic.accepted = [] := by
    have hready : (i.sTvalid && sTready s) = false := by
      simp only [sTready, Bool.and_eq_false_iff] at htaken ⊢
      tauto
    simp [Log.watch, Log.empty, Traffic.watch, Traffic.empty, accepted, hready]
  have hledger : (Log.empty.watch s i).ledger = Ledger.empty := by simp [Log.watch, hr]
  have hack : (Log.empty.watch s i).traffic.acked = [] := by
    simp [Log.watch, Log.empty, Traffic.watch, Traffic.empty, Traffic.acks]
  have hpk : (Log.empty.watch s i).traffic.packet = [] := by
    simp [Log.watch, Log.empty, Traffic.watch, Traffic.empty, sent, hsent]
  have hwt : (Log.empty.watch s i).traffic.waiting = false := by
    simp [Log.watch, Log.empty, Traffic.watch, Traffic.empty, hsent]
  have hcut : ∀ k, cutAt p.maxPacketLength (Log.empty.watch s i) k = ⟨[], []⟩ := by
    intro k
    simp [cutAt, hacc]
  have hrc' : (step s i).rcount = 0 := by simp [step, htaken, hrc]
  have hsc' : (step s i).scount = 0 := by simp [step, hsent, hsc]
  have hz' : (step s i).zdpQ = false := by
    have hword : (s.send == .send && (scountMax s && tvalidR s && i.mTready && tlastR s)) =
        false := by
      cases hs : s.send == .send <;> simp_all [mTvalid]
    simp [zdpQ_step hset, hword, hz.zdpQ]
  refine ⟨hdeliver, ⟨?_, ?_, ?_, ?_, ?_, ?_, ?_, ?_⟩, ?_⟩
  · simp [hacc, hledger, Ledger.empty, step, PacketFifo.step, fifoInputs, fifoParams, hr]
  · simp [hledger, Ledger.empty]
  · simp [step, PacketFifo.step, fifoInputs, fifoParams, hr]
  · simp [step, PacketFifo.step, fifoInputs, fifoParams, hr]
  · simp [step, PacketFifo.step, fifoInputs, fifoParams, hr]
  · intro _
    rw [hrc', hledger]
    simp [Ledger.empty, step, PacketFifo.step, fifoInputs, fifoParams, hr]
  · simp [hacc, hrc', chunkLength, hM]
  · simp [hacc]
  · have hne := hz.snxt_ne
    have hto : CutTo p.maxPacketLength (Log.empty.watch s i) [] := by
      rw [CutTo, hcut, hack]
      rfl
    show CutPhase _ _ _ _ (snxt s i)
    rw [hz', hsc']
    cases hs : snxt s i
    · exact ⟨hto, rfl, by simp⟩
    · exact ⟨hto, rfl, [], by rw [hcut, hack], hpk, by simp⟩
    · exact ⟨by simp, Or.inr (Or.inr ⟨hwt, by rw [hledger]; rfl, hto, rfl⟩)⟩
    · exact absurd hs hne
    · exact ⟨hto, rfl, by simp⟩

end Transmit

/-! ## Runs -/

/-- A sound run in which the frames are kept apart. -/
structure FramedRun (s₀ : State ABITS p) (i₀ : Inputs) (is : List Inputs) : Prop
    extends SoundRun s₀ i₀ is where
  framed : Along (watched step Log.watch) (fun q i => KeepsFrames q.1 i) (runStart s₀ i₀) is

instance (s₀ : State ABITS p) (i₀ : Inputs) (is : List Inputs) : Decidable (FramedRun s₀ i₀ is) :=
  decidable_of_iff (SoundRun s₀ i₀ is ∧
    Along (watched step Log.watch) (fun q i => KeepsFrames q.1 i) (runStart s₀ i₀) is)
    ⟨fun ⟨h₁, h₂⟩ => ⟨h₁, h₂⟩, fun ⟨h₁, h₂⟩ => ⟨h₁, h₂⟩⟩

theorem framing_logged (hM : 0 < p.maxPacketLength) (hen : p.enabled = true)
    {s₀ : State ABITS p} {i₀ : Inputs} {is : List Inputs} (h : FramedRun s₀ i₀ is) :
    is = [] ∨ Framing (logged s₀ i₀ is).1 (logged s₀ i₀ is).2 := by
  obtain ⟨hset, hr, hrc, hsc⟩ := h.configures.runStart s₀
  let Inv (q : State ABITS p × Log) : Prop := Framing q.1 q.2
  refine logged_invariant Inv ?_ ?_ (h.along.and h.framed)
  · rintro i ⟨⟨hi, hok⟩, hkeep⟩
    exact framing_of_reset hset hr hrc hsc hM hi (hok.quiet hr) (hkeep.noneDue hr)
  · rintro ⟨s, m⟩ i hinv ⟨⟨hi, hok⟩, hkeep⟩
    have hrst := hinv.delivering.ready.rstQ
    exact hinv.next hM hen hi (hok.lossless hrst) (hkeep.framed hrst)

/-- An end-point that is not enabled sends nothing. -/
theorem nothing_acked (hen : p.enabled = false) {s₀ : State ABITS p} {i₀ : Inputs}
    {is : List Inputs} (h : SoundRun s₀ i₀ is) :
    (logged s₀ i₀ is).2.traffic.acked = [] ∧ (logged s₀ i₀ is).2.traffic.waiting = false := by
  obtain ⟨hset, hr, -⟩ := h.configures.runStart s₀
  let Inv (q : State ABITS p × Log) : Prop := Delivering q.1 q.2 ∧ q.2.traffic.acked = []
  have hinv : is = [] ∨ Inv (logged s₀ i₀ is) := by
    refine logged_invariant Inv ?_ ?_ h.along
    · rintro i ⟨hi, hok⟩
      refine ⟨delivering_of_reset hset hr hi (hok.quiet hr), ?_⟩
      simp [runStart, Log.watch, Log.empty, Traffic.watch, Traffic.empty, Traffic.acks]
    · rintro ⟨s, m⟩ i ⟨hd, hack⟩ ⟨hi, hok⟩
      refine ⟨hd.next hi (hok.lossless hd.ready.rstQ), ?_⟩
      have hidle : s.send = .idle := hd.ready.enabled hen
      have hwait : m.traffic.waiting = false := hd.ready.waiting (by simp [hidle])
      simp only at hack
      simp [Log.watch, Traffic.watch, Traffic.acks, hwait, hack]
  rcases hinv with rfl | ⟨hd, hack⟩
  · exact ⟨rfl, rfl⟩
  · exact ⟨hack, hd.ready.waiting (by simp [hd.ready.enabled hen])⟩

/-- The packets that are sent are those of the frames, in order: each frame as full packets
and a shorter one, which is a zero-data packet when there is nothing left for it. -/
structure KeepsFraming (M : ℕ) (t : Traffic) : Prop where
  acked : t.acked <+: streamPackets M t.accepted
  sent : t.waiting = true → t.acked ++ [t.packet] <+: streamPackets M t.accepted

theorem Framing.keepsFraming (h : Framing s m) (hM : 0 < p.maxPacketLength) :
    KeepsFraming p.maxPacketLength m.traffic := by
  have hdone : ∀ k, (cutAt p.maxPacketLength m k).done <+:
      streamPackets p.maxPacketLength m.traffic.accepted := by
    intro k
    have hall := done_prefix_cut p.maxPacketLength (List.take_prefix k m.traffic.accepted)
    rwa [cut_eq hM m.traffic.accepted] at hall
  have hstart := hdone m.ledger.start
  have hpos := hdone m.ledger.pos
  have hphase := h.phase
  have hacked : ∀ later, CutTo p.maxPacketLength m later →
      m.traffic.acked ++ later <+: streamPackets p.maxPacketLength m.traffic.accepted := by
    intro later hto
    rw [CutTo] at hto
    rwa [hto] at hstart
  have hwaiting := h.delivering.ready.waiting
  cases hs : s.send <;> rw [hs] at hphase hwaiting
  · exact ⟨by simpa using hacked _ hphase.1, by simp [hwaiting]⟩
  · exact ⟨by simpa using hacked _ hphase.1, by simp [hwaiting]⟩
  · obtain ⟨-, ⟨-, hto, hcut⟩ | ⟨-, hpk, -, hto, -⟩ | ⟨hw, -, hto, -⟩⟩ := hphase
    · rw [hcut] at hpos
      exact ⟨by simpa using hacked _ hto, fun _ => (List.prefix_append _ _).trans hpos⟩
    · have hto := hacked _ hto
      exact ⟨(List.prefix_append _ _).trans hto, fun _ => hpk ▸ hto⟩
    · exact ⟨by simpa using hacked _ hto, by simp [hw]⟩
  · exact ⟨(List.prefix_append _ _).trans (hacked _ hphase.1), by simp [hwaiting]⟩
  · exact ⟨by simpa using hacked _ hphase.1, by simp [hwaiting]⟩

/-- In every sound run in which the frames are kept apart, the host gets them as packets. -/
theorem keepsFraming_of_framed (hM : 0 < p.maxPacketLength) (s₀ : State ABITS p) (i₀ : Inputs)
    (is : List Inputs) (h : FramedRun s₀ i₀ is) :
    KeepsFraming p.maxPacketLength (logged s₀ i₀ is).2.traffic := by
  cases hen : p.enabled
  · obtain ⟨hack, hwait⟩ := nothing_acked hen h.toSoundRun
    exact ⟨by simp [hack], by simp [hwait]⟩
  · rcases framing_logged hM hen h with rfl | hinv
    · exact ⟨List.nil_prefix, fun hwait => Bool.noConfusion hwait⟩
    · exact hinv.keepsFraming hM

/-- The hypotheses are met by a frame that fills a packet, and its zero-data packet. -/
theorem keepsFraming_of_framed_zdp :
    let is := [idle, idle, offer false 1, offer true 2, idle, idle, idle,
      poll true false false false, poll false false false true, poll false false false true,
      poll true true false false, poll false false false true, poll true true false false]
    KeepsFraming 2 (logged (default : State 3 ⟨2, true⟩) setConf is).2.traffic :=
  keepsFraming_of_framed (p := ⟨2, true⟩) (by decide) default setConf _ (by decide +kernel)

/-- Every run of an enabled end-point sends the frames as packets. -/
def AlwaysKeepsFraming : Prop :=
  ∀ (ABITS : ℕ) (p : Params) (s₀ : State ABITS p) (i₀ : Inputs) (is : List Inputs),
    0 < p.maxPacketLength → p.enabled = true → Configures i₀ → (∀ i ∈ is, Polled i) →
    StableSource (step s₀ i₀) is →
    Along (watched step Log.watch) (fun q i => Answered q.2 i) (runStart s₀ i₀) is →
    KeepsFraming p.maxPacketLength (logged s₀ i₀ is).2.traffic

/-- Of a frame of nine bytes, in packets of eight, the first is followed by a zero-data
packet. -/
theorem not_alwaysKeepsFraming : ¬ AlwaysKeepsFraming := by
  intro h
  have hrun := h 5 ⟨8, true⟩ default setConf
    ([idle, idle, offer false 1, offer false 2, offer false 3, offer false 4, offer false 5,
      offer false 6, offer false 7, offer false 8, offer true 9, idle, idle, idle,
      poll true false false false] ++ List.replicate 8 (poll false false false true) ++
      [poll true true false false, poll false false false true, poll true true false false])
    (by decide) rfl (by decide) (by decide) (by decide +kernel) (by decide +kernel)
  exact absurd hrun.acked (by decide +kernel)

end MiscVerilogCores.BulkIn
