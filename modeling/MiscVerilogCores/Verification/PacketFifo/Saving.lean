import MiscVerilogCores.Verification.PacketFifo.Stream

/-! # Packets that are saved by a strobe

With `LAST_ON_SAVE` and without `SAVE_ON_LAST` the last byte of a packet waits in the holding
register, until a strobe saves the packet or drops it. -/

namespace MiscVerilogCores.PacketFifo

open RingMemory

variable {ABITS : ℕ} {p : Params}

/-- Packets are saved by `save_i` alone. -/
structure OnDemand (p : Params) : Prop where
  lasts : p.storeLasts = true
  hold : p.lastOnSave = true
  onLast : p.saveOnLast = false
  length : p.useLength = false

/-- The words of a packet that has been saved. -/
def frame (bs : List (BitVec 8)) : List (Word 8) :=
  bs.dropLast.map (Prod.mk false) ++ bs.getLast?.toList.map (Prod.mk true)

@[simp] theorem frame_nil : frame [] = [] := rfl

@[simp] theorem length_frame (bs : List (BitVec 8)) : (frame bs).length = bs.length := by
  rcases List.eq_nil_or_concat bs with rfl | ⟨front, b, rfl⟩
  · rfl
  · simp [frame]

@[simp] theorem map_snd_frame (bs : List (BitVec 8)) : (frame bs).map Prod.snd = bs := by
  rcases List.eq_nil_or_concat bs with rfl | ⟨front, b, rfl⟩
  · rfl
  · simp [frame]

/-- The FIFO has saved the words `acc` and delivered `out` of them, and has taken the bytes `bs` of
a packet that is not saved; there is room for `k` more. -/
structure Holding (p : Params) (s : State 8 ABITS) (acc out : List (Word 8)) (bs : List (BitVec 8))
    (k rd lost : ℕ) : Prop where
  stream : Stream p s (acc ++ bs.dropLast.map (Prod.mk false)) acc.length out.length rd lost
  out_le : out <+: acc
  held : bs.getLast? = if s.xvld then some s.xdat else none
  last : s.xlst = true → s.xvld = true
  chunk : s.xmax = false
  ready : s.wready = true ∨ acc = [] ∧ bs = [] ∧ s.saveQ = false
  level : acc.length + bs.length ≤ rd + s.levelQ.toNat
  space : acc.length + bs.length + k < rd + 2 ^ ABITS

/-- The words that have been saved and not delivered, oldest first. -/
def pending (p : Params) (s : State 8 ABITS) : List (Word 8) :=
  outputWords p s ++ window s.sram s.raddr (s.paddr - s.raddr).toNat

section Wires

variable {s : State 8 ABITS} {i : Inputs 8}

theorem OnDemand.acceptA (hp : OnDemand p) : acceptA p s i = s.saveQ := by
  simp [PacketFifo.acceptA, hp.hold]

theorem OnDemand.storeW (hp : OnDemand p) :
    storeW p s i = (s.xvld && s.wready && (i.sTvalid && i.sTkeep || s.saveQ)) := by
  simp [PacketFifo.storeW, hp.hold, hp.onLast]

theorem OnDemand.releaseA (hp : OnDemand p) : releaseA p s = (s.xvld && s.saveQ) := by
  simp [PacketFifo.releaseA, hp.onLast]

theorem OnDemand.saveQ_step (hp : OnDemand p) (hr : i.reset = false) :
    (step p s i).saveQ = (i.saveI && !i.dropI) := by
  simp [step, saveW, hp.hold, hp.onLast, hr]

theorem OnDemand.xmax_step (hp : OnDemand p) (h : s.xmax = false) : (step p s i).xmax = false := by
  simp [step, hp.hold, chunkW, hp.length, h]

end Wires

section Step

variable {s : State 8 ABITS} {i : Inputs 8} {acc out : List (Word 8)} {bs : List (BitVec 8)}
  {k rd lost : ℕ}

/-- What the surroundings owe at an edge: a packet that is being saved is not dropped and not
added to, and there is something to read once it is saved. -/
structure Paced (p : Params) (s : State 8 ABITS) (i : Inputs 8) : Prop where
  reset : i.reset = false
  redo : i.redoI = false
  saving : s.saveQ = true → i.dropI = false ∧ captureA s i = false
  something : s.saveQ = true → waddrNext p s i ≠ raddrNext p s i

namespace Holding

theorem xvld_eq (h : Holding p s acc out bs k rd lost) : s.xvld = !bs.isEmpty := by
  have hheld := h.held
  rcases List.eq_nil_or_concat bs with rfl | ⟨front, b, rfl⟩
  · cases hx : s.xvld <;> simp [hx] at hheld ⊢
  · cases hx : s.xvld <;> simp [hx] at hheld ⊢

theorem wready_of_xvld (h : Holding p s acc out bs k rd lost) (hx : s.xvld = true) :
    s.wready = true := by
  rcases h.ready with hw | ⟨-, rfl, -⟩
  · exact hw
  · simp [h.xvld_eq] at hx

theorem length_words (h : Holding p s acc out bs k rd lost) :
    (acc ++ bs.dropLast.map (Prod.mk false)).length + s.xvld.toNat = acc.length + bs.length := by
  rw [h.xvld_eq]
  cases bs with
  | nil => simp
  | cons b bs => simp; omega

theorem stored_eq (h : Holding p s acc out bs k rd lost) (hp : OnDemand p)
    (hd : i.dropI = false) :
    stored p s i = if storeW p s i then [(s.xlst || s.saveQ, s.xdat)] else [] := by
  have hdata : dataW p s i = s.xdat := by simp [dataW, hp.hold]
  simp [stored, rejectA, hd, wordW, hp.lasts, lastW, hp.hold, h.chunk, hdata]

/-- What is taken and what is held is stored or goes on being held. -/
theorem balance (h : Holding p s acc out bs k rd lost) (hp : OnDemand p) (hi : Paced p s i) :
    (storeW p s i).toNat + ((captureA s i || s.xvld) && !releaseA p s).toNat =
      s.xvld.toNat + (captureA s i).toNat := by
  have hready := h.wready_of_xvld
  rw [hp.storeW, hp.releaseA]
  cases hs : s.saveQ
  · cases hx : s.xvld
    · simp
    · simp [hready hx, captureA]
      cases i.sTvalid <;> cases i.sTkeep <;> rfl
  · obtain ⟨-, hc⟩ := hi.saving hs
    cases hx : s.xvld
    · simp [hc]
    · simp [hready hx, hc]

theorem stream_next (h : Holding p s acc out bs k rd lost) (hp : OnDemand p) (hi : Paced p s i) :
    Stream p (step p s i)
      (wordsNext p s i (acc ++ bs.dropLast.map (Prod.mk false)) acc.length)
      (savedNext p s i (acc ++ bs.dropLast.map (Prod.mk false)) acc.length)
      (out.length + (delivered p s i).length) (rd + (fetched p s i).length)
      (lostNext p s i (acc ++ bs.dropLast.map (Prod.mk false)) acc.length lost) := by
  have hlen := h.length_words
  have hspace := h.space
  have hroom : ¬ Overruns p s i := h.stream.stored.not_overruns fun _ => by omega
  refine h.stream.next hi.reset hi.redo hroom ?_
  rintro ⟨hsave, hdrop | hnone⟩
  · rw [hp.acceptA] at hsave
    have hd : i.dropI = true := hdrop
    simp [(hi.saving hsave).1] at hd
  · rw [hp.acceptA] at hsave
    exact hi.something hsave hnone

/-- The read pointer goes on, and so does the write pointer. -/
theorem levelQ_step (h : Holding p s acc out bs k rd lost) (hp : OnDemand p) (hi : Paced p s i)
    (hc : (captureA s i).toNat ≤ k) :
    rd + (fetched p s i).length + (step p s i).levelQ.toNat =
      acc.length + bs.length + (captureA s i).toNat := by
  have hbalance := h.balance hp hi
  have hlen := h.length_words
  have hspace := h.space
  have hfetched := h.stream.stored.fetched_le p i
  have hsaved := h.stream.stored.saved_le
  have hstep : (step p s i).levelQ = levelW p s i := by simp [step, hi.reset]
  rw [hstep, h.stream.stored.levelW_eq hp.hold, Nat.mod_eq_of_lt]
  · omega
  · omega

theorem wready_step (h : Holding p s acc out bs k rd lost) (hp : OnDemand p) (hi : Paced p s i)
    (hc : (captureA s i).toNat ≤ k) : (step p s i).wready = true := by
  have hbalance := h.balance hp hi
  have hlen := h.length_words
  have hspace := h.space
  have hstored := h.stream.stored
  have hfull := fullNext_ptr (storeW p s i) (fetchW p s i) (hstored.rd_le.trans hstored.saved_le)
    hstored.length_le (fun _ => by omega)
    (fun hf => (hstored.rvalid (fetchW_rvalid hf)).trans_le hstored.saved_le)
  rw [← hstored.waddr, ← hstored.raddr, ← wfullW_eq] at hfull
  have hno : wfullW p s i = false := by
    rw [Bool.eq_false_iff]
    intro hyes
    have heq := hfull.mp hyes
    omega
  simp [step, hi.reset, hno]

/-- What is delivered has been saved. -/
theorem out_next (h : Holding p s acc out bs k rd lost) (i : Inputs 8) :
    out ++ delivered p s i <+: acc := by
  obtain ⟨htake, hle⟩ := h.stream.take_delivered i
  have hout : (acc ++ bs.dropLast.map (Prod.mk false)).take out.length = out := by
    rw [List.take_append_of_le_length h.out_le.length_le]
    exact List.prefix_iff_eq_take.mp h.out_le |>.symm
  rw [hout, List.take_append_of_le_length hle] at htake
  exact htake ▸ List.take_prefix _ _

/-- An edge, for any account of the packets after it that the registers bear out. -/
theorem next (h : Holding p s acc out bs k rd lost) (hp : OnDemand p) (hi : Paced p s i)
    {acc' : List (Word 8)} {bs' : List (BitVec 8)} {k' : ℕ}
    (hwords : wordsNext p s i (acc ++ bs.dropLast.map (Prod.mk false)) acc.length =
      acc' ++ bs'.dropLast.map (Prod.mk false))
    (hsaved : savedNext p s i (acc ++ bs.dropLast.map (Prod.mk false)) acc.length = acc'.length)
    (hacc : acc <+: acc')
    (hheld : bs'.getLast? = if (step p s i).xvld then some (step p s i).xdat else none)
    (hlast : (step p s i).xlst = true → (step p s i).xvld = true)
    (hle : acc'.length + bs'.length ≤ acc.length + bs.length + (captureA s i).toNat)
    (hk : (captureA s i).toNat + k' ≤ k) :
    ∃ rd' lost', Holding p (step p s i) acc' (out ++ delivered p s i) bs' k' rd' lost' := by
  have hstream := h.stream_next hp hi
  have hlevel := h.levelQ_step hp hi (by omega)
  have hspace := h.space
  rw [hwords, hsaved, ← List.length_append] at hstream
  refine ⟨rd + (fetched p s i).length, _, hstream, (h.out_next i).trans hacc, hheld, hlast, hp.xmax_step h.chunk,
    Or.inl (h.wready_step hp hi (by omega)), by omega, by omega⟩

theorem of_reset (hp : OnDemand p) (s : State 8 ABITS) (hr : i.reset = true)
    (hk : k < 2 ^ ABITS) : Holding p (step p s i) [] [] [] k 0 0 where
  stream := Stream.of_reset p s hr
  out_le := List.prefix_refl _
  held := by simp [step, hr, hp.hold]
  last := by simp [step, hr, hp.hold]
  chunk := by simp [step, hr, hp.hold]
  ready := Or.inr ⟨rfl, rfl, by simp [step, hr, hp.hold]⟩
  level := Nat.zero_le _
  space := by simpa using hk

/-- What has been saved is delivered or pending. -/
theorem saved_eq (h : Holding p s acc out bs k rd lost) : acc = out ++ pending p s := by
  have hout : (acc ++ bs.dropLast.map (Prod.mk false)).take out.length = out := by
    rw [List.take_append_of_le_length h.out_le.length_le]
    exact (List.prefix_iff_eq_take.mp h.out_le).symm
  have hsaved := h.stream.take_saved_eq
  rwa [List.take_left, hout, List.append_assoc] at hsaved

/-- Reading makes room. -/
theorem levelQ_le (h : Holding p s acc out bs k rd lost) (hp : OnDemand p) (hi : Paced p s i)
    (hc : captureA s i = false) : (step p s i).levelQ.toNat ≤ s.levelQ.toNat := by
  have hstep := h.levelQ_step hp hi (by simp [hc])
  have hlevel := h.level
  simp only [hc, Bool.toNat_false] at hstep
  omega

/-- What the level says of the room. -/
theorem room (h : Holding p s acc out bs k rd lost) {m : ℕ} (hm : s.levelQ.toNat + m < 2 ^ ABITS) :
    Holding p s acc out bs m rd lost := by
  have hlevel := h.level
  exact { h with space := by omega }

/-! ### What may happen at an edge -/

/-- A byte is taken. -/
theorem take (h : Holding p s acc out bs k rd lost) (hp : OnDemand p) (hi : Paced p s i)
    (hc : captureA s i = true) (hd : i.dropI = false) (hl : s.xlst = false) {k' : ℕ}
    (hk : k' + 1 = k) :
    ∃ rd' lost', Holding p (step p s i) acc (out ++ delivered p s i) (bs ++ [i.sTdata]) k' rd'
      lost' := by
  have hr := hi.reset
  have hsave : s.saveQ = false := by
    cases hs : s.saveQ
    · rfl
    · simp [(hi.saving hs).2] at hc
  have hvalid : i.sTvalid = true ∧ s.wready = true ∧ i.sTkeep = true := by
    simpa [captureA, and_assoc] using hc
  obtain ⟨hv, hw, hkeep⟩ := hvalid
  have hstored : stored p s i = if s.xvld then [(false, s.xdat)] else [] := by
    rw [h.stored_eq hp hd, hp.storeW]
    simp [hv, hw, hkeep, hl, hsave]
  refine h.next hp hi ?_ ?_ (List.prefix_refl _) ?_ ?_ ?_ ?_
  · rw [wordsNext, hstored]
    have hheld := h.held
    rcases List.eq_nil_or_concat bs with rfl | ⟨front, b, rfl⟩
    · cases hx : s.xvld <;> simp [hx, rejectA, hd] at hheld ⊢
    · cases hx : s.xvld <;> simp [hx, rejectA, hd] at hheld ⊢
      exact hheld.symm
  · simp [savedNext, hp.acceptA, hsave]
  · simp [step, hr, hp.hold, hc]
  · simp [step, hr, hp.hold, hc]
  · simp [hc]
    omega
  · simp [hc]
    omega

/-- Nothing happens. -/
theorem rest (h : Holding p s acc out bs k rd lost) (hp : OnDemand p) (hi : Paced p s i)
    (hc : captureA s i = false) (hd : i.dropI = false) (hs : s.saveQ = false) :
    ∃ rd' lost', Holding p (step p s i) acc (out ++ delivered p s i) bs k rd' lost' := by
  have hr := hi.reset
  have hstore : storeW p s i = false := by
    rw [hp.storeW]
    cases hv : i.sTvalid <;> cases hkeep : i.sTkeep <;> simp [captureA, hv, hkeep, hs] at hc ⊢
    simp [hc]
  refine h.next hp hi ?_ ?_ (List.prefix_refl _) ?_ ?_ ?_ ?_
  · simp [wordsNext, stored, hstore, rejectA, hd]
  · simp [savedNext, hp.acceptA, hs]
  · simp [step, hr, hp.hold, hc, hd, hs, releaseA, hp.onLast, h.held]
  · intro hlast
    have hold : s.xlst = true := by simpa [step, hr, hp.hold, hc, hd, hs, releaseA, hp.onLast] using hlast
    simp [step, hr, hp.hold, hc, hd, hs, releaseA, hp.onLast, h.last hold]
  · simp [hc]
  · simp [hc]

/-- The packet is dropped. -/
theorem drop (h : Holding p s acc out bs k rd lost) (hp : OnDemand p) (hi : Paced p s i)
    (hc : captureA s i = false) (hd : i.dropI = true) :
    ∃ rd' lost', Holding p (step p s i) acc (out ++ delivered p s i) [] k rd' lost' := by
  have hr := hi.reset
  have hs : s.saveQ = false := by
    cases hs : s.saveQ
    · rfl
    · simp [(hi.saving hs).1] at hd
  refine h.next hp hi ?_ ?_ (List.prefix_refl _) ?_ ?_ ?_ ?_
  · simp [wordsNext, stored, rejectA, hd]
  · simp [savedNext, hp.acceptA, hs]
  · simp [step, hr, hp.hold, hc, hd]
  · intro hlast
    simp [step, hr, hp.hold, hc, hd] at hlast
  · simp [hc]
  · simp [hc]

/-- The packet is saved. -/
theorem save (h : Holding p s acc out bs k rd lost) (hp : OnDemand p) (hi : Paced p s i)
    (hs : s.saveQ = true) :
    ∃ rd' lost', Holding p (step p s i) (acc ++ frame bs) (out ++ delivered p s i) [] k rd'
      lost' := by
  have hr := hi.reset
  obtain ⟨hd, hc⟩ := hi.saving hs
  have hready := h.wready_of_xvld
  have hstored : stored p s i = bs.getLast?.toList.map (Prod.mk true) := by
    rw [h.stored_eq hp hd, hp.storeW, h.held]
    cases hx : s.xvld
    · simp
    · simp [hready hx, hs]
  have hwords : wordsNext p s i (acc ++ bs.dropLast.map (Prod.mk false)) acc.length =
      acc ++ frame bs := by
    simp [wordsNext, hstored, rejectA, hd, frame]
  refine h.next hp hi ?_ ?_ (List.prefix_append _ _) ?_ ?_ ?_ ?_
  · rw [hwords]
    simp
  · rw [savedNext, hp.acceptA, hs, if_pos rfl, hwords]
  · cases hx : s.xvld <;> simp [step, hr, hp.hold, hc, hs, releaseA, hx]
  · intro hlast
    have hold : s.xlst = true ∧ s.xvld = false := by
      simpa [step, hr, hp.hold, hc, hs, hd, releaseA] using hlast
    simp [h.last hold.1] at hold
  · simp [hc]
  · simp [hc]

end Holding

end Step

end MiscVerilogCores.PacketFifo
