import MiscVerilogCores.Verification.PacketFifo.Stream

/-! # Frames through a packet FIFO that saves and advances on `tlast`

The configuration of the write path: an accepted `tlast` word commits its frame,
`drop_i` takes the unfinished frame back. -/

namespace MiscVerilogCores.PacketFifo

open Clocked RingMemory

variable {WIDTH ABITS : ℕ}

/-- `SAVE_ON_LAST` and `NEXT_ON_LAST`, with stored `tlast` bits and without chunks. -/
def frameParams (maxLength outreg : ℕ) : Params where
  storeLasts := true
  saveOnLast := true
  lastOnSave := false
  nextOnLast := true
  useLength := false
  maxLength := maxLength
  outreg := outreg

/-- The strobes that are tied off, and the `tkeep` that is tied on. -/
structure FrameInput (i : Inputs WIDTH) : Prop where
  reset : i.reset = false
  saveI : i.saveI = false
  redoI : i.redoI = false
  nextI : i.nextI = false
  sTkeep : i.sTkeep = true

instance (i : Inputs WIDTH) : Decidable (FrameInput i) :=
  decidable_of_iff (i.reset = false ∧ i.saveI = false ∧ i.redoI = false ∧ i.nextI = false ∧
    i.sTkeep = true)
    ⟨fun ⟨h₁, h₂, h₃, h₄, h₅⟩ => ⟨h₁, h₂, h₃, h₄, h₅⟩,
      fun ⟨h₁, h₂, h₃, h₄, h₅⟩ => ⟨h₁, h₂, h₃, h₄, h₅⟩⟩

/-! ## What is seen at the ports -/

/-- The words of the unfinished frame, of the completed frames, and the words delivered. -/
structure Ports (WIDTH : ℕ) where
  frame : List (Word WIDTH)
  completed : List (Word WIDTH)
  out : List (Word WIDTH)

namespace Ports

def idle : Ports WIDTH := ⟨[], [], []⟩

/-- The word accepted at the input port. -/
def accepted (s : State WIDTH ABITS) (i : Inputs WIDTH) : List (Word WIDTH) :=
  if i.sTvalid && sTready s then [(i.sTlast, i.sTdata)] else []

/-- A drop ends the frame without its words, an accepted `tlast` completes it. -/
def watch (p : Params) (m : Ports WIDTH) (s : State WIDTH ABITS) (i : Inputs WIDTH) :
    Ports WIDTH where
  frame :=
    if i.dropI || (i.sTvalid && sTready s && i.sTlast) then [] else m.frame ++ accepted s i
  completed :=
    if !i.dropI && (i.sTvalid && sTready s && i.sTlast) then
      m.completed ++ (m.frame ++ accepted s i)
    else m.completed
  out := m.out ++ delivered p s i

end Ports

/-- The FIFO and what was seen at its ports, in a run that starts with a reset. -/
def watchedFrames (p : Params) (s₀ : State WIDTH ABITS) (is : List (Inputs WIDTH)) :
    State WIDTH ABITS × Ports WIDTH :=
  run (watched (step p) (Ports.watch p)) (afterReset p s₀, Ports.idle) is

/-! ## The invariant -/

/-- The stream is the completed frames and the unfinished one. -/
structure FrameInv (p : Params) (s : State WIDTH ABITS) (m : Ports WIDTH) : Prop where
  stream : ∃ rd lost,
    Stream p s (m.completed ++ m.frame) m.completed.length m.out.length rd lost ∧
      (s.wready = true → (m.completed ++ m.frame).length < rd + 2 ^ ABITS)
  out : m.out = m.completed.take m.out.length

section Step

variable (maxLength outreg : ℕ) {s : State WIDTH ABITS} {i : Inputs WIDTH} {m : Ports WIDTH}

theorem wordsNext_frames (hi : FrameInput i) :
    wordsNext (frameParams maxLength outreg) s i (m.completed ++ m.frame) m.completed.length =
      (m.watch (frameParams maxLength outreg) s i).completed ++
        (m.watch (frameParams maxLength outreg) s i).frame := by
  cases hd : i.dropI <;> cases hv : i.sTvalid <;> cases hw : s.wready <;> cases hl : i.sTlast <;>
    simp [wordsNext, rejectA, stored, storeW, wordW, lastW, dataW, chunkW, frameParams, Ports.watch,
      Ports.accepted, sTready, hd, hv, hw, hl, hi.sTkeep]

theorem acceptA_frames (hi : FrameInput i) :
    acceptA (frameParams maxLength outreg) s i =
      (!i.dropI && (i.sTvalid && sTready s && i.sTlast)) := by
  simp [acceptA, saveW, frameParams, sTready, hi.saveI, Bool.and_comm]

theorem savedNext_frames (hi : FrameInput i) :
    savedNext (frameParams maxLength outreg) s i (m.completed ++ m.frame) m.completed.length =
      (m.watch (frameParams maxLength outreg) s i).completed.length := by
  have hw := wordsNext_frames maxLength outreg (s := s) (m := m) hi
  rw [savedNext, acceptA_frames maxLength outreg hi, hw]
  cases hc : (!i.dropI && (i.sTvalid && sTready s && i.sTlast))
  · simp [Ports.watch, hc]
  · have : (i.dropI || (i.sTvalid && sTready s && i.sTlast)) = true := by
      simp only [Bool.and_eq_true] at hc
      simp [hc.2]
    simp [Ports.watch, this]

/-- An accepted `tlast` is stored at the same edge, so there is something to commit. -/
theorem not_savesNothing_frames (hi : FrameInput i) {words : List (Word WIDTH)}
    {saved rd lost : ℕ} (h : Stored s words saved rd lost)
    (hready : s.wready = true → words.length < rd + 2 ^ ABITS) :
    ¬ SavesNothing (frameParams maxLength outreg) s i := by
  by_cases hd : i.dropI = true
  · rintro ⟨ha, -⟩
    simp [acceptA_frames maxLength outreg hi, hd] at ha
  · refine h.not_savesNothing (by simpa [rejectA] using hd) fun ha => ?_
    simp only [acceptA_frames maxLength outreg hi, Bool.and_eq_true, sTready] at ha
    obtain ⟨-, ⟨hv, hw⟩, -⟩ := ha
    exact ⟨by simp [storeW, frameParams, hv, hw, hi.sTkeep], hready hw⟩

theorem FrameInv.next (h : FrameInv (frameParams maxLength outreg) s m) (hi : FrameInput i) :
    FrameInv (frameParams maxLength outreg) (step (frameParams maxLength outreg) s i)
      (m.watch (frameParams maxLength outreg) s i) := by
  obtain ⟨⟨rd, lost, hs, hready⟩, hout⟩ := h
  have hroom := hs.stored.not_overruns (p := frameParams maxLength outreg) (i := i) hready
  have hsave := not_savesNothing_frames maxLength outreg hi hs.stored hready
  have hnext := hs.next hi.reset hi.redoI hroom hsave
  have hfull := hs.stored.wready_next (p := frameParams maxLength outreg) hi.reset hready
  rw [wordsNext_frames maxLength outreg hi, savedNext_frames maxLength outreg hi] at hnext
  rw [wordsNext_frames maxLength outreg hi] at hfull
  obtain ⟨htake, hle⟩ := hs.take_delivered i
  have hlen : (m.watch (frameParams maxLength outreg) s i).out.length =
      m.out.length + (delivered (frameParams maxLength outreg) s i).length := by
    simp [Ports.watch]
  rw [← hlen] at hnext
  refine ⟨⟨_, _, hnext, hfull⟩, ?_⟩
  have hgrow : m.completed <+: (m.watch (frameParams maxLength outreg) s i).completed := by
    simp only [Ports.watch]
    split <;> simp
  have hpos : m.out.length ≤ m.completed.length := by omega
  rw [List.take_append_of_le_length hle, List.take_append_of_le_length hpos, ← hout] at htake
  calc (m.watch (frameParams maxLength outreg) s i).out
      = m.completed.take (m.watch (frameParams maxLength outreg) s i).out.length := by
        rw [hlen, htake]
        rfl
    _ = _ := by
        obtain ⟨rest, hrest⟩ := hgrow
        rw [← hrest, List.take_append_of_le_length (by omega)]

end Step

theorem frameInv_watchedFrames (maxLength outreg : ℕ) (s₀ : State WIDTH ABITS)
    {is : List (Inputs WIDTH)} (hi : ∀ i ∈ is, FrameInput i) :
    FrameInv (frameParams maxLength outreg)
      (watchedFrames (frameParams maxLength outreg) s₀ is).1
      (watchedFrames (frameParams maxLength outreg) s₀ is).2 := by
  have hstart : FrameInv (frameParams maxLength outreg)
      (afterReset (frameParams maxLength outreg) s₀) Ports.idle := by
    refine ⟨⟨0, 0, Stream.afterReset _ s₀, fun _ => ?_⟩, rfl⟩
    simp [Ports.idle]
  let Inv (q : State WIDTH ABITS × Ports WIDTH) : Prop :=
    FrameInv (frameParams maxLength outreg) q.1 q.2
  have halong := along_of_inputs (watched (step (frameParams maxLength outreg))
    (Ports.watch (frameParams maxLength outreg)))
    (afterReset (frameParams maxLength outreg) s₀, Ports.idle) hi
  exact run_invariant Inv (fun q i h hi => FrameInv.next maxLength outreg h hi) hstart halong

/-- What the reader of a frame FIFO gets, and what the FIFO still has for it. -/
structure DeliversFrames (p : Params) (s : State WIDTH ABITS) (m : Ports WIDTH) : Prop where
  order : m.out <+: m.completed
  presented : mTvalid p s = true → m.out ++ [offered p s] <+: m.completed
  pending : m.completed =
    m.out ++ outputWords p s ++ window s.sram s.raddr (s.paddr - s.raddr).toNat
  unfinished : m.frame = window s.sram s.paddr (s.waddr - s.paddr).toNat

/-- In every run from reset the words delivered are those of the completed frames, no word
of another frame is presented, and no word that is still to be delivered is overwritten. -/
theorem deliversFrames (maxLength outreg : ℕ) (s₀ : State WIDTH ABITS)
    (is : List (Inputs WIDTH)) (hi : ∀ i ∈ is, FrameInput i) :
    DeliversFrames (frameParams maxLength outreg)
      (watchedFrames (frameParams maxLength outreg) s₀ is).1
      (watchedFrames (frameParams maxLength outreg) s₀ is).2 := by
  obtain ⟨⟨rd, lost, hs, -⟩, hout⟩ := frameInv_watchedFrames maxLength outreg s₀ hi
  generalize watchedFrames (frameParams maxLength outreg) s₀ is = q at hs hout
  obtain ⟨s, m⟩ := q
  have hpos : m.out.length ≤ m.completed.length := hs.output.pos_le.trans hs.stored.rd_le
  refine ⟨?_, ?_, ?_, ?_⟩
  · rw [hout]
    exact List.take_prefix _ _
  · intro hv
    obtain ⟨hlt, hword⟩ := hs.offered_eq hv
    rw [List.getElem?_append_left hlt, List.getElem?_eq_getElem hlt] at hword
    have htake := List.take_succ_eq_append_getElem hlt
    rw [← hout, Option.some.inj hword] at htake
    rw [← htake]
    exact List.take_prefix _ _
  · have hall := hs.take_saved_eq
    rwa [List.take_left, List.take_append_of_le_length hpos, ← hout] at hall
  · rw [hs.window_uncommitted, List.drop_left]

/-- The hypothesis is met by a run in which one frame is dropped and two are completed,
the second of them in the slots of the dropped one. -/
theorem deliversFrames_around_drop :
    let is : List (Inputs 4) := [(false, false, false, 0, false), (false, true, false, 1, false),
      (true, true, true, 2, false), (false, true, true, 3, false), (false, true, false, 4, true),
      (false, true, true, 5, true), (false, false, false, 0, true)].map
        fun (drop, valid, last, data, ready) =>
          ⟨false, drop, false, false, false, valid, true, last, data, ready⟩
    DeliversFrames (frameParams 1 2)
      (watchedFrames (frameParams 1 2) (default : State 4 1) is).1
      (watchedFrames (frameParams 1 2) (default : State 4 1) is).2 :=
  deliversFrames 1 2 default _ (by decide)

end MiscVerilogCores.PacketFifo
