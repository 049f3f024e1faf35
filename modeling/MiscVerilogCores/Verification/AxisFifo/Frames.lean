import MiscVerilogCores.Library.Handshake
import MiscVerilogCores.Verification.AxisFifo.Queue

/-! # Whole frames

If frames that do not fit are dropped, a frame is delivered whole or not at all, and the strobes tell
which. -/

namespace MiscVerilogCores.AxisFifo

open Clocked RingMemory

variable {u d k : ℕ} {V : Type} {p : Params u}

/-! ## What becomes of a frame -/

/-- The beats of the open frame. -/
def frame (open_ : List (Word d k u V)) (s : State p d k V) (i : Inputs d k u V) : List (Word d k u V) :=
  if accepts s i then (if i.sAxis.tlast then [] else open_ ++ [i.sAxis]) else open_

/-- The machine, and the beats of the open frame. -/
abbrev framed : State p d k V × List (Word d k u V) → Inputs d k u V → State p d k V × List (Word d k u V) :=
  watched step frame

/-- The beats of a frame that ends and is reported as good. -/
def keptAt (q : State p d k V × List (Word d k u V)) (i : Inputs d k u V) : List (Word d k u V) :=
  if accepts q.1 i && i.sAxis.tlast && (step q.1 i).goodFrame then q.2 ++ [i.sAxis] else []

/-- The beats of the good frames. -/
def kept (s : State p d k V) (is : List (Inputs d k u V)) : List (Word d k u V) :=
  emitted framed keptAt (s, []) is

/-- What the strobes say of a frame: it overflows if it does not fit into the memory, or perhaps if there
is no room for it; of the others, the bad ones are dropped if they are to be. -/
structure Verdict (s : State p d k V) (length : ℕ) (i : Inputs d k u V) : Prop where
  oversize : 2 ^ p.addrWidth < length → (step s i).overflow = true
  overflow : (step s i).overflow = true → p.dropWhenFull = true ∨ 2 ^ p.addrWidth < length
  bad : (step s i).badFrame = true ↔
    (step s i).overflow = false ∧ p.dropBadFrame = true ∧ isBad (p := p) i = true
  good : (step s i).goodFrame = true ↔ (step s i).overflow = false ∧ (step s i).badFrame = false

/-- Each frame has its verdict at its end, and there is no other strobe. -/
def Reports (q : State p d k V × List (Word d k u V)) (i : Inputs d k u V) : Prop :=
  if accepts q.1 i && i.sAxis.tlast then Verdict q.1 (q.2.length + 1) i
  else (step q.1 i).overflow = false ∧ (step q.1 i).badFrame = false ∧ (step q.1 i).goodFrame = false

/-- The input is blocked only while there is something to read. -/
def Blocks (s : State p d k V) (_ : Inputs d k u V) : Prop := sAxisTready s = false → readable s ≠ []

/-- The good frames are delivered, whole and in order, and no other beat. -/
structure Keeps (s : State p d k V) (is : List (Inputs d k u V)) : Prop where
  frames : delivered s is <+: (kept s is).map (visible p)
  reports : Along framed Reports (s, []) is
  underway : (kept s is).length ≤ (delivered s is).length + (2 ^ p.addrWidth + p.ramPipeline + 1)
  drains : ∀ js : List (Inputs d k u V), (∀ j ∈ js, j.rst = false) →
    2 ^ p.addrWidth + p.ramPipeline + 1 ≤ js.countP Inputs.mAxisTready →
    (kept s is).map (visible p) <+: delivered s (is ++ js)
  blocks : Along step Blocks s is
  held : Along step Held s is

/-! ## States -/

/-- What is written and not committed is the open frame, or the first part of one that overflows. -/
structure Framing (s : State p d k V) (words : List (Word d k u V)) (c : ℕ)
    (open_ : List (Word d k u V)) : Prop where
  unmarked : s.markFrame = false
  keeping : s.dropFrame = false → words = words.take c ++ open_
  dropping : s.dropFrame = true → p.dropWhenFull = true ∨ 2 ^ p.addrWidth < open_.length

section Edges

variable {s : State p d k V} {i : Inputs d k u V} {words open_ out keep : List (Word d k u V)} {c r : ℕ}

/-- At an edge without the end of a frame nothing is reported, and a frame that ends is kept or
forgotten. -/
structure Writes (s : State p d k V) (i : Inputs d k u V) (words open_ : List (Word d k u V)) (c r : ℕ)
    (s' : State p d k V) : Prop where
  stored : ∃ words' c', Stored s' words' c' r ∧ Framing s' words' c' (frame open_ s i) ∧
    words'.take c' = words.take c ++
      if accepts s i && i.sAxis.tlast && s'.goodFrame then open_ ++ [i.sAxis] else []
  quiet : (accepts s i && i.sAxis.tlast) = false →
    s'.overflow = false ∧ s'.badFrame = false ∧ s'.goodFrame = false
  verdict : (accepts s i && i.sAxis.tlast) = true →
    (2 ^ p.addrWidth < open_.length + 1 → s'.overflow = true) ∧
    (s'.overflow = true → p.dropWhenFull = true ∨ 2 ^ p.addrWidth < open_.length + 1) ∧
    (s'.badFrame = true ↔ s'.overflow = false ∧ p.dropBadFrame = true ∧ isBad (p := p) i = true) ∧
    (s'.goodFrame = true ↔ s'.overflow = false ∧ s'.badFrame = false)

/-- A frame is dropped for want of room only if it does not fit, or if it may not wait. -/
theorem Framing.of_drops (h : Framing s words c open_) (hstored : Stored s words c r) (hdrops : Drops s) :
    p.dropWhenFull = true ∨ 2 ^ p.addrWidth < open_.length + 1 := by
  cases hdrop : s.dropFrame with
  | true => exact (h.dropping hdrop).imp_right Nat.lt_succ_of_lt
  | false =>
      obtain ⟨-, hwhen⟩ | ⟨hfull, -⟩ | hdropping := hdrops
      · exact Or.inl hwhen
      · have hlen := congrArg List.length (h.keeping hdrop)
        have hcommit := hstored.commit_le
        rw [hstored.fullWr_iff] at hfull
        rw [List.length_append, List.length_take] at hlen
        right
        omega
      · exact absurd (hdrop.symm.trans hdropping) Bool.false_ne_true

/-- A frame that is stored so far fits. -/
theorem Framing.fits (h : Framing s words c open_) (hstored : Stored s words c r)
    (hstores : ¬Drops s) (hroom : full s = false) :
    words = words.take c ++ open_ ∧ open_.length + 1 ≤ 2 ^ p.addrWidth := by
  have hkeep : s.dropFrame = false := Bool.eq_false_iff.mpr fun hdrop => hstores (Or.inr (Or.inr hdrop))
  have hsplit := h.keeping hkeep
  have hlen := congrArg List.length hsplit
  have hne : words.length ≠ r + 2 ^ p.addrWidth := fun heq =>
    Bool.false_ne_true (hroom.symm.trans (hstored.full_iff.mpr heq))
  have hle := hstored.length_le
  have hread := hstored.read_le
  have hcommit := hstored.commit_le
  rw [List.length_append, List.length_take] at hlen
  exact ⟨hsplit, by omega⟩

/-- An edge at which no frame ends. -/
theorem writes_of_open {s' : State p d k V} {words' : List (Word d k u V)}
    (hopen : (accepts s i && i.sAxis.tlast) = false) (hstored : Stored s' words' c r)
    (hframing : Framing s' words' c (frame open_ s i)) (hsame : words'.take c = words.take c)
    (hquiet : s'.overflow = false ∧ s'.badFrame = false ∧ s'.goodFrame = false) :
    Writes s i words open_ c r s' := by
  refine ⟨⟨words', c, hstored, hframing, ?_⟩, fun _ => hquiet, fun hends => ?_⟩
  · rw [hopen, Bool.false_and, if_neg Bool.false_ne_true, List.append_nil, hsame]
  · exact absurd (hopen.symm.trans hends) Bool.false_ne_true

/-- A frame that ends and is forgotten. -/
theorem writes_of_lost {s' : State p d k V} (hends : (accepts s i && i.sAxis.tlast) = true)
    (hstored : Stored s' (words.take c) c r) (hunmarked : s'.markFrame = false)
    (hkeep : s'.dropFrame = false) (hgood : s'.goodFrame = false)
    (hover : 2 ^ p.addrWidth < open_.length + 1 → s'.overflow = true)
    (hdrops : s'.overflow = true → p.dropWhenFull = true ∨ 2 ^ p.addrWidth < open_.length + 1)
    (hbad : s'.badFrame = true ↔ s'.overflow = false ∧ p.dropBadFrame = true ∧ isBad (p := p) i = true)
    (hreport : s'.overflow = false → s'.badFrame = true) : Writes s i words open_ c r s' := by
  have hback : (words.take c).take c = words.take c := by rw [List.take_take, Nat.min_self]
  have hboth : accepts s i = true ∧ i.sAxis.tlast = true := by rwa [Bool.and_eq_true] at hends
  refine ⟨⟨words.take c, c, hstored, ⟨hunmarked, fun _ => ?_, fun hdrop => ?_⟩, ?_⟩, fun hno => ?_,
    fun _ => ⟨hover, hdrops, hbad, ?_⟩⟩
  · rw [hback, frame, if_pos hboth.1, if_pos hboth.2, List.append_nil]
  · exact absurd (hkeep.symm.trans hdrop) Bool.false_ne_true
  · rw [hback, hgood, Bool.and_false, if_neg Bool.false_ne_true, List.append_nil]
  · exact absurd (hno.symm.trans hends) Bool.false_ne_true
  · rw [hgood]
    refine ⟨fun h => absurd h Bool.false_ne_true, fun h => ?_⟩
    exact absurd (h.2.symm.trans (hreport h.1)) Bool.false_ne_true

theorem frameWrite_writes (hp : p.dropOversizeFrame = true) (h : Framing s words c open_)
    (hstored : Stored s words c r) {s' : State p d k V} (hw : FrameWrite s i s') :
    Writes s i words open_ c r s' := by
  have hmode : p.frameFifo = true := p.oversize_frame hp
  have hword : sAxis s i = i.sAxis := sAxis_eq h.unmarked
  have hcommits : Commits s i ↔ i.sAxis.tlast = true := by simp [Commits, hp]
  cases hw with
  | dropped haccepts hdrops hlast =>
      have hends : (accepts s i && i.sAxis.tlast) = true := by rw [haccepts, hlast]; rfl
      exact writes_of_lost hends ((hstored.quieted i).rolledBack.congr rfl rfl rfl rfl) h.unmarked rfl rfl
        (fun _ => rfl) (fun _ => h.of_drops hstored hdrops) (by simp [quiet, rollback])
        (fun hno => absurd hno.symm Bool.false_ne_true)
  | dropping haccepts hdrops hmore =>
      have hopen : (accepts s i && i.sAxis.tlast) = false := by rw [hmore, Bool.and_false]
      refine writes_of_open hopen ((hstored.quieted i).congr rfl rfl rfl rfl)
        ⟨h.unmarked, fun hkeep => absurd hkeep.symm Bool.false_ne_true, fun _ => ?_⟩ rfl ⟨rfl, rfl, rfl⟩
      rw [frame, if_pos haccepts, if_neg (Bool.eq_false_iff.mp hmore), List.length_append]
      exact h.of_drops hstored hdrops
  | bad haccepts hstores hbad =>
      have hroom := not_full hmode haccepts hstores
      have hends : (accepts s i && i.sAxis.tlast) = true := by rw [haccepts, hbad.1]; rfl
      have hfits := (h.fits hstored hstores hroom).2
      have hback := (hstored.pushed i hroom).rolledBack
      rw [hstored.take_push] at hback
      have hkeep : s.dropFrame = false :=
        Bool.eq_false_iff.mpr fun hdrop => hstores (Or.inr (Or.inr hdrop))
      exact writes_of_lost hends (hback.congr rfl rfl rfl rfl) h.unmarked hkeep rfl
        (fun hlong => absurd hlong (by omega)) (fun hover => absurd hover Bool.false_ne_true)
        ⟨fun _ => ⟨rfl, hbad.2⟩, fun _ => rfl⟩ (fun _ => rfl)
  | committed haccepts hstores hcommit hgood =>
      have hroom := not_full hmode haccepts hstores
      have hlast : i.sAxis.tlast = true := hcommits.mp hcommit
      have hends : (accepts s i && i.sAxis.tlast) = true := by rw [haccepts, hlast]; rfl
      obtain ⟨hsplit, hfits⟩ := h.fits hstored hstores hroom
      have hall := hstored.pushedCommitted i hroom
      rw [hword] at hall
      have htake : (words ++ [i.sAxis]).take (words.length + 1) = words ++ [i.sAxis] :=
        List.take_of_length_le (by rw [List.length_append, List.length_singleton])
      have hkeep : s.dropFrame = false :=
        Bool.eq_false_iff.mpr fun hdrop => hstores (Or.inr (Or.inr hdrop))
      refine ⟨⟨_, _, hall.congr rfl rfl rfl rfl, ⟨h.unmarked, fun _ => ?_, fun hdrop => ?_⟩, ?_⟩,
        fun hno => absurd (hno.symm.trans hends) Bool.false_ne_true, fun _ => ⟨fun hlong => ?_, ?_, ?_, ?_⟩⟩
      · rw [htake, frame, if_pos haccepts, if_pos hlast, List.append_nil]
      · exact absurd (hkeep.symm.trans hdrop) Bool.false_ne_true
      · rw [htake, hends, Bool.true_and]
        show _ = _ ++ (if i.sAxis.tlast then _ else _)
        rw [if_pos hlast, ← List.append_assoc, ← hsplit]
      · omega
      · exact fun hover => absurd hover Bool.false_ne_true
      · refine ⟨fun hbad => absurd hbad Bool.false_ne_true, fun hbad => ?_⟩
        exact absurd ⟨hlast, hbad.2⟩ hgood
      · exact ⟨fun _ => ⟨rfl, rfl⟩, fun _ => hlast⟩
  | stored haccepts hstores hmore =>
      have hroom := not_full hmode haccepts hstores
      have hlast : i.sAxis.tlast = false := Bool.eq_false_iff.mpr fun hlast => hmore (hcommits.mpr hlast)
      have hopen : (accepts s i && i.sAxis.tlast) = false := by rw [hlast, Bool.and_false]
      obtain ⟨hsplit, -⟩ := h.fits hstored hstores hroom
      have hpushed := hstored.pushed i hroom
      rw [hword] at hpushed
      have hkeep : s.dropFrame = false :=
        Bool.eq_false_iff.mpr fun hdrop => hstores (Or.inr (Or.inr hdrop))
      refine writes_of_open hopen hpushed ⟨h.unmarked, fun _ => ?_, fun hdrop => ?_⟩
        (hstored.take_push _) ⟨rfl, rfl, rfl⟩
      · rw [hstored.take_push, frame, if_pos haccepts, if_neg (Bool.eq_false_iff.mp hlast),
          ← List.append_assoc, ← hsplit]
      · exact absurd (hkeep.symm.trans hdrop) Bool.false_ne_true
  | released _ _ _ hno => exact absurd (hno.symm.trans hp) Bool.false_ne_true
  | idle hidle =>
      have hopen : (accepts s i && i.sAxis.tlast) = false := by rw [hidle, Bool.false_and]
      have hframe : frame open_ s i = open_ := by rw [frame, if_neg (Bool.eq_false_iff.mp hidle)]
      have hframing : Framing (quiet s i) words c (frame open_ s i) := by
        rw [hframe]
        exact ⟨h.unmarked, h.keeping, h.dropping⟩
      exact writes_of_open hopen (hstored.quieted i) hframing rfl ⟨rfl, rfl, rfl⟩

/-- The ledgers of the beats of the good frames and of what was taken. -/
def FrameLedger (q : State p d k V × List (Word d k u V)) (keep out : List (Word d k u V)) : Prop :=
  ∃ words c, Framing q.1 words c q.2 ∧ Book q.1 words c out ∧ words.take c = keep

theorem frameLedger_reset (hr : i.rst = true) : FrameLedger (step s i, []) [] [] := by
  refine ⟨[], 0, ?_, book_reset hr, rfl⟩
  rw [step, if_pos hr]
  exact ⟨rfl, fun _ => rfl, fun h => absurd h Bool.false_ne_true⟩

theorem FrameLedger.next (hp : p.dropOversizeFrame = true) (h : FrameLedger (s, open_) keep out)
    (hr : i.rst = false) :
    FrameLedger (framed (s, open_) i) (keep ++ keptAt (s, open_) i) (out ++ takenAt s i) ∧
      Reports (s, open_) i := by
  obtain ⟨words, c, hframing, ⟨r, hstored, hout⟩, hkeep⟩ := h
  have hmode : p.frameFifo = true := p.oversize_frame hp
  have hwrite : Writes s i words open_ c r (write s i) := by
    rw [write, if_pos hmode]
    exact frameWrite_writes hp hframing hstored (frameWrite s i)
  have heq := step_eq (s := s) hr
  have hgood : (step s i).goodFrame = (write s i).goodFrame := by rw [heq]
  have hbad : (step s i).badFrame = (write s i).badFrame := by rw [heq]
  have hover : (step s i).overflow = (write s i).overflow := by rw [heq]
  constructor
  · obtain ⟨words', c', hnext, hframing', htake⟩ := hwrite.stored
    have hlen : (words.take c).length = c := by rw [List.length_take, Nat.min_eq_left hstored.commit_le]
    have hc : c ≤ c' := by
      have hsum := congrArg List.length htake
      rw [List.length_append, hlen, List.length_take, Nat.min_eq_left hnext.commit_le] at hsum
      omega
    have hfront : words.take c <+: words' :=
      (List.prefix_append _ _).trans (htake ▸ List.take_prefix c' words')
    refine ⟨words', c', ?_, hstored.read hout hr hnext hc hfront, ?_⟩
    · rw [watched_fst, heq]
      exact ⟨hframing'.unmarked, hframing'.keeping, hframing'.dropping⟩
    · rw [htake, hkeep, keptAt, hgood]
  · rw [Reports]
    split
    next hends =>
      obtain ⟨hlong, hdrops, hb, hg⟩ := hwrite.verdict hends
      exact ⟨hover ▸ hlong, hover ▸ hdrops, hbad ▸ hover ▸ hb, hgood ▸ hbad ▸ hover ▸ hg⟩
    next hopen =>
      obtain ⟨h₁, h₂, h₃⟩ := hwrite.quiet (Bool.eq_false_iff.mpr hopen)
      exact ⟨hover.trans h₁, hbad.trans h₂, hgood.trans h₃⟩

/-- A memory that is full, and not of one frame, has something to read. -/
theorem Stored.blocks (hp : p.dropOversizeFrame = true) (h : Stored s words c r) : Blocks s i := by
  intro hready
  have hmode : p.frameFifo = true := p.oversize_frame hp
  rw [sAxisTready, if_pos hmode, hp, Bool.and_true, Bool.or_eq_false_iff, Bool.or_eq_false_iff,
    Bool.not_eq_false'] at hready
  have hfull := h.full_iff.mp hready.1.1
  have hnot : words.length ≠ c + 2 ^ p.addrWidth := fun heq =>
    Bool.false_ne_true (hready.1.2.symm.trans (h.fullWr_iff.mpr heq))
  have hread := h.read_le
  have hcommit := h.commit_le
  rw [readable, h.window_eq]
  intro hnone
  have hlen := congrArg List.length hnone
  rw [List.length_append, List.length_drop, List.length_take, List.length_nil] at hlen
  omega

end Edges

/-! ## Runs -/

/-- Four words; bad frames are dropped. -/
def fourWordsDropping : Params 1 :=
  { fourWords with
    dropOversizeFrame := true
    dropBadFrame := true
    userBadFrameValue := 1
    userBadFrameMask := 1
    oversize_frame := fun _ => rfl
    bad_oversize := fun _ => ⟨rfl, rfl⟩
    full_oversize := fun h => absurd h Bool.false_ne_true
    mask_pos := fun _ => by decide }

def beatInputs (last bad : Bool) (data : BitVec 8) : Inputs 8 1 1 Unit :=
  ⟨false, ⟨data, 1, last, ((), BitVec.ofBool bad)⟩, true, true⟩

/-- A frame of five beats, a bad frame and a good one. -/
def threeFrames : List (Inputs 8 1 1 Unit) :=
  List.replicate 4 (beatInputs false false 0x10) ++
    [beatInputs true false 0x11, beatInputs false false 0x20, beatInputs true true 0x21,
      beatInputs false false 0x30, beatInputs true false 0x31] ++
    List.replicate 4 (cycleInputs false false false 0)

end MiscVerilogCores.AxisFifo
