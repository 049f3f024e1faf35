import Mathlib.Data.List.Forall2
import MiscVerilogCores.Verification.AxisFifo.Frames

/-! # Frames that are cut off

In the mode that never stops the source, a frame that finds the memory full is cut off: a word that marks
it as bad follows what was stored of it, as soon as there is room. -/

namespace MiscVerilogCores.AxisFifo

open Clocked RingMemory

variable {u d k : ℕ} {V : Type} {p : Params u}

/-- A frame, and whether it was reported to overflow. -/
abbrev Reported (d k u : ℕ) (V : Type) := List (Word d k u V) × Bool

/-- The frames that end, with what is reported of them. -/
def endedAt (q : State p d k V × List (Word d k u V)) (i : Inputs d k u V) : List (Reported d k u V) :=
  if accepts q.1 i && i.sAxis.tlast then [(q.2 ++ [i.sAxis], (step q.1 i).overflow)] else []

def ended (s : State p d k V) (is : List (Inputs d k u V)) : List (Reported d k u V) :=
  emitted framed endedAt (s, []) is

/-- The first beats of a frame, and a word that ends it and marks it as bad. -/
def CutOff (p : Params u) (frame piece : List (Word d k u V)) : Prop :=
  ∃ front marker, piece = front ++ [marker] ∧ front ≠ [] ∧ front <+: frame ∧
    front.length < frame.length ∧ marker.tlast = true ∧ marker.user.2 = p.userBadFrameValue

/-- What becomes of a frame. -/
def Becomes (p : Params u) (f : Reported d k u V) (piece : List (Word d k u V)) : Prop :=
  if f.2 then CutOff p f.1 piece else piece = f.1

/-- The frames that do not overflow are delivered, and some of the others are cut off. -/
structure Marks (s : State p d k V) (is : List (Inputs d k u V)) : Prop where
  frames : ∃ through pieces part, ((ended s is).filter fun f => !f.2).Sublist through ∧
    through.Sublist (ended s is) ∧ List.Forall₂ (Becomes p) through pieces ∧
    (∀ w ∈ part, w.tlast = false) ∧
    delivered s is <+: (pieces.flatten ++ part).map (visible p) ∧
    (pieces.flatten ++ part).length ≤ (delivered s is).length + (2 ^ p.addrWidth + p.ramPipeline + 1) ∧
    ∀ js : List (Inputs d k u V), (∀ j ∈ js, j.rst = false) →
      2 ^ p.addrWidth + p.ramPipeline + 1 ≤ js.countP Inputs.mAxisTready →
      (pieces.flatten ++ part).map (visible p) <+: delivered s (is ++ js)
  held : Along step Held s is

/-! ## States -/

/-- What is stored behind the pieces that are complete. -/
inductive Phase (s : State p d k V) (open_ : List (Word d k u V)) (ends through : List (Reported d k u V)) :
    List (Word d k u V) → Prop where
  | passing (unmarked : s.markFrame = false) (keeping : s.dropFrame = false) (sub : through.Sublist ends) :
      Phase s open_ ends through open_
  | skipping (unmarked : s.markFrame = false) (dropping : s.dropFrame = true) (sub : through.Sublist ends) :
      Phase s open_ ends through []
  | cutting {part : List (Word d k u V)} (marked : s.markFrame = true) (dropping : s.dropFrame = true)
      (sub : through.Sublist ends) (some : part ≠ []) (front : part <+: open_)
      (less : part.length < open_.length) : Phase s open_ ends through part
  | pending {part : List (Word d k u V)} (f : List (Word d k u V)) (marked : s.markFrame = true)
      (fresh : s.dropFrame = false → open_ = []) (sub : (through ++ [(f, true)]).Sublist ends)
      (some : part ≠ []) (front : part <+: f) (less : part.length < f.length) :
      Phase s open_ ends through part

/-- The frames and the pieces that they became, so far. -/
structure Marking (s : State p d k V) (open_ : List (Word d k u V)) (ends : List (Reported d k u V))
    (words : List (Word d k u V)) : Prop where
  sFrame_eq : s.sFrame = !open_.isEmpty
  more : ∀ w ∈ open_, w.tlast = false
  pieces : ∃ through pieces part, (ends.filter fun f => !f.2).Sublist through ∧
    List.Forall₂ (Becomes p) through pieces ∧ words = pieces.flatten ++ part ∧
    (∀ w ∈ part, w.tlast = false) ∧ Phase s open_ ends through part

section Edges

variable {s s' : State p d k V} {i : Inputs d k u V} {open_ words out : List (Word d k u V)}
  {ends through : List (Reported d k u V)} {pieces : List (List (Word d k u V))}
  {part : List (Word d k u V)} {r : ℕ}

/-- The frames that end at an edge that leads to `s'`. -/
def endsAt (open_ : List (Word d k u V)) (s : State p d k V) (i : Inputs d k u V) (s' : State p d k V) :
    List (Reported d k u V) :=
  if accepts s i && i.sAxis.tlast then [(open_ ++ [i.sAxis], s'.overflow)] else []

theorem endsAt_last (haccepts : accepts s i = true) (hlast : i.sAxis.tlast = true) :
    endsAt open_ s i s' = [(open_ ++ [i.sAxis], s'.overflow)] := by
  rw [endsAt, haccepts, hlast, Bool.and_self, if_pos rfl]

theorem endsAt_more (hmore : i.sAxis.tlast = false) : endsAt open_ s i s' = [] := by
  rw [endsAt, hmore, Bool.and_false, if_neg Bool.false_ne_true]

theorem endsAt_idle (hidle : accepts s i = false) : endsAt open_ s i s' = [] := by
  rw [endsAt, hidle, Bool.false_and, if_neg Bool.false_ne_true]

theorem frame_last (haccepts : accepts s i = true) (hlast : i.sAxis.tlast = true) :
    frame open_ s i = [] := by
  rw [frame, if_pos haccepts, if_pos hlast]

theorem frame_more (haccepts : accepts s i = true) (hmore : i.sAxis.tlast = false) :
    frame open_ s i = open_ ++ [i.sAxis] := by
  rw [frame, if_pos haccepts, if_neg (Bool.eq_false_iff.mp hmore)]

theorem frame_idle (hidle : accepts s i = false) : frame open_ s i = open_ := by
  rw [frame, if_neg (Bool.eq_false_iff.mp hidle)]

/-- The register tells whether a frame is open. -/
theorem Marking.quiet_frame (h : Marking s open_ ends words) (hp : p.markWhenFull = true) :
    (quiet s i).sFrame = !(frame open_ s i).isEmpty ∧ ∀ w ∈ frame open_ s i, w.tlast = false := by
  have hlastEnable := p.mark_last hp
  cases haccepts : accepts s i with
  | false =>
      rw [frame_idle haccepts]
      exact ⟨by simp [quiet, haccepts, h.sFrame_eq], h.more⟩
  | true =>
      cases hlast : i.sAxis.tlast with
      | true =>
          rw [frame_last haccepts hlast]
          exact ⟨by simp [quiet, haccepts, hlastEnable, hlast], fun _ hw => absurd hw List.not_mem_nil⟩
      | false =>
          rw [frame_more haccepts hlast]
          refine ⟨by simp [quiet, haccepts, hlastEnable, hlast], fun w hw => ?_⟩
          obtain hw | hw := List.mem_append.mp hw
          · exact h.more w hw
          · rwa [List.mem_singleton.mp hw]

theorem good_of_lost (hgood : (ends.filter fun f => !f.2).Sublist through)
    (hlost : ∀ f ∈ endsAt open_ s i s', f.2 = true) :
    ((ends ++ endsAt open_ s i s').filter fun f => !f.2).Sublist through := by
  have hnone : ((endsAt open_ s i s').filter fun f => !f.2) = [] := by
    refine List.filter_eq_nil_iff.mpr fun f hf => ?_
    rw [hlost f hf]
    exact Bool.false_ne_true
  rwa [List.filter_append, hnone, List.append_nil]

/-- No word is written. -/
theorem Marking.keep (h : Marking s open_ ends (pieces.flatten ++ part)) (hp : p.markWhenFull = true)
    (hframe : s'.sFrame = (quiet s i).sFrame)
    (hgood : (ends.filter fun f => !f.2).Sublist through)
    (hpieces : List.Forall₂ (Becomes p) through pieces) (hpart : ∀ w ∈ part, w.tlast = false)
    (hlost : ∀ f ∈ endsAt open_ s i s', f.2 = true)
    (hphase : Phase s' (frame open_ s i) (ends ++ endsAt open_ s i s') through part) :
    Marking s' (frame open_ s i) (ends ++ endsAt open_ s i s') (pieces.flatten ++ part) := by
  obtain ⟨hopen, hmore⟩ := h.quiet_frame (i := i) hp
  exact ⟨hframe.trans hopen, hmore, through, pieces, part, good_of_lost hgood hlost, hpieces, rfl, hpart,
    hphase⟩

/-- The piece that is complete with the word that marks it. -/
theorem becomes_cutOff {f : List (Word d k u V)} (hmark : s.markFrame = true) (hsome : part ≠ [])
    (hfront : part <+: f) (hless : part.length < f.length) :
    Becomes p (f, true) (part ++ [sAxis s i]) := by
  rw [Becomes, if_pos rfl]
  exact ⟨part, sAxis s i, rfl, hsome, hfront, hless, by simp [sAxis, hmark], by simp [sAxis, hmark]⟩

/-- A word is written that completes the piece of a frame. -/
theorem Marking.close (h : Marking s open_ ends (pieces.flatten ++ part)) (hp : p.markWhenFull = true)
    {f : Reported d k u V} {w : Word d k u V} (hframe : s'.sFrame = (quiet s i).sFrame)
    (hopen : frame open_ s i = []) (hunmarked : s'.markFrame = false) (hkeep : s'.dropFrame = false)
    (hgood : ((ends ++ endsAt open_ s i s').filter fun f => !f.2).Sublist (through ++ [f]))
    (hpieces : List.Forall₂ (Becomes p) through pieces) (hbecomes : Becomes p f (part ++ [w]))
    (hsub : (through ++ [f]).Sublist (ends ++ endsAt open_ s i s')) :
    Marking s' (frame open_ s i) (ends ++ endsAt open_ s i s') (pieces.flatten ++ part ++ [w]) := by
  obtain ⟨hsFrame, hmore⟩ := h.quiet_frame (i := i) hp
  refine ⟨hframe.trans hsFrame, hmore, through ++ [f], pieces ++ [part ++ [w]], [], hgood,
    List.rel_append hpieces (.cons hbecomes .nil), ?_, fun _ hw => absurd hw List.not_mem_nil, ?_⟩
  · simp
  · rw [hopen]
    exact .passing hunmarked hkeep hsub

/-- A beat of a frame that is dropped. -/
theorem Phase.skip (h : Phase s open_ ends through part) (haccepts : accepts s i = true)
    (hdrop : s.dropFrame = true) (hmark : s'.markFrame = s.markFrame)
    (hnext : s'.dropFrame = !i.sAxis.tlast) (hover : s'.overflow = i.sAxis.tlast) :
    Phase s' (frame open_ s i) (ends ++ endsAt open_ s i s') through part := by
  have hgrown : open_ <+: open_ ++ [i.sAxis] := List.prefix_append _ _
  cases hlast : i.sAxis.tlast with
  | false =>
      have hdrop' : s'.dropFrame = true := by rw [hnext, hlast]; rfl
      rw [endsAt_more hlast, List.append_nil, frame_more haccepts hlast]
      cases h with
      | passing _ hkeep => exact absurd (hkeep.symm.trans hdrop) Bool.false_ne_true
      | skipping hno _ hsub => exact .skipping (hmark.trans hno) hdrop' hsub
      | cutting hyes _ hsub hsome hfront hless =>
          exact .cutting (hmark.trans hyes) hdrop' hsub hsome (hfront.trans hgrown)
            (hless.trans_le hgrown.length_le)
      | pending f hyes _ hsub hsome hfront hless =>
          refine .pending f (hmark.trans hyes) (fun hkeep => ?_) hsub hsome hfront hless
          exact absurd (hkeep.symm.trans hdrop') Bool.false_ne_true
  | true =>
      have hdrop' : s'.dropFrame = false := by rw [hnext, hlast]; rfl
      have hmore : ends.Sublist (ends ++ [(open_ ++ [i.sAxis], true)]) := List.sublist_append_left _ _
      rw [endsAt_last haccepts hlast, hover, hlast, frame_last haccepts hlast]
      cases h with
      | passing _ hkeep => exact absurd (hkeep.symm.trans hdrop) Bool.false_ne_true
      | skipping hno _ hsub => exact .passing (hmark.trans hno) hdrop' (hsub.trans hmore)
      | cutting hyes _ hsub hsome hfront hless =>
          exact .pending (open_ ++ [i.sAxis]) (hmark.trans hyes) (fun _ => rfl) (hsub.append_right _) hsome
            (hfront.trans hgrown) (hless.trans_le hgrown.length_le)
      | pending f hyes _ hsub hsome hfront hless =>
          exact .pending f (hmark.trans hyes) (fun _ => rfl) (hsub.trans hmore) hsome hfront hless

/-- A beat that finds no room, or a mark that has not been written yet. -/
theorem Phase.cut (h : Phase s open_ ends through part) (haccepts : accepts s i = true)
    (hkeep : s.dropFrame = false) (hsFrame : s.sFrame = !open_.isEmpty)
    (hmark : s'.markFrame = (s.markFrame || s.sFrame)) (hnext : s'.dropFrame = !i.sAxis.tlast)
    (hover : s'.overflow = i.sAxis.tlast) :
    Phase s' (frame open_ s i) (ends ++ endsAt open_ s i s') through part := by
  have hgrown : open_ <+: open_ ++ [i.sAxis] := List.prefix_append _ _
  have hless : open_.length < (open_ ++ [i.sAxis]).length := by
    rw [List.length_append]
    exact Nat.lt_succ_self _
  have hmore : ends.Sublist (ends ++ [(open_ ++ [i.sAxis], true)]) := List.sublist_append_left _ _
  cases hlast : i.sAxis.tlast with
  | false =>
      have hdrop' : s'.dropFrame = true := by rw [hnext, hlast]; rfl
      rw [endsAt_more hlast, List.append_nil, frame_more haccepts hlast]
      cases h with
      | skipping _ hdrop | cutting _ hdrop => exact absurd (hkeep.symm.trans hdrop) Bool.false_ne_true
      | passing hno _ hsub =>
          by_cases hempty : open_ = []
          · have hno' : s'.markFrame = false := by rw [hmark, hno, hsFrame, hempty]; rfl
            rw [hempty]
            exact .skipping hno' hdrop' hsub
          · have hyes' : s'.markFrame = true := by simp [hmark, hsFrame, hempty]
            exact .cutting hyes' hdrop' hsub hempty hgrown hless
      | pending f hyes _ hsub hsome hfront hshort =>
          refine .pending f (by rw [hmark, hyes]; rfl) (fun hkeep' => ?_) hsub hsome hfront hshort
          exact absurd (hkeep'.symm.trans hdrop') Bool.false_ne_true
  | true =>
      have hdrop' : s'.dropFrame = false := by rw [hnext, hlast]; rfl
      rw [endsAt_last haccepts hlast, hover, hlast, frame_last haccepts hlast]
      cases h with
      | skipping _ hdrop | cutting _ hdrop => exact absurd (hkeep.symm.trans hdrop) Bool.false_ne_true
      | passing hno _ hsub =>
          by_cases hempty : open_ = []
          · have hno' : s'.markFrame = false := by rw [hmark, hno, hsFrame, hempty]; rfl
            subst hempty
            exact .passing hno' hdrop' (hsub.trans hmore)
          · have hyes' : s'.markFrame = true := by simp [hmark, hsFrame, hempty]
            exact .pending _ hyes' (fun _ => rfl) (hsub.append_right _) hempty hgrown hless
      | pending f hyes _ hsub hsome hfront hshort =>
          exact .pending f (by rw [hmark, hyes]; rfl) (fun _ => rfl) (hsub.trans hmore) hsome hfront hshort

/-- The frame that the mark is for. -/
theorem Phase.marked (h : Phase s open_ ends through part) (hmark : s.markFrame = true)
    (hends : s.dropFrame = true → endsAt open_ s i s' = [(open_ ++ [i.sAxis], true)]) :
    ∃ f, part ≠ [] ∧ part <+: f ∧ part.length < f.length ∧
      (through ++ [(f, true)]).Sublist (ends ++ endsAt open_ s i s') := by
  have hgrown : open_ <+: open_ ++ [i.sAxis] := List.prefix_append _ _
  cases h with
  | passing hno | skipping hno => exact absurd (hno.symm.trans hmark) Bool.false_ne_true
  | cutting _ hdrop hsub hsome hfront hless =>
      refine ⟨open_ ++ [i.sAxis], hsome, hfront.trans hgrown, hless.trans_le hgrown.length_le, ?_⟩
      rw [hends hdrop]
      exact hsub.append_right _
  | pending f _ _ hsub hsome hfront hless =>
      exact ⟨f, hsome, hfront, hless, hsub.trans (List.sublist_append_left _ _)⟩

/-- Only the two flags matter. -/
theorem Phase.congr (h : Phase s open_ ends through part) (hmark : s'.markFrame = s.markFrame)
    (hdrop : s'.dropFrame = s.dropFrame) : Phase s' open_ ends through part := by
  cases h with
  | passing hno hkeep hsub => exact .passing (hmark.trans hno) (hdrop.trans hkeep) hsub
  | skipping hno hdropping hsub => exact .skipping (hmark.trans hno) (hdrop.trans hdropping) hsub
  | cutting hyes hdropping hsub hsome hfront hless =>
      exact .cutting (hmark.trans hyes) (hdrop.trans hdropping) hsub hsome hfront hless
  | pending f hyes hfresh hsub hsome hfront hless =>
      exact .pending f (hmark.trans hyes) (hdrop ▸ hfresh) hsub hsome hfront hless

theorem Phase.sublist (h : Phase s open_ ends through part) : through.Sublist ends := by
  cases h with
  | passing _ _ hsub | skipping _ _ hsub | cutting _ _ hsub => exact hsub
  | pending _ _ _ hsub => exact (List.sublist_append_left _ _).trans hsub

/-- The mark is written. -/
theorem Marking.mark (h : Marking s open_ ends (pieces.flatten ++ part)) (hp : p.markWhenFull = true)
    (hmark : s.markFrame = true) (hphase : Phase s open_ ends through part)
    (hgood : (ends.filter fun f => !f.2).Sublist through)
    (hpieces : List.Forall₂ (Becomes p) through pieces)
    (hends : s.dropFrame = true → endsAt open_ s i s' = [(open_ ++ [i.sAxis], true)])
    (hlost : ∀ f ∈ endsAt open_ s i s', f.2 = true) (hframe : s'.sFrame = (quiet s i).sFrame)
    (hopen : frame open_ s i = []) (hunmarked : s'.markFrame = false) (hkeep : s'.dropFrame = false) :
    Marking s' (frame open_ s i) (ends ++ endsAt open_ s i s')
      (pieces.flatten ++ part ++ [sAxis s i]) := by
  obtain ⟨f, hsome, hfront, hless, hsub⟩ := hphase.marked hmark hends
  exact h.close hp hframe hopen hunmarked hkeep
    ((good_of_lost hgood hlost).trans (List.sublist_append_left _ _)) hpieces
    (becomes_cutOff hmark hsome hfront hless) hsub

theorem Marking.of_write (hp : p.markWhenFull = true) (h : Marking s open_ ends words)
    (hstored : Stored s words words.length r) (hw : NormalWrite s i s') :
    ∃ words', Stored s' words' words'.length r ∧ words <+: words' ∧
      Marking s' (frame open_ s i) (ends ++ endsAt open_ s i s') words' := by
  obtain ⟨through, pieces, part, hgood, hpieces, rfl, hpart, hphase⟩ := h.pieces
  have hlost {x : State p d k V} (hover : i.sAxis.tlast = true → x.overflow = true) :
      ∀ f ∈ endsAt open_ s i x, f.2 = true := by
    intro f hf
    rw [endsAt] at hf
    split at hf
    next hends =>
      rw [Bool.and_eq_true] at hends
      rw [List.mem_singleton.mp hf]
      exact hover hends.2
    next => exact absurd hf List.not_mem_nil
  have hlonger (w : Word d k u V) : pieces.flatten ++ part <+: pieces.flatten ++ part ++ [w] :=
    List.prefix_append _ _
  have hpushed (hroom : full s = false) : Stored (commit (store (quiet s i) i))
      (pieces.flatten ++ part ++ [sAxis s i]) (pieces.flatten ++ part ++ [sAxis s i]).length r := by
    have hlen : (pieces.flatten ++ part ++ [sAxis s i]).length = (pieces.flatten ++ part).length + 1 :=
      List.length_append ..
    rw [hlen]
    exact hstored.pushedCommitted i hroom
  cases hw with
  | skipped haccepts _ hdrop hmore =>
      exact ⟨_, hstored.quieted i, List.prefix_rfl, h.keep hp rfl hgood hpieces hpart
        (hlost fun hlast => absurd (hmore.symm.trans hlast) Bool.false_ne_true)
        (hphase.skip haccepts hdrop rfl (by rw [hmore]; exact hdrop) hmore.symm)⟩
  | skippedLast haccepts _ hdrop hlast =>
      exact ⟨_, hstored.congr rfl rfl rfl rfl, List.prefix_rfl, h.keep hp rfl hgood hpieces hpart
        (hlost fun _ => rfl) (hphase.skip haccepts hdrop rfl (by rw [hlast]; rfl) hlast.symm)⟩
  | skippedMarked haccepts _ hdrop hlast hroom hmark =>
      exact ⟨_, (hpushed hroom).congr rfl rfl rfl rfl, hlonger _, h.mark hp hmark hphase hgood hpieces
        (fun _ => endsAt_last haccepts hlast) (hlost fun _ => rfl) rfl (frame_last haccepts hlast) rfl rfl⟩
  | cut haccepts _ hkeep hblocked =>
      exact ⟨_, hstored.congr rfl rfl rfl rfl, List.prefix_rfl, h.keep hp rfl hgood hpieces hpart
        (hlost fun hlast => hlast) (hphase.cut haccepts hkeep h.sFrame_eq rfl rfl rfl)⟩
  | stored haccepts hkeep hroom hunmarked =>
      have hword : sAxis s i = i.sAxis := sAxis_eq (hunmarked hp)
      obtain ⟨rfl, hsub⟩ : part = open_ ∧ through.Sublist ends := by
        cases hphase with
        | passing _ _ hsub => exact ⟨rfl, hsub⟩
        | skipping _ hdrop | cutting _ hdrop =>
            exact absurd ((hkeep hp).symm.trans hdrop) Bool.false_ne_true
        | pending _ hyes => exact absurd ((hunmarked hp).symm.trans hyes) Bool.false_ne_true
      have hpush := hpushed hroom
      rw [hword] at hpush
      refine ⟨_, hpush, hlonger _, ?_⟩
      cases hlast : i.sAxis.tlast with
      | true =>
          have hends : endsAt part s i (commit (store (quiet s i) i)) = [(part ++ [i.sAxis], false)] :=
            endsAt_last haccepts hlast
          refine h.close hp (f := (part ++ [i.sAxis], false)) rfl (frame_last haccepts hlast) (hunmarked hp)
            (hkeep hp) ?_ hpieces ?_ ?_
          · rw [hends, List.filter_append]
            exact hgood.append (List.Sublist.refl _)
          · rw [Becomes, if_neg Bool.false_ne_true]
          · rw [hends]
            exact hsub.append_right _
      | false =>
          have hpart' : ∀ w ∈ part ++ [i.sAxis], w.tlast = false := by
            intro w hw
            obtain hw | hw := List.mem_append.mp hw
            · exact hpart w hw
            · rwa [List.mem_singleton.mp hw]
          obtain ⟨hframe, hmore⟩ := h.quiet_frame (i := i) hp
          rw [endsAt_more hlast, List.append_nil]
          rw [frame_more haccepts hlast] at hframe hmore ⊢
          exact ⟨hframe, hmore, through, pieces, part ++ [i.sAxis], hgood, hpieces, List.append_assoc .., hpart',
            .passing (hunmarked hp) (hkeep hp) hsub⟩
  | marked hidle _ hroom hkeep hmark =>
      have hopen : frame open_ s i = [] := by
        rw [frame_idle hidle]
        cases hphase with
        | passing hno => exact absurd (hno.symm.trans hmark) Bool.false_ne_true
        | skipping _ hdrop | cutting _ hdrop => exact absurd (hkeep.symm.trans hdrop) Bool.false_ne_true
        | pending _ _ hfresh => exact hfresh hkeep
      refine ⟨_, (hpushed hroom).congr rfl rfl rfl rfl, hlonger _, h.mark hp hmark hphase hgood hpieces
        (fun hdrop => absurd (hkeep.symm.trans hdrop) Bool.false_ne_true) ?_ rfl hopen rfl hkeep⟩
      rw [endsAt_idle hidle]
      exact fun f hf => absurd hf List.not_mem_nil
  | idle hidle =>
      have hsame : (quiet s i).sFrame = s.sFrame := by simp [quiet, hidle]
      rw [endsAt_idle hidle, List.append_nil, frame_idle hidle]
      refine ⟨_, hstored.quieted i, List.prefix_rfl, hsame.trans h.sFrame_eq, h.more, through, pieces, part,
        hgood, hpieces, rfl, hpart, ?_⟩
      exact hphase.congr rfl rfl

/-- The ledgers of the frames that ended and of what was taken. -/
def MarkLedger (q : State p d k V × List (Word d k u V)) (ends : List (Reported d k u V))
    (out : List (Word d k u V)) : Prop :=
  ∃ words, Marking q.1 q.2 ends words ∧ Book q.1 words words.length out

theorem markLedger_reset (hr : i.rst = true) : MarkLedger (step s i, []) [] [] := by
  refine ⟨[], ?_, book_reset hr⟩
  rw [step, if_pos hr]
  refine ⟨rfl, fun _ hw => absurd hw List.not_mem_nil, [], [], [], .slnil, .nil, rfl,
    fun _ hw => absurd hw List.not_mem_nil, .passing rfl rfl .slnil⟩

theorem MarkLedger.next (hp : p.markWhenFull = true) (h : MarkLedger (s, open_) ends out)
    (hr : i.rst = false) :
    MarkLedger (framed (s, open_) i) (ends ++ endedAt (s, open_) i) (out ++ takenAt s i) := by
  obtain ⟨words, hmarking, r, hstored, hout⟩ := h
  have hwrite : NormalWrite s i (write s i) := by
    rw [write, if_neg (Bool.eq_false_iff.mp (p.mark_frame hp))]
    exact normalWrite s i (p.mark_frame hp)
  obtain ⟨words', hnext, hfront, hmark⟩ := hmarking.of_write hp hstored hwrite
  have hbook := hstored.read hout hr hnext hfront.length_le ((List.take_prefix _ _).trans hfront)
  have heq := step_eq (s := s) hr
  have hends : endsAt open_ s i (write s i) = endedAt (s, open_) i := by
    rw [endsAt, endedAt, heq]
  refine ⟨words', ?_, hbook⟩
  rw [← hends, watched_fst, heq]
  obtain ⟨through, pieces, part, hgood, hpieces, hwords, hpart, hphase⟩ := hmark.pieces
  refine ⟨hmark.sFrame_eq, hmark.more, through, pieces, part, hgood, hpieces, hwords, hpart, ?_⟩
  exact hphase.congr rfl rfl

end Edges

/-! ## Runs -/

/-- From reset, frames are delivered whole or cut off and marked, however the ports are stalled. -/
theorem marks (hp : p.markWhenFull = true) (s₀ : State p d k V) {r : Inputs d k u V}
    {is : List (Inputs d k u V)} (hr : r.rst = true) (hi : ∀ i ∈ is, i.rst = false) :
    Marks (step s₀ r) is := by
  have hrun : Along step (fun _ i => i.rst = false) (step s₀ r) is := along_of_inputs step _ hi
  have hframed : Along framed (fun _ i => i.rst = false) (step s₀ r, ([] : List (Word d k u V))) is :=
    along_of_inputs framed _ hi
  have hend : MarkLedger (run framed (step s₀ r, []) is) (ended (step s₀ r) is)
      (emitted framed (fun q i => takenAt q.1 i) (step s₀ r, []) is) :=
    run_ledger MarkLedger (fun q i _ _ h hr => h.next hp hr) (markLedger_reset hr) hframed
  have htaken : emitted framed (fun q i => takenAt q.1 i) (step s₀ r, []) is = taken (step s₀ r) is :=
    Handshake.emitted_watched frame takenAt _ is
  rw [htaken] at hend
  obtain ⟨words, hmarking, hbook⟩ := hend
  rw [run_watched_fst] at hbook
  obtain ⟨through, pieces, part, hgood, hpieces, rfl, hpart, hphase⟩ := hmarking.pieces
  have hfront := hbook.prefix_take
  have hall := hbook.readable_eq
  rw [List.take_length] at hfront hall
  refine ⟨⟨through, pieces, part, hgood, hphase.sublist, hpieces, hpart, ?_, ?_, fun js hj hready => ?_⟩,
    hrun.mono fun _ _ hr => held hr⟩
  · rw [delivered_eq]
    exact hfront.map _
  · rw [delivered_eq, List.length_map]
    exact hbook.length_le
  · obtain ⟨rd, hstored, -⟩ := hbook
    rw [delivered_eq, taken, emitted_append]
    refine List.IsPrefix.map _ ?_
    rw [← hall]
    exact (List.prefix_append_right_inj _).mpr (hstored.delivers hj hready)

/-- Four words; frames are marked when they are full. -/
def fourWordsMarking : Params 1 :=
  { fourWords with
    frameFifo := false
    markWhenFull := true
    userEnable := true
    userBadFrameValue := 1
    userBadFrameMask := 1
    frame_last := fun h => absurd h Bool.false_ne_true
    oversize_frame := fun h => absurd h Bool.false_ne_true
    bad_oversize := fun h => absurd h Bool.false_ne_true
    full_oversize := fun h => absurd h Bool.false_ne_true
    mask_pos := fun _ => by decide
    mark_frame := fun _ => rfl
    mark_last := fun _ => rfl }

/-- A frame of eight beats that nobody takes, a frame of one beat and a pause. -/
def longFrame : List (Inputs 8 1 1 Unit) :=
  (List.replicate 7 (beatInputs false false 0x10) ++ [beatInputs true false 0x11]).map
      (fun i => { i with mAxisTready := false }) ++
    beatInputs true false 0x20 :: List.replicate 12 (cycleInputs false false false 0)

theorem marks_long :
    let s : State fourWordsMarking 8 1 Unit := step default (cycleInputs true false false 0)
    delivered s longFrame = List.replicate 6 ⟨0x10, 1, false, ((), 0)⟩ ++ [⟨0, 1, true, ((), 1)⟩] ∧
      Marks s longFrame :=
  ⟨by decide, marks rfl default rfl (by decide)⟩

end MiscVerilogCores.AxisFifo
