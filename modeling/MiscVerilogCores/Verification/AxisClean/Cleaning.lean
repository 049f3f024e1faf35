import MiscVerilogCores.Library.Packets
import MiscVerilogCores.Model.AxisClean
import MiscVerilogCores.Verification.SyncFifo.Draining

/-! # Empty beats are taken out

The words that have gone into the FIFO, with the one that is held back, are the kept words of the
accepted beats. A beat that is offered while the register cannot go on with it is what breaks this:
the word is then put into the FIFO twice. -/

namespace MiscVerilogCores.AxisClean

open Clocked Packets

variable {WIDTH DEPTH : ℕ}

/-! ## What is to come out -/

section Specification

variable {α : Type*}

/-- The kept items of a frame. -/
def kept (frame : List (Bool × α)) : List α :=
  frame.filterMap fun b => if b.1 then some b.2 else none

/-- The items, with a flag on the last of them. -/
def flagged (items : List α) : List (Bool × α) :=
  items.dropLast.map (false, ·) ++ (items.getLast?.map (true, ·)).toList

theorem kept_concat (frame : List (Bool × α)) (keep : Bool) (a : α) :
    kept (frame ++ [(keep, a)]) = kept frame ++ if keep then [a] else [] := by
  cases keep <;> simp [kept]

theorem flagged_nil : flagged ([] : List α) = [] := rfl

theorem flagged_concat (items : List α) (a : α) :
    flagged (items ++ [a]) = items.map (false, ·) ++ [(true, a)] := by
  simp [flagged]

def framesOf (bs : List (Beat WIDTH)) : Frames (Bool × BitVec WIDTH) :=
  frames (bs.map fun b => (b.tlast, b.tkeep, b.tdata))

/-- The kept words of the frames that have ended. -/
def finished (bs : List (Beat WIDTH)) : List (Bool × BitVec WIDTH) :=
  (framesOf bs).done.flatMap fun frame => flagged (kept frame)

/-- The kept words of the frame that has not ended. -/
def unfinished (bs : List (Beat WIDTH)) : List (BitVec WIDTH) := kept (framesOf bs).frame

/-- The kept words for which it is known whether they end their frame. -/
def cleaned (bs : List (Beat WIDTH)) : List (Bool × BitVec WIDTH) :=
  finished bs ++ (unfinished bs).dropLast.map (false, ·)

section Concat

variable (bs : List (Beat WIDTH)) (b : Beat WIDTH)

theorem finished_concat : finished (bs ++ [b]) =
    finished bs ++ if b.tlast then flagged (unfinished bs ++ if b.tkeep then [b.tdata] else [])
      else [] := by
  rw [unfinished, ← kept_concat]
  cases hlast : b.tlast <;>
    simp [finished, framesOf, frames_concat, Frames.push, hlast]

theorem unfinished_concat : unfinished (bs ++ [b]) =
    if b.tlast then [] else unfinished bs ++ if b.tkeep then [b.tdata] else [] := by
  rw [unfinished, unfinished, ← kept_concat]
  cases hlast : b.tlast <;>
    simp [ framesOf, frames_concat, Frames.push, hlast, kept]

end Concat

end Specification

/-! ## The register -/

/-- What is in the FIFO or has left it, beside the word that is held back. -/
def Registered (held : Option (Bool × BitVec WIDTH)) (bs : List (Beat WIDTH))
    (words : List (Bool × BitVec WIDTH)) : Prop :=
  match held with
  | none => unfinished bs = [] ∧ words = finished bs
  | some (false, a) =>
      ∃ ks, unfinished bs = ks ++ [a] ∧ words = finished bs ++ ks.map (false, ·)
  | some (true, a) => unfinished bs = [] ∧ words ++ [(true, a)] = finished bs

/-- A word that is held back although its frame has ended. -/
def endedWord (held : Option (Bool × BitVec WIDTH)) : List (Bool × BitVec WIDTH) :=
  match held with
  | some (true, a) => [(true, a)]
  | _ => []

namespace Registered

variable {bs : List (Beat WIDTH)} {words : List (Bool × BitVec WIDTH)} {last : Bool}
  {a d : BitVec WIDTH}

theorem load (h : Registered none bs words) :
    Registered (some (last, d)) (bs ++ [⟨last, true, d⟩]) words := by
  obtain ⟨hopen, hwords⟩ := h
  cases last
  · exact ⟨[], by simp [unfinished_concat, hopen], by simp [finished_concat, hwords]⟩
  · have hone : flagged [d] = [(true, d)] := rfl
    exact ⟨by simp [unfinished_concat], by simp [finished_concat, hopen, hwords, hone]⟩

theorem skip (h : Registered none bs words) : Registered none (bs ++ [⟨last, false, d⟩]) words := by
  obtain ⟨hopen, hwords⟩ := h
  cases last
  · exact ⟨by simp [unfinished_concat, hopen], by simp [finished_concat, hwords]⟩
  · exact ⟨by simp [unfinished_concat], by simp [finished_concat, hopen, hwords, flagged_nil]⟩

/-- An empty beat may end the frame of the word that is held back. -/
theorem trail (h : Registered (some (false, a)) bs words) (last : Bool) (d : BitVec WIDTH) :
    Registered (some (last, a)) (bs ++ [⟨last, false, d⟩]) words := by
  obtain ⟨ks, hopen, hwords⟩ := h
  cases last
  · exact ⟨ks, by simp [unfinished_concat, hopen], by simp [finished_concat, hwords]⟩
  · refine ⟨by simp [unfinished_concat], ?_⟩
    simp only [finished_concat, hopen, hwords, if_true, Bool.false_eq_true, if_false,
      List.append_nil, flagged_concat, List.append_assoc]

theorem push (h : Registered (some (true, a)) bs words) :
    Registered none bs (words ++ [(true, a)]) :=
  h

/-- The next kept word takes the place of the one that is held back. -/
theorem shift {held : Bool} (h : Registered (some (held, a)) bs words) (last : Bool)
    (d : BitVec WIDTH) :
    Registered (some (last, d)) (bs ++ [⟨last, true, d⟩]) (words ++ [(held, a)]) := by
  cases held
  · obtain ⟨ks, hopen, hwords⟩ := h
    cases last
    · refine ⟨ks ++ [a], by simp [unfinished_concat, hopen], ?_⟩
      simp [finished_concat, hwords]
    · refine ⟨by simp [unfinished_concat], ?_⟩
      rw [finished_concat, hopen, hwords, if_pos rfl, if_pos rfl, flagged_concat, List.map_append,
        List.map_singleton]
      simp
  · exact (push h).load

/-- Whatever is held back, the words are those that can be known. -/
theorem cleaned_eq {held : Option (Bool × BitVec WIDTH)} (h : Registered held bs words) :
    words <+: cleaned bs ∧
      finished bs <+: words ++ endedWord held := by
  match held with
  | none =>
      obtain ⟨hopen, rfl⟩ := h
      simp [cleaned]
  | some (false, a) =>
      obtain ⟨ks, hopen, rfl⟩ := h
      simp [cleaned, hopen]
  | some (true, a) =>
      obtain ⟨hopen, hwords⟩ := h
      rw [cleaned, ← hwords, List.append_assoc]
      exact ⟨List.prefix_append _ _, List.prefix_rfl⟩

end Registered

/-! ## Words in the FIFO -/

/-- A word of the FIFO, with its `tlast`. -/
def unpack (w : BitVec (1 + WIDTH)) : Bool × BitVec WIDTH := (w.msb, w.setWidth WIDTH)

theorem unpack_append (last : Bool) (data : BitVec WIDTH) :
    unpack (BitVec.ofBool last ++ data) = (last, data) := by
  rw [unpack, BitVec.msb_append, BitVec.setWidth_append]
  simp

/-- The words in the FIFO, oldest first. -/
def queued (s : State WIDTH DEPTH) : List (Bool × BitVec WIDTH) :=
  (SyncFifo.contents (regs DEPTH) s.fifo).map unpack

/-- The word that goes into the FIFO. -/
def pushed (s : State WIDTH DEPTH) (i : Inputs WIDTH) : List (Bool × BitVec WIDTH) :=
  if validW s i && readyW s then [(s.xlast, s.xdata)] else []

/-- The edges at which no word is put into the FIFO twice: a kept beat that comes while nothing is
held is accepted, and an empty one neither comes with the last word of the frame before, nor ends the
frame without being accepted. A deep FIFO may not overwrite its output register either. -/
structure Clear (s : State WIDTH DEPTH) (i : Inputs WIDTH) : Prop where
  reset : i.reset = false
  loads : i.sTvalid = true → i.sTkeep = true → s.xvalid = false → readyW s = true
  trails : i.sTvalid = true → i.sTkeep = false → s.xvalid = true →
    if readyW s then s.xlast = false else i.sTlast = true → s.xlast = true
  deep : DEPTH > 32 → ¬SyncFifo.Overwrites s.fifo (fifoInputs s i)

/-- The word that is held back. -/
def held (s : State WIDTH DEPTH) : Option (Bool × BitVec WIDTH) :=
  if s.xvalid then some (s.xlast, s.xdata) else none

theorem regs_eq (DEPTH : ℕ) : regs DEPTH = 0 ∨ 2 < regs DEPTH := by
  rw [regs]
  split_ifs <;> simp

/-- What the FIFO and the register agree on. -/
structure Sound (s : State WIDTH DEPTH) : Prop where
  fifo : SyncFifo.Inv (regs DEPTH) s.fifo
  starting : SyncFifo.Starting s.fifo → s.xvalid = false
  full : s.xvalid = true → readyW s = false →
    (SyncFifo.sramWords s.fifo).length = 2 ^ abits DEPTH

section Step

variable {s : State WIDTH DEPTH} {i : Inputs WIDTH}

theorem Sound.good (h : Sound s) (hc : Clear s i) :
    SyncFifo.Good (regs DEPTH) s.fifo (fifoInputs s i) := by
  refine ⟨hc.reset, fun _ hstart => ?_, fun hover => ?_⟩
  · have hx := h.starting hstart
    simp [fifoInputs, validW, hx]
  · by_cases hdeep : DEPTH > 32
    · exact hc.deep hdeep hover
    · obtain ⟨-, -, -, -, ht, -⟩ := hover
      simp [h.fifo.1.unloaded (by simp [regs, hdeep])] at ht

theorem Sound.next (h : Sound s) (hc : Clear s i) : Sound (step s i) where
  fifo := (SyncFifo.step_conserves h.fifo (h.good hc)).1
  starting := fun hstart => absurd hstart (SkidLoader.started_step _ _ _ hc.reset)
  full := fun _ hw => h.fifo.full_of_not_ready hc.reset hw

theorem delivered_eq : delivered s i =
    (SyncFifo.delivered (regs DEPTH) s.fifo (fifoInputs s i)).map unpack := by
  rw [SyncFifo.delivered, apply_ite (List.map unpack), List.map_singleton, List.map_nil]
  rfl

/-- One edge of the FIFO. -/
theorem Sound.queued_step (h : Sound s) (hc : Clear s i) :
    queued s ++ pushed s i = delivered s i ++ queued (step s i) := by
  have hmoved := (SyncFifo.step_conserves h.fifo (h.good hc)).2
  have haccepted : (SyncFifo.accepted s.fifo (fifoInputs s i)).map unpack = pushed s i := by
    rw [SyncFifo.accepted, apply_ite (List.map unpack), List.map_singleton]
    simp only [fifoInputs, unpack_append, List.map_nil]
    rfl
  rw [delivered_eq, ← haccepted, queued, queued, ← List.map_append, ← List.map_append]
  exact congrArg (List.map unpack) hmoved

/-- A word that the FIFO does not take stays held back. -/
theorem held_of_stalled (hc : Clear s i) (hx : s.xvalid = true) (hw : readyW s = false) :
    held (step s i) = some (s.xlast, s.xdata) := by
  have hr := hc.reset
  have htrails := hc.trails
  cases hv : i.sTvalid <;> cases hk : i.sTkeep <;> cases ht : i.sTlast <;> cases hl : s.xlast <;>
    simp_all [held, step, storeW]

/-- One edge of the register. -/
theorem registered_next (hc : Clear s i) {bs : List (Beat WIDTH)}
    {words : List (Bool × BitVec WIDTH)} (h : Registered (held s) bs words) :
    Registered (held (step s i)) (bs ++ accepted s i) (words ++ pushed s i) := by
  have hr := hc.reset
  cases hx : s.xvalid
  · rw [held, hx, if_neg Bool.false_ne_true] at h
    have hpushed : pushed s i = [] := by simp [pushed, validW, hx]
    rw [hpushed, List.append_nil]
    cases hv : i.sTvalid
    · simpa [held, step, accepted, storeW, hr, hx, hv] using h
    · cases hk : i.sTkeep
      · cases hw : readyW s
        · simpa [held, step, accepted, storeW, sTready, hr, hx, hv, hk, hw] using h
        · simpa [held, step, accepted, storeW, sTready, hr, hx, hv, hk, hw] using h.skip
      · have hw := hc.loads hv hk hx
        simpa [held, step, accepted, storeW, sTready, hr, hx, hv, hk, hw] using h.load
  · rw [held, hx, if_pos rfl] at h
    have htrails := hc.trails
    rw [hx] at htrails
    cases hw : readyW s
    · simpa [held_of_stalled hc hx hw, accepted, pushed, sTready, hw] using h
    · cases hl : s.xlast <;> rw [hl] at h <;> cases hv : i.sTvalid
      · simpa [held, step, accepted, pushed, storeW, validW, hr, hx, hw, hl, hv] using h
      · cases hk : i.sTkeep
        · have htrail := h.trail i.sTlast i.sTdata
          cases ht : i.sTlast <;>
            simpa [held, step, accepted, pushed, storeW, validW, sTready, hr, hx, hw, hl, hv, hk, ht]
              using htrail
        · have hshift := h.shift i.sTlast i.sTdata
          simpa [held, step, accepted, pushed, storeW, validW, sTready, hr, hx, hw, hl, hv, hk]
            using hshift
      · simpa [held, step, accepted, pushed, storeW, validW, hr, hx, hw, hl, hv] using h.push
      · cases hk : i.sTkeep
        · simp [hv, hk, hw, hl] at htrails
        · have hshift := h.shift i.sTlast i.sTdata
          simpa [held, step, accepted, pushed, storeW, validW, sTready, hr, hx, hw, hl, hv, hk]
            using hshift

end Step

/-! ## Runs -/

/-- What the words that have been delivered and those on their way say of the accepted beats. -/
structure Ledger (s : State WIDTH DEPTH) (bs : List (Beat WIDTH))
    (ws : List (Bool × BitVec WIDTH)) : Prop extends Sound s where
  registered : Registered (held s) bs (ws ++ queued s)

theorem Ledger.next {s : State WIDTH DEPTH} {bs : List (Beat WIDTH)}
    {ws : List (Bool × BitVec WIDTH)} {i : Inputs WIDTH} (h : Ledger s bs ws) (hc : Clear s i) :
    Ledger (step s i) (bs ++ accepted s i) (ws ++ delivered s i) := by
  refine ⟨h.toSound.next hc, ?_⟩
  have hstep := registered_next hc h.registered
  rwa [List.append_assoc, h.toSound.queued_step hc, ← List.append_assoc] at hstep

theorem ledger_afterReset (s : State WIDTH DEPTH) (i : Inputs WIDTH) :
    Ledger (afterReset s i) [] [] := by
  obtain ⟨hfifo, hnil⟩ := SyncFifo.inv_of_reset (regs DEPTH) s.fifo
    (i := fifoInputs s { i with reset := true }) rfl
  have hx : (afterReset s i).xvalid = false := by simp [afterReset, step]
  refine ⟨⟨hfifo, fun _ => hx, fun hval => absurd hval (by simp [hx])⟩, ?_⟩
  have hqueued : queued (afterReset s i) = [] := by
    change List.map unpack _ = []
    rw [List.map_eq_nil_iff]
    exact hnil
  rw [held, hx, if_neg Bool.false_ne_true, hqueued]
  exact ⟨rfl, rfl⟩

/-! ## Delivery -/

/-- The edges until the oldest word in the FIFO is on the output port; a word that is held back goes
into an empty FIFO first. -/
def wait (s : State WIDTH DEPTH) : ℕ :=
  if queued s = [] then 3 else SyncFifo.lag (regs DEPTH) s.fifo

/-- These words are still to be delivered, and `rank` bounds the cycles with `m_tready` until they
are. -/
structure Owes (s : State WIDTH DEPTH) (left : List (Bool × BitVec WIDTH)) (rank : ℕ) : Prop
    extends Sound s where
  owed : left <+: queued s ++ endedWord (held s)
  rank : 4 * left.length + wait s ≤ rank

section Delivery

variable {s : State WIDTH DEPTH} {i : Inputs WIDTH} {left : List (Bool × BitVec WIDTH)} {rank : ℕ}

/-- A word whose frame has ended goes into the FIFO before any other. -/
theorem endedWord_front (hc : Clear s i) :
    endedWord (held s) <+: pushed s i ++ endedWord (held (step s i)) := by
  cases hx : s.xvalid
  · simp [held, hx, endedWord]
  · cases hl : s.xlast
    · simp [held, hx, hl, endedWord]
    · cases hw : readyW s
      · rw [held_of_stalled hc hx hw]
        simp [held, hx, hl, pushed, hw]
      · simp [held, hx, hl, endedWord, pushed, validW, hw]

theorem length_delivered_le : (delivered s i).length ≤ 1 := by
  rw [delivered]
  split_ifs <;> simp

/-- What is left after an edge, behind what it delivers. -/
theorem Owes.split (h : Owes s left rank) (hc : Clear s i) (hne : left ≠ []) :
    ∃ left', left = delivered s i ++ left' ∧
      left' <+: queued (step s i) ++ endedWord (held (step s i)) := by
  have hlonger : left <+: delivered s i ++ (queued (step s i) ++ endedWord (held (step s i))) := by
    rw [← List.append_assoc, ← h.toSound.queued_step hc, List.append_assoc]
    exact h.owed.trans ((List.prefix_append_right_inj _).mpr (endedWord_front hc))
  have hpos : 0 < left.length := List.length_pos_iff.mpr hne
  have hfront : delivered s i <+: left :=
    List.prefix_of_prefix_length_le (List.prefix_append _ _) hlonger
      (length_delivered_le.trans hpos)
  obtain ⟨left', rfl⟩ := hfront
  exact ⟨left', rfl, (List.prefix_append_right_inj _).mp hlonger⟩

theorem queued_eq_nil : queued s = [] ↔ SyncFifo.contents (regs DEPTH) s.fifo = [] :=
  List.map_eq_nil_iff

theorem wait_le (s : State WIDTH DEPTH) : wait s ≤ 3 := by
  have hlag := SyncFifo.lag_le (regs DEPTH) s.fifo
  rw [wait]
  split_ifs <;> omega

/-- An empty FIFO takes a word whose frame has ended. -/
theorem Sound.pushed_of_empty (h : Sound s) (hnil : queued s = [])
    (hended : endedWord (held s) ≠ []) : pushed s i ≠ [] := by
  rw [queued_eq_nil, SyncFifo.contents, List.append_eq_nil_iff] at hnil
  obtain ⟨hx, hl⟩ : s.xvalid = true ∧ s.xlast = true := by
    cases hx : s.xvalid <;> cases hl : s.xlast <;> simp [held, hx, hl, endedWord] at hended ⊢
  have hready : readyW s = true := by
    by_contra hw
    have hfull := h.full hx (by simpa using hw)
    rw [hnil.2, List.length_nil] at hfull
    exact absurd hfull.symm (Nat.two_pow_pos _).ne'
  simp [pushed, validW, hx, hl, hready]

/-- Without a word delivered, the oldest one has moved on, or is stalled. -/
theorem Sound.wait_next (h : Sound s) (hc : Clear s i)
    (howed : queued s ++ endedWord (held s) ≠ []) (hnone : delivered s i = []) :
    wait (step s i) + i.mTready.toNat ≤ wait s := by
  have hmoved := h.queued_step hc
  rw [hnone, List.nil_append] at hmoved
  by_cases hnil : queued s = []
  · rw [hnil, List.nil_append] at howed
    have hnext : queued (step s i) ≠ [] := by
      rw [← hmoved, hnil, List.nil_append]
      exact h.pushed_of_empty hnil howed
    have hlag := SyncFifo.lag_le (regs DEPTH) (step s i).fifo
    have hone := Bool.toNat_le i.mTready
    rw [wait, wait, if_pos hnil, if_neg hnext]
    omega
  · have hnext : queued (step s i) ≠ [] := by
      rw [← hmoved]
      simp [hnil]
    rw [wait, wait, if_neg hnil, if_neg hnext]
    rcases h.fifo.drains (regs_eq DEPTH) (i := fifoInputs s i) hc.reset
      (fun hc => hnil (queued_eq_nil.mpr hc)) with ⟨hv, hlag⟩ | ⟨hv, hlag⟩
    · have hstall : i.mTready = false := by
        cases hm : i.mTready
        · rfl
        · have hvalid : mTvalid s i = true := hv
          simp [delivered, hvalid, hm] at hnone
      have hzero := h.fifo.lag_stalled hc.reset (regs_eq DEPTH) hv hstall
      rw [hlag, hstall]
      exact hzero.le
    · have hone := Bool.toNat_le i.mTready
      have hless : SyncFifo.lag (regs DEPTH) (step s i).fifo < SyncFifo.lag (regs DEPTH) s.fifo := hlag
      omega

theorem Owes.next (h : Owes s left rank) (hc : Clear s i) (hne : left ≠ []) :
    ∃ left' rank', left = delivered s i ++ left' ∧ rank' ≤ rank - i.mTready.toNat ∧
      Owes (step s i) left' rank' := by
  obtain ⟨left', hleft, howed⟩ := h.split hc hne
  refine ⟨left', 4 * left'.length + wait (step s i), hleft, ?_, ⟨h.toSound.next hc, howed, le_rfl⟩⟩
  refine le_trans ?_ (Nat.sub_le_sub_right h.rank _)
  have hone := Bool.toNat_le i.mTready
  by_cases hnone : delivered s i = []
  · have howed : queued s ++ endedWord (held s) ≠ [] := fun hnil =>
      hne (List.prefix_nil.mp (hnil ▸ h.owed))
    have hwait := h.toSound.wait_next hc howed hnone
    rw [hleft, hnone, List.nil_append]
    omega
  · have hlen : left.length = (delivered s i).length + left'.length := by
      rw [hleft, List.length_append]
    have hpos : 0 < (delivered s i).length := List.length_pos_iff.mpr hnone
    have hwait := wait_le (step s i)
    omega

theorem Owes.eq_nil (h : Owes s left 0) : left = [] := by
  have hrank := h.rank
  exact List.length_eq_zero_iff.mp (by omega)

end Delivery

/-! ## Runs from reset -/

section Runs

variable (s : State WIDTH DEPTH) (i : Inputs WIDTH) (is : List (Inputs WIDTH))

def reached : State WIDTH DEPTH := run step (afterReset s i) is

def acceptedIn : List (Beat WIDTH) := emitted step accepted (afterReset s i) is

def deliveredIn : List (Bool × BitVec WIDTH) := emitted step delivered (afterReset s i) is

/-- The cycles with `m_tready` that deliver every word of a frame that has ended. -/
def drainCycles (DEPTH : ℕ) : ℕ := 4 * (2 ^ abits DEPTH + 4) + 3

/-- Only empty beats are taken out: what is delivered is the kept words in order, with `tlast` on the
last of each frame, and a frame that has ended is delivered when the output is drained, whatever
comes next. -/
structure Cleans : Prop where
  order : deliveredIn s i is <+: cleaned (acceptedIn s i is)
  drains : ∀ js, Along step Clear (reached s i is) js →
    drainCycles DEPTH ≤ js.countP (·.mTready) →
    finished (acceptedIn s i is) <+: deliveredIn s i (is ++ js)

variable {s i is}

/-- An `axis_clean` works in every run in which no word is put into the FIFO twice. -/
theorem cleans_of_clear (h : Along step Clear (afterReset s i) is) : Cleans s i is := by
  have hledger : Ledger (reached s i is) (acceptedIn s i is) (deliveredIn s i is) :=
    run_ledger Ledger (fun _ _ _ _ hl hc => hl.next hc) (ledger_afterReset s i) h
  obtain ⟨hfront, hended⟩ := hledger.registered.cleaned_eq
  refine ⟨(List.prefix_append _ _).trans hfront, fun js hjs hcount => ?_⟩
  have howes : Owes (reached s i is) (queued (reached s i is) ++ endedWord (held (reached s i is)))
      (drainCycles DEPTH) := by
    refine ⟨hledger.toSound, List.prefix_rfl, ?_⟩
    have hlen := hledger.toSound.fifo.length_contents_le
    have hone : (endedWord (held (reached s i is))).length ≤ 1 := by
      unfold endedWord
      split <;> simp
    have hwait := wait_le (reached s i is)
    rw [List.length_append, queued, List.length_map, drainCycles]
    omega
  have hrest := prefix_emitted_of_rank Owes (·.mTready)
    (fun _ _ _ _ ho hne hc => ho.next hc hne) (fun _ _ ho => ho.eq_nil) howes hjs hcount
  rw [deliveredIn, emitted_append]
  refine hended.trans ?_
  rw [List.append_assoc]
  exact (List.prefix_append_right_inj _).mpr hrest

end Runs

instance (s : State WIDTH DEPTH) (i : Inputs WIDTH) : Decidable (Clear s i) :=
  decidable_of_iff
    (i.reset = false ∧
      (i.sTvalid = true → i.sTkeep = true → s.xvalid = false → readyW s = true) ∧
      (i.sTvalid = true → i.sTkeep = false → s.xvalid = true →
        if readyW s then s.xlast = false else i.sTlast = true → s.xlast = true) ∧
      (DEPTH > 32 → ¬SyncFifo.Overwrites s.fifo (fifoInputs s i)))
    ⟨fun ⟨hr, hl, ht, hd⟩ => ⟨hr, hl, ht, hd⟩, fun h => ⟨h.reset, h.loads, h.trails, h.deep⟩⟩

/-- An idle cycle of the input. -/
def pause : Inputs 8 := ⟨false, false, false, false, 0, true⟩

def beat (last keep : Bool) (data : BitVec 8) : Inputs 8 := ⟨false, true, last, keep, data, true⟩

/-- A frame that ends with an empty beat, and a pause before the next. -/
theorem cleans_of_clear_paused :
    Cleans (default : State 8 16) default
      [pause, beat false true 1, beat false false 0, beat false true 2, beat true false 0, pause,
        beat true true 3, pause] :=
  cleans_of_clear (by decide +kernel)

/-- An empty beat comes with the last word of the frame before, which is delivered twice. -/
theorem not_alwaysCleans :
    ¬ ∀ (s : State 8 16) (i : Inputs 8) (is : List (Inputs 8)), (∀ j ∈ is, j.reset = false) →
      Along step (fun s j => j.sTvalid = true → sTready s = true) (afterReset s i) is →
      (∀ frame ∈ (framesOf (acceptedIn s i is)).done, kept frame ≠ []) →
      deliveredIn s i is <+: cleaned (acceptedIn s i is) := by
  intro h
  have hrun := h default default
    [pause, beat false true 1, beat true false 0, beat false false 0, beat true true 2, pause, pause,
      pause] (by decide) (by decide +kernel) (by decide +kernel)
  revert hrun
  decide +kernel

end MiscVerilogCores.AxisClean
