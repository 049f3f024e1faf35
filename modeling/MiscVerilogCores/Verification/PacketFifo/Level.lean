import MiscVerilogCores.Model.BulkIn
import MiscVerilogCores.Model.BulkOut
import MiscVerilogCores.Verification.PacketFifo.Replay

/-! # The level of a packet FIFO

`level_o` should count every word whose slot may not be written again: the word in the
holding register, and the words in memory that have not been fetched or may have to be
fetched again. It is computed from the read pointer, modulo the number of slots. -/

namespace MiscVerilogCores.PacketFifo

open Clocked RingMemory

variable {ABITS : ℕ} {p : Params}

/-- The two configurations that the bulk end-points use. -/
inductive BulkParams : Params → Prop
  | bulkIn (q : BulkIn.Params) : BulkParams (BulkIn.fifoParams q)
  | bulkOut (q : BulkOut.Params) : BulkParams (BulkOut.fifoParams q)

/-! ## Words whose slots are taken -/

/-- The oldest word whose slot may not be written again: the next one to fetch, or the first
of the packets that `next_i` has not finished. -/
def oldest (p : Params) (m : Ledger 8) (s : State 8 ABITS) : ℕ :=
  if p.nextOnLast then m.pos + (outputWords p s).length else m.start

/-- The number of words whose slots may not be written again. -/
def inUse (p : Params) (m : Ledger 8) (s : State 8 ABITS) : ℕ :=
  s.xvld.toNat + (m.words.length - oldest p m s)

/-- The space that the level leaves is there. -/
def Honest (p : Params) (s : State 8 ABITS) (m : Ledger 8) : Prop := inUse p m s ≤ s.levelQ.toNat

instance (s : State 8 ABITS) (m : Ledger 8) : Decidable (Honest p s m) :=
  inferInstanceAs (Decidable (_ ≤ _))

instance (m : Ledger 8) : Decidable m.CanFinish := inferInstanceAs (Decidable (_ ∨ _))

/-! ## Edges -/

/-- The strobes as the end-points connect them: packets are only dropped where they cannot be
asked for again, and there a packet is finished at its end. -/
structure Wired (p : Params) (m : Ledger 8) (i : Inputs 8) : Prop where
  reset : i.reset = false
  drop : p.nextOnLast = false → i.dropI = false
  redo : p.nextOnLast = true → i.redoI = false
  next : i.nextI = true → p.nextOnLast = false ∧ (i.redoI = false → m.CanFinish)

/-- No empty packet is saved, and a packet that is asked for again is still in memory. -/
structure Kept (p : Params) (m : Ledger 8) (s : State 8 ABITS) (i : Inputs 8) : Prop where
  save : ¬ SavesNothing p s i
  redo : p.nextOnLast = false → Safe p m s i

section Next

variable (p : Params) (m : Ledger 8) (s : State 8 ABITS) (i : Inputs 8)

/-- The holding register as `level_w` takes it to be after the edge. -/
def heldNext : Bool := (captureA s i || s.xvld) && !releaseA p s

/-- What `level_w` counts, before it is cut to the width of the level. -/
def counted : ℕ := (waddrNext p s i - raddrNext p s i).toNat + (heldNext p s i).toNat

/-- What a drop leaves. -/
def undropped : ℕ := (s.paddr - raddrNext p s i).toNat + (captureA s i).toNat

/-- The words counted are fewer than the slots, unless a drop takes back those of a whole lap; no
word is taken in the cycle that releases another, unless it is a drop; and where packets can
be asked for again, only words of finished packets have been fetched. -/
structure Counted : Prop where
  lap : counted p s i < 2 ^ ABITS ∨
    (i.dropI = true ∧ 2 ^ ABITS + undropped p s i ≤ counted p s i)
  taken : i.dropI = true ∨ (captureA s i && releaseA p s) = false
  finished : p.nextOnLast = false →
    m.pos + (outputWords p s).length + (fetched p s i).length ≤ (m.watch p s i).start

end Next

instance (m : Ledger 8) (i : Inputs 8) : Decidable (Wired p m i) :=
  decidable_of_iff (i.reset = false ∧ (p.nextOnLast = false → i.dropI = false) ∧
    (p.nextOnLast = true → i.redoI = false) ∧
    (i.nextI = true → p.nextOnLast = false ∧ (i.redoI = false → m.CanFinish)))
    ⟨fun ⟨h₁, h₂, h₃, h₄⟩ => ⟨h₁, h₂, h₃, h₄⟩, fun ⟨h₁, h₂, h₃, h₄⟩ => ⟨h₁, h₂, h₃, h₄⟩⟩

instance (m : Ledger 8) (s : State 8 ABITS) (i : Inputs 8) : Decidable (Kept p m s i) :=
  decidable_of_iff (¬ SavesNothing p s i ∧ (p.nextOnLast = false → Safe p m s i))
    ⟨fun ⟨h₁, h₂⟩ => ⟨h₁, h₂⟩, fun ⟨h₁, h₂⟩ => ⟨h₁, h₂⟩⟩

instance (m : Ledger 8) (s : State 8 ABITS) (i : Inputs 8) : Decidable (Counted p m s i) :=
  decidable_of_iff ((counted p s i < 2 ^ ABITS ∨
      (i.dropI = true ∧ 2 ^ ABITS + undropped p s i ≤ counted p s i)) ∧
    (i.dropI = true ∨ (captureA s i && releaseA p s) = false) ∧ (p.nextOnLast = false →
      m.pos + (outputWords p s).length + (fetched p s i).length ≤ (m.watch p s i).start))
    ⟨fun ⟨h₁, h₂, h₃⟩ => ⟨h₁, h₂, h₃⟩, fun ⟨h₁, h₂, h₃⟩ => ⟨h₁, h₂, h₃⟩⟩

section Step

variable {s : State 8 ABITS} {i : Inputs 8} {m : Ledger 8} {words : List (Word 8)}
  {saved pos rd lost : ℕ}

theorem BulkParams.hold (hp : BulkParams p) : p.lastOnSave = true := by
  cases hp <;> rfl

/-- What is taken goes to memory or is held, or pushes out what is released. -/
theorem xvld_step (hp : BulkParams p) (hr : i.reset = false) (hd : i.dropI = false) :
    (step p s i).xvld.toNat =
      (heldNext p s i).toNat + (captureA s i && releaseA p s).toNat := by
  simp only [step, hp.hold, hr, hd, heldNext]
  cases captureA s i <;> cases s.xvld <;> cases releaseA p s <;> rfl

theorem xvld_drop (hp : BulkParams p) (hr : i.reset = false) (hd : i.dropI = true) :
    (step p s i).xvld = captureA s i := by
  simp [step, hp.hold, hr, hd]

/-- A word that is taken is held, or pushes the one that was held into memory. -/
theorem captureA_le (hp : BulkParams p) :
    (captureA s i).toNat ≤ (storeW p s i).toNat + (heldNext p s i).toNat := by
  by_cases hc : captureA s i = true
  · by_cases hrel : releaseA p s = true
    · have hstore : storeW p s i = true := by
        simp only [captureA, releaseA, Bool.and_eq_true, Bool.or_eq_true] at hc hrel
        simp [storeW, hp.hold, hc, hrel]
      simp [hc, hstore]
    · simp [heldNext, hc, hrel]
  · simp [hc]

theorem Stored.counted_eq (h : Stored s words saved rd lost)
    (hroom : storeW p s i = true → words.length < rd + 2 ^ ABITS) :
    counted p s i + (rd + (fetched p s i).length) =
        words.length + (storeW p s i).toNat + (heldNext p s i).toNat ∧
      counted p s i ≤ 2 ^ ABITS + 1 := by
  have hlen := h.length_le
  have hsaved := h.saved_le
  have hfetched := h.fetched_le p i
  have hbit := Bool.toNat_le (heldNext p s i)
  have hle : words.length + (storeW p s i).toNat ≤ rd + (fetched p s i).length + 2 ^ ABITS := by
    cases hs : storeW p s i
    · simp
      omega
    · have := hroom hs
      simp
      omega
  rw [counted, h.waddrNext_ptr, h.raddrNext_eq, toNat_ptr_sub (by omega) hle]
  omega

theorem Stored.undropped_eq (h : Stored s words saved rd lost) :
    undropped p s i + (rd + (fetched p s i).length) = saved + (captureA s i).toNat := by
  have hlen := h.length_le
  have hsaved := h.saved_le
  have hfetched := h.fetched_le p i
  rw [undropped, h.paddr, h.raddrNext_eq, toNat_ptr_sub hfetched (by omega)]
  omega

/-- The level is what is counted, but for whole laps. -/
theorem Stored.levelQ_step (h : Stored s words saved rd lost) (hp : BulkParams p)
    (hroom : storeW p s i = true → words.length < rd + 2 ^ ABITS) (hr : i.reset = false) :
    (step p s i).levelQ.toNat = counted p s i % 2 ^ ABITS := by
  have hfetched := h.fetched_le p i
  have hsaved := h.saved_le
  have hcounted := (h.counted_eq hroom).1
  have hstep : (step p s i).levelQ = levelW p s i := by simp [step, hr]
  rw [hstep, h.levelW_eq hp.hold, ← heldNext]
  congr 1
  omega

theorem Output.length_outputs (h : Output p s words pos rd) (hrd : rd ≤ words.length) :
    pos + (outputWords p s).length = rd := by
  have hpos := h.pos_le
  rw [h.outputs, List.length_drop, List.length_take]
  omega

theorem length_wordsNext (hd : i.dropI = false) :
    (wordsNext p s i words saved).length = words.length + (storeW p s i).toNat := by
  cases hs : storeW p s i <;> simp [wordsNext, stored, rejectA, hd, hs]

theorem length_wordsNext_drop (hle : saved ≤ words.length) (hd : i.dropI = true) :
    (wordsNext p s i words saved).length = saved := by
  simp [wordsNext, stored, rejectA, hd, hle]

/-! ### The invariant -/

/-- The ledger is right, and so is the ready flag as long as the reader does not go back. -/
structure Accounted (p : Params) (s : State 8 ABITS) (m : Ledger 8) : Prop where
  stream : ∃ rd, Stream p s m.words m.saved m.pos rd m.lost
  start_le : m.start ≤ m.pos
  ready : p.nextOnLast = true → s.wready = true →
    m.words.length < m.pos + (outputWords p s).length + 2 ^ ABITS
  replay : p.nextOnLast = false → ReplayInv p s m

theorem accounted_of_reset (p : Params) (s : State 8 ABITS) (hr : i.reset = true) :
    Accounted p (step p s i) Ledger.empty where
  stream := ⟨0, Stream.of_reset p s hr⟩
  start_le := le_rfl
  ready _ hw := by simp [step, hr] at hw
  replay _ := replayInv_of_reset p s hr

namespace Accounted

theorem store_room (h : Accounted p s m) (hw : Wired p m i) (hk : Kept p m s i)
    (hs : Stream p s m.words m.saved m.pos rd m.lost) (hstore : storeW p s i = true) :
    m.words.length < rd + 2 ^ ABITS := by
  cases hn : p.nextOnLast
  · exact hs.stored.room (hk.redo hn).room hstore (hw.drop hn)
  · rw [← hs.output.length_outputs hs.rd_le_length]
    exact h.ready hn (storeW_wready hstore)

theorem not_overruns (h : Accounted p s m) (hw : Wired p m i) (hk : Kept p m s i)
    (hs : Stream p s m.words m.saved m.pos rd m.lost) : ¬ Overruns p s i := by
  rintro ⟨hstore, -, hmatch, hne⟩
  have hroom := h.store_room hw hk hs hstore
  have hfull := (slot_eq_and_msb_ne_iff hs.rd_le_length hs.stored.length_le).mp
    (by rw [← hs.stored.waddr, ← hs.stored.raddr]; exact ⟨by simpa [matchW] using hmatch, hne⟩)
  omega

theorem next (h : Accounted p s m) (hw : Wired p m i) (hk : Kept p m s i) :
    Accounted p (step p s i) (m.watch p s i) := by
  cases hn : p.nextOnLast
  · have hinv := (h.replay hn).next hn hw.reset (hk.redo hn) fun hnx => (hw.next hnx).2
    exact ⟨hinv.stream, hinv.start_le, by simp [hn], fun _ => hinv⟩
  · obtain ⟨rd, hs⟩ := h.stream
    have hredo := hw.redo hn
    have hnext : i.nextI = false := by
      by_contra hnx
      simpa [hn] using (hw.next (by simpa using hnx)).1
    have hstream := hs.next hw.reset hredo (h.not_overruns hw hk hs) hk.save
    have hpos : (m.watch p s i).pos = m.pos + (delivered p s i).length := by
      simp [Ledger.watch, hredo]
    rw [← hpos] at hstream
    refine ⟨⟨_, hstream⟩, ?_, fun _ hready => ?_, by simp [hn]⟩
    · have hstart := h.start_le
      rw [hpos]
      simp only [Ledger.watch, hnext, Bool.false_and, Bool.false_eq_true, if_false]
      omega
    · rw [hstream.output.length_outputs hstream.rd_le_length]
      refine hs.stored.wready_next hw.reset (fun hold => ?_) hready
      rw [← hs.output.length_outputs hs.rd_le_length]
      exact h.ready hn hold

/-- The words in use after an edge that is no drop. -/
theorem oldest_next (h : Accounted p s m) (hw : Wired p m i) (hk : Kept p m s i)
    (hs : Stream p s m.words m.saved m.pos rd m.lost) :
    oldest p (m.watch p s i) (step p s i) ≤ rd + (fetched p s i).length ∧
      (p.nextOnLast = true →
        oldest p (m.watch p s i) (step p s i) = rd + (fetched p s i).length) ∧
      (p.nextOnLast = false → oldest p (m.watch p s i) (step p s i) = (m.watch p s i).start) := by
  cases hn : p.nextOnLast
  · have hstart := h.start_le
    have hpos := hs.output.pos_le
    refine ⟨?_, by simp, fun _ => by simp [oldest, hn]⟩
    simp only [oldest, hn, Ledger.watch, Bool.false_eq_true, if_false]
    split <;> omega
  · have hstream := hs.next hw.reset (hw.redo hn) (h.not_overruns hw hk hs) hk.save
    have heq : oldest p (m.watch p s i) (step p s i) = rd + (fetched p s i).length := by
      rw [← hstream.output.length_outputs hstream.rd_le_length]
      simp [oldest, hn, Ledger.watch, hw.redo hn]
    exact ⟨heq.le, fun _ => heq, by simp⟩

/-- Without a drop all that is counted is in use, and nothing else must be. -/
theorem honest_iff_of_kept (h : Accounted p s m) (hp : BulkParams p) (hw : Wired p m i)
    (hk : Kept p m s i) (hd : i.dropI = false) :
    Honest p (step p s i) (m.watch p s i) ↔ Counted p m s i := by
  obtain ⟨rd, hs⟩ := h.stream
  have hroom := h.store_room hw hk hs
  obtain ⟨hcounted, -⟩ := hs.stored.counted_eq hroom
  obtain ⟨hle, hfetch, hstart⟩ := h.oldest_next hw hk hs
  have hrd := hs.output.length_outputs hs.rd_le_length
  have hlen : (m.watch p s i).words.length = m.words.length + (storeW p s i).toNat :=
    length_wordsNext hd
  have hlap := Nat.mod_lt (counted p s i) (Nat.two_pow_pos ABITS)
  have hfetched := hs.stored.fetched_le p i
  have hsaved := hs.stored.saved_le
  rw [Honest, inUse, hs.stored.levelQ_step hp hroom hw.reset, hlen, xvld_step hp hw.reset hd]
  constructor
  · intro hhonest
    have hmod := Nat.mod_le (counted p s i) (2 ^ ABITS)
    refine ⟨Or.inl (by omega), Or.inr ?_, fun hn => ?_⟩
    · rw [← Bool.toNat_eq_zero]
      omega
    · rw [← hstart hn]
      omega
  · rintro ⟨hcount, htaken, hfinished⟩
    rw [hd] at hcount htaken
    have hlt : counted p s i < 2 ^ ABITS := by simpa using hcount
    have hpush : (captureA s i && releaseA p s) = false := by simpa using htaken
    have hold : rd + (fetched p s i).length ≤ oldest p (m.watch p s i) (step p s i) := by
      cases hn : p.nextOnLast
      · rw [hstart hn, ← hrd]
        exact hfinished hn
      · exact (hfetch hn).ge
    rw [Nat.mod_eq_of_lt hlt, hpush]
    simp only [Bool.toNat_false]
    omega

/-- After a drop what it leaves is in use. -/
theorem honest_iff_of_drop (h : Accounted p s m) (hp : BulkParams p) (hA : 1 ≤ ABITS)
    (hw : Wired p m i) (hk : Kept p m s i) (hd : i.dropI = true) :
    Honest p (step p s i) (m.watch p s i) ↔ Counted p m s i := by
  obtain ⟨rd, hs⟩ := h.stream
  have hroom := h.store_room hw hk hs
  have hn : p.nextOnLast = true := by
    by_contra hn
    simpa [hd] using hw.drop (by simpa using hn)
  obtain ⟨hcounted, hlap⟩ := hs.stored.counted_eq hroom
  have hundropped := hs.stored.undropped_eq (p := p) (i := i)
  have hold := (h.oldest_next hw hk hs).2.1 hn
  have hcapture := captureA_le (s := s) (i := i) hp
  have hsaved := hs.stored.saved_le
  have hlen : (m.watch p s i).words.length = m.saved := length_wordsNext_drop hsaved hd
  have htwo : 2 ^ 1 ≤ 2 ^ ABITS := Nat.pow_le_pow_right (by omega) hA
  rw [Honest, inUse, hs.stored.levelQ_step hp hroom hw.reset, hlen, hold, xvld_drop hp hw.reset hd]
  have hfetched := hs.stored.fetched_le p i
  have huse : (captureA s i).toNat + (m.saved - (rd + (fetched p s i).length)) =
      undropped p s i := by omega
  rw [huse]
  by_cases hlt : counted p s i < 2 ^ ABITS
  · rw [Nat.mod_eq_of_lt hlt]
    exact iff_of_true (by omega) ⟨Or.inl hlt, Or.inl hd, by simp [hn]⟩
  · have hmod : counted p s i % 2 ^ ABITS = counted p s i - 2 ^ ABITS := by
      rw [Nat.mod_eq_sub_mod (by omega), Nat.mod_eq_of_lt (by omega)]
    rw [hmod]
    constructor
    · intro hhonest
      exact ⟨Or.inr ⟨hd, by omega⟩, Or.inl hd, by simp [hn]⟩
    · rintro ⟨hcount, -, -⟩
      rcases hcount with hcount | ⟨-, hcount⟩
      · exact absurd hcount hlt
      · omega

end Accounted

end Step

/-! ## Runs -/

/-- In every run that starts with a reset, in which no empty packet is saved and what is asked for
again is still in memory, the level after an edge is honest exactly if the edge is one whose
words are all counted. -/
theorem honest_iff_counted (hp : BulkParams p) (hA : 1 ≤ ABITS) (s₀ : State 8 ABITS)
    (is : List (Inputs 8))
    (h : Along (watched (step p) (Ledger.watch p))
      (fun q i => Wired p q.2 i ∧ Kept p q.2 q.1 i) (replayStart p s₀) is) :
    Honest p (watchedReplay p s₀ []).1 (watchedReplay p s₀ []).2 ∧
      ∀ pre i, pre ++ [i] <+: is →
        (Honest p (watchedReplay p s₀ (pre ++ [i])).1 (watchedReplay p s₀ (pre ++ [i])).2 ↔
          Counted p (watchedReplay p s₀ pre).2 (watchedReplay p s₀ pre).1 i) := by
  let Inv (q : State 8 ABITS × Ledger 8) : Prop := Accounted p q.1 q.2
  have hstart : Inv (replayStart p s₀) := accounted_of_reset p s₀ rfl
  refine ⟨?_, fun pre i hpre => ?_⟩
  · simp [Honest, inUse, watchedReplay, replayStart, Ledger.empty, afterReset, step, resetInputs,
      hp.hold]
  · obtain ⟨post, rfl⟩ := hpre
    rw [List.append_assoc, along_append] at h
    obtain ⟨hbefore, ⟨hwired, hkept⟩, -⟩ := h
    have hinv : Inv (watchedReplay p s₀ pre) :=
      run_invariant Inv (fun q i hq hi => Accounted.next hq hi.1 hi.2) hstart hbefore
    have hedge : watchedReplay p s₀ (pre ++ [i]) =
        watched (step p) (Ledger.watch p) (watchedReplay p s₀ pre) i := by
      rw [watchedReplay, run_append]
      rfl
    rw [hedge]
    cases hd : i.dropI
    · exact Accounted.honest_iff_of_kept hinv hp hwired hkept hd
    · exact Accounted.honest_iff_of_drop hinv hp hA hwired hkept hd

/-- A cycle of a reader that only takes words. -/
def strobe (save drop valid : Bool) (data : BitVec 8) (ready : Bool) : Inputs 8 :=
  { cycle valid false data ready false false with saveI := save, dropI := drop }

/-- A packet is saved and fetched, and two words of another are taken. -/
def twoPackets : List (Inputs 8) :=
  [strobe false false false 0 false, strobe false false true 1 false,
    strobe true false false 0 false, strobe false false false 0 false,
    strobe false false true 2 true, strobe false false true 3 true]

/-- The hypotheses are met by a run that drops a packet at its end, and the level is honest there. -/
theorem honest_after_drop :
    let p := BulkOut.fifoParams ⟨2, true, true⟩
    let is := twoPackets ++ [strobe false true false 0 true]
    Honest p (watchedReplay p (default : State 8 2) is).1
      (watchedReplay p (default : State 8 2) is).2 :=
  ((honest_iff_counted (.bulkOut ⟨2, true, true⟩) (by decide) default
    (twoPackets ++ [strobe false true false 0 true]) (by decide +kernel)).2
    twoPackets _ (List.prefix_refl _)).mpr (by decide +kernel)

/-- The level is honest in every state that a run from reset reaches. -/
def AlwaysHonest (p : Params) : Prop :=
  ∀ (ABITS : ℕ) (s₀ : State 8 ABITS) (is : List (Inputs 8)), 1 ≤ ABITS →
    Along (watched (step p) (Ledger.watch p)) (fun q i => Wired p q.2 i) (replayStart p s₀) is →
    Honest p (watchedReplay p s₀ is).1 (watchedReplay p s₀ is).2

/-- A packet of one word counts for nothing once it is fetched, before it is finished; and four
words in four slots make the level zero. -/
theorem not_alwaysHonest :
    ¬ AlwaysHonest (BulkIn.fifoParams ⟨2, true⟩) ∧
      ¬ AlwaysHonest (BulkOut.fifoParams ⟨2, true, true⟩) := by
  refine ⟨fun h => ?_, fun h => ?_⟩
  · have hlevel := h 2 default [cycle false false 0 false false false,
      cycle true true 1 false false false, cycle false false 0 false false false,
      cycle false false 0 false false false] (by decide) (by decide +kernel)
    revert hlevel
    decide +kernel
  · have hlevel := h 2 default [strobe false false false 0 false, strobe false false true 1 false,
      strobe false false true 2 false, strobe false false true 3 false,
      strobe false false true 4 false] (by decide) (by decide +kernel)
    revert hlevel
    decide +kernel

end MiscVerilogCores.PacketFifo
