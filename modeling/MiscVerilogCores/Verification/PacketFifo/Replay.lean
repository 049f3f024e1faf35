import MiscVerilogCores.Verification.PacketFifo.Stream

/-! # Replay of packets

Packets end at their `tlast` words. The reader finishes a packet with `next_i` or asks
for it again with `redo_i`; the replay pointer should then address the first word of the
oldest unfinished packet. It does as long as no later `tlast` has already left the SRAM
output register when the packet is finished. -/

namespace MiscVerilogCores.PacketFifo

open Clocked RingMemory

variable {WIDTH ABITS : ℕ} {p : Params}

/-! ## The ledger of a run -/

/-- What has happened at a FIFO since reset: the stream and its committed part, the next word
to deliver, the first word of the oldest unfinished packet, and what was delivered since the
last redo, which began at `base`. The words before `lost` have been overwritten; `stale` says
that the replay pointer is not at `start`, and `replayed` that a redo came since the last
packet was finished. -/
structure Ledger (WIDTH : ℕ) where
  words : List (Word WIDTH)
  saved : ℕ
  lost : ℕ
  pos : ℕ
  start : ℕ
  base : ℕ
  since : List (Word WIDTH)
  stale : Bool
  replayed : Bool

/-- The word at an index has its `tlast` bit set. -/
def lastAt (words : List (Word WIDTH)) (k : ℕ) : Bool := words[k]?.any Prod.fst

/-- A packet finished now leaves the replay pointer in the wrong place: without output
registers it is one word short, and behind a skid register that holds a `tlast` already
it is at the end of a later packet. -/
def staleNext (p : Params) (s : State WIDTH ABITS) : Bool :=
  p.outreg == 0 || (skidWords p s).any Prod.fst

namespace Ledger

def empty : Ledger WIDTH := ⟨[], 0, 0, 0, 0, 0, [], false, false⟩

def watch (p : Params) (m : Ledger WIDTH) (s : State WIDTH ABITS) (i : Inputs WIDTH) :
    Ledger WIDTH where
  words := wordsNext p s i m.words m.saved
  saved := savedNext p s i m.words m.saved
  lost := lostNext p s i m.words m.saved m.lost
  pos := if i.redoI then m.start else m.pos + (delivered p s i).length
  start := if i.nextI && !i.redoI then m.pos else m.start
  base := if i.redoI then m.start else m.base
  since := if i.redoI then [] else m.since ++ delivered p s i
  stale := if i.nextI && !i.redoI then staleNext p s else m.stale
  replayed := i.redoI || (m.replayed && !i.nextI)

/-- The reader has taken the packet up to its `tlast` word, and nothing more. -/
def AtEnd (m : Ledger WIDTH) : Prop :=
  m.start < m.pos ∧ lastAt m.words (m.pos - 1) = true ∧
    ∀ k < m.pos - 1, m.start ≤ k → lastAt m.words k = false

instance (m : Ledger WIDTH) : Decidable m.AtEnd := inferInstanceAs (Decidable (_ ∧ _ ∧ _))

end Ledger

/-- The reader finishes a packet or asks for it again only at its end, and takes no further
word there without doing one of them. -/
structure Disciplined (p : Params) (m : Ledger WIDTH) (s : State WIDTH ABITS) (i : Inputs WIDTH) :
    Prop where
  strobe : (i.nextI || i.redoI) = true → m.AtEnd
  wait : m.AtEnd → delivered p s i ≠ [] → (i.nextI || i.redoI) = true

/-- No word is overwritten before it is fetched, no empty packet is committed, and a redo
finds the replay pointer right and the unfinished packet still in memory. -/
structure Safe (p : Params) (m : Ledger WIDTH) (s : State WIDTH ABITS) (i : Inputs WIDTH) :
    Prop where
  room : ¬ Overruns p s i
  save : ¬ SavesNothing p s i
  redo : i.redoI = true →
    m.stale = false ∧ lostNext p s i m.words m.saved m.lost ≤ m.start

instance (m : Ledger WIDTH) (s : State WIDTH ABITS) (i : Inputs WIDTH) :
    Decidable (Disciplined p m s i) :=
  decidable_of_iff (((i.nextI || i.redoI) = true → m.AtEnd) ∧
    (m.AtEnd → delivered p s i ≠ [] → (i.nextI || i.redoI) = true))
    ⟨fun ⟨h₁, h₂⟩ => ⟨h₁, h₂⟩, fun ⟨h₁, h₂⟩ => ⟨h₁, h₂⟩⟩

instance (m : Ledger WIDTH) (s : State WIDTH ABITS) (i : Inputs WIDTH) :
    Decidable (Safe p m s i) :=
  decidable_of_iff (¬ Overruns p s i ∧ ¬ SavesNothing p s i ∧ (i.redoI = true →
    m.stale = false ∧ lostNext p s i m.words m.saved m.lost ≤ m.start))
    ⟨fun ⟨h₁, h₂, h₃⟩ => ⟨h₁, h₂, h₃⟩, fun ⟨h₁, h₂, h₃⟩ => ⟨h₁, h₂, h₃⟩⟩

/-! ## The pointer behind the last `tlast` -/

/-- `prev` is behind the last `tlast` word among those from `start` up to `xpos`; with no
such word it is `start`, unless a replay has begun. -/
structure Marked (words : List (Word WIDTH)) (start xpos : ℕ) (replayed : Bool) (prev : ℕ) :
    Prop where
  last : ∀ k, start ≤ k → k < xpos → lastAt words k = true →
    (∀ j, k < j → j < xpos → lastAt words j = false) → prev = k + 1
  none : replayed = false → (∀ k, start ≤ k → k < xpos → lastAt words k = false) → prev = start

namespace Marked

variable {words words' : List (Word WIDTH)} {start xpos pos prev : ℕ} {replayed : Bool}

theorem congr (h : Marked words start xpos replayed prev)
    (heq : ∀ k < xpos, lastAt words' k = lastAt words k) :
    Marked words' start xpos replayed prev where
  last k hk hkx hl hno :=
    h.last k hk hkx (heq k hkx ▸ hl) fun j hj hjx => heq j hjx ▸ hno j hj hjx
  none hr hno := h.none hr fun k hk hkx => heq k hkx ▸ hno k hk hkx

/-- A `tlast` word passes. -/
theorem pass_last (hs : start ≤ xpos) (hl : lastAt words xpos = true) :
    Marked words start (xpos + 1) replayed (xpos + 1) where
  last k hk hkx hlk hno := by
    by_cases heq : k = xpos
    · rw [heq]
    · have := hno xpos (by omega) (by omega)
      simp [hl] at this
  none _ hno := by
    have := hno xpos hs (by omega)
    simp [hl] at this

/-- Another word passes. -/
theorem pass (h : Marked words start xpos replayed prev) (hl : lastAt words xpos = false) :
    Marked words start (xpos + 1) replayed prev where
  last k hk hkx hlk hno := by
    have hne : k ≠ xpos := by
      rintro rfl
      simp [hl] at hlk
    exact h.last k hk (by omega) hlk fun j hj hjx => hno j hj (by omega)
  none hr hno := h.none hr fun k hk hkx => hno k hk (by omega)

/-- A packet is finished. -/
theorem finish (h : Marked words start xpos replayed prev) (hpos : pos ≤ xpos)
    (hend : (start < pos ∧ lastAt words (pos - 1) = true) ∨ (pos = start ∧ replayed = false)) :
    Marked words pos xpos false prev := by
  rcases hend with ⟨hlt, hl⟩ | ⟨rfl, hr⟩
  · refine ⟨fun k hk => h.last k (by omega), fun _ hno => ?_⟩
    have := h.last (pos - 1) (by omega) (by omega) hl fun j hj hjx => hno j (by omega) hjx
    omega
  · exact ⟨h.last, fun _ => h.none hr⟩

/-- A replay begins. -/
theorem replay : Marked words start start true prev where
  last k hk hkx := by omega
  none hr := by simp at hr

end Marked

/-! ## The invariant -/

structure ReplayInv (p : Params) (s : State WIDTH ABITS) (m : Ledger WIDTH) : Prop where
  stream : ∃ rd, Stream p s m.words m.saved m.pos rd m.lost
  start_le : m.start ≤ m.pos
  base_le : m.base ≤ m.pos
  since : m.since = (m.words.take m.pos).drop m.base
  rplay : m.stale = false → s.rplay = ptr ABITS m.start
  marked : p.outreg ≠ 0 → ∃ prev, s.rprev = ptr ABITS prev ∧
    Marked m.words m.start (m.pos + (skidWords p s).length) m.replayed prev

/-- A packet is finished at its `tlast` word, or before anything of it was taken. -/
def Ledger.CanFinish (m : Ledger WIDTH) : Prop :=
  (m.start < m.pos ∧ lastAt m.words (m.pos - 1) = true) ∨ (m.pos = m.start ∧ m.replayed = false)

section Step

variable {s : State WIDTH ABITS} {i : Inputs WIDTH} {m : Ledger WIDTH}

theorem replayInv_of_reset (p : Params) (s : State WIDTH ABITS) {i : Inputs WIDTH}
    (hr : i.reset = true) : ReplayInv p (step p s i) Ledger.empty where
  stream := ⟨0, Stream.of_reset p s hr⟩
  start_le := le_rfl
  base_le := le_rfl
  since := rfl
  rplay _ := by simp [step, hr, Ledger.empty, ptr]
  marked _ := by
    refine ⟨0, by simp [step, hr, ptr], ?_, fun _ _ => rfl⟩
    intro k _ _ hl
    simp [lastAt, Ledger.empty] at hl

theorem Output.length_eq {words : List (Word WIDTH)} {pos rd : ℕ} (h : Output p s words pos rd)
    (ho : p.outreg ≠ 0) (hrd : rd ≤ words.length) :
    pos + (skidWords p s).length + (xWords s).length = rd := by
  have hout := h.outputs
  rw [outputWords, if_neg ho] at hout
  have hpos := h.pos_le
  have hlen := congrArg List.length hout
  simp only [List.length_append, List.length_drop, List.length_take] at hlen
  omega

theorem length_released_le : (released p s i).length ≤ (xWords s).length := by
  cases hx : s.xvalid <;> simp [released, xWords, hx]
  split <;> simp

/-- The word in the SRAM output register is the one behind those in the skid register. -/
theorem Output.x_word {words : List (Word WIDTH)} {pos rd : ℕ} (h : Output p s words pos rd)
    (ho : p.outreg ≠ 0) (hrd : rd ≤ words.length) (hx : s.xvalid = true) :
    rd = pos + (skidWords p s).length + 1 ∧
      words[pos + (skidWords p s).length]? = some (s.xlast, s.xdata) := by
  have hlen := h.length_eq ho hrd
  have hout := h.outputs
  rw [outputWords, if_neg ho] at hout
  rw [xWords, if_pos hx] at hout hlen
  rw [List.length_singleton] at hlen
  have hget := congrArg (fun ws => ws[(skidWords p s).length]?) hout
  simp only [List.getElem?_concat_length, List.getElem?_drop] at hget
  rw [List.getElem?_take_of_lt (by omega)] at hget
  exact ⟨by omega, hget.symm⟩

/-- Behind a skid register without `tlast` words, the next word to deliver to the one in
the SRAM output register have none. -/
theorem Output.lastAt_skid {words : List (Word WIDTH)} {pos rd k : ℕ} (h : Output p s words pos rd)
    (ho : p.outreg ≠ 0) (hk : pos ≤ k) (hk' : k < pos + (skidWords p s).length)
    (hno : (skidWords p s).any Prod.fst = false) : lastAt words k = false := by
  have hout := h.outputs
  rw [outputWords, if_neg ho] at hout
  have hlt : k - pos < (skidWords p s).length := by omega
  have hlen := congrArg List.length hout
  simp only [List.length_append, List.length_drop, List.length_take] at hlen
  have hget := congrArg (fun ws => ws[k - pos]?) hout
  simp only [List.getElem?_append_left hlt, List.getElem?_drop] at hget
  rw [Nat.add_sub_cancel' hk, List.getElem?_take_of_lt (by omega), List.getElem?_eq_getElem hlt]
    at hget
  rw [lastAt, ← hget]
  rw [List.any_eq_false] at hno
  simpa using hno _ (List.getElem_mem hlt)

theorem Stored.lastAt_wordsNext {words : List (Word WIDTH)} {saved rd lost k : ℕ}
    (h : Stored s words saved rd lost) (hk : k < saved) :
    lastAt (wordsNext p s i words saved) k = lastAt words k := by
  have htake := h.take_wordsNext (p := p) (i := i) le_rfl
  have hget := congrArg (fun ws => ws[k]?) htake
  simp only [List.getElem?_take_of_lt hk] at hget
  rw [lastAt, lastAt, hget]

/-- The mark after an edge without a redo, on the stream as it was before. -/
theorem ReplayInv.marked_next (h : ReplayInv p s m) (hr : i.reset = false)
    (hredo : i.redoI = false) (hfin : i.nextI = true → m.CanFinish) (ho : p.outreg ≠ 0) :
    ∃ prev, (step p s i).rprev = ptr ABITS prev ∧
      Marked m.words (m.watch p s i).start (m.pos + (skidWords p s).length + (released p s i).length)
        (m.watch p s i).replayed prev := by
  obtain ⟨rd, hs⟩ := h.stream
  obtain ⟨prev, hprev, hmark⟩ := h.marked ho
  have hmark' : Marked m.words (m.watch p s i).start (m.pos + (skidWords p s).length)
      (m.watch p s i).replayed prev := by
    cases hn : i.nextI
    · simpa [Ledger.watch, hn, hredo] using hmark
    · simpa [Ledger.watch, hn, hredo] using hmark.finish (Nat.le_add_right _ _) (hfin hn)
  have hstart : (m.watch p s i).start ≤ m.pos + (skidWords p s).length := by
    have := h.start_le
    simp only [Ledger.watch]
    split <;> omega
  cases hx : (s.xvalid && xready p s i)
  · refine ⟨prev, ?_, by simpa [released, hx] using hmark'⟩
    have hstop : rstopW p s i = false := by
      rw [rstopW, if_neg ho]
      cases hxv : s.xvalid <;> simp_all
    simp [step, hr, replayA, hredo, hstop, hprev]
  · rw [Bool.and_eq_true] at hx
    obtain ⟨hrd, hword⟩ := hs.output.x_word ho hs.rd_le_length hx.1
    have hlast : lastAt m.words (m.pos + (skidWords p s).length) = s.xlast := by
      simp [lastAt, hword]
    have hstop : rstopW p s i = s.xlast := by simp [rstopW, ho, hx.1, hx.2]
    cases hxl : s.xlast
    · refine ⟨prev, by simp [step, hr, replayA, hredo, hstop, hxl, hprev], ?_⟩
      simpa [released, hx.1, hx.2] using hmark'.pass (hlast.trans hxl)
    · refine ⟨rd, by simp [step, hr, replayA, hredo, hstop, hxl, hs.stored.raddr], ?_⟩
      rw [hrd]
      simpa [released, hx.1, hx.2] using Marked.pass_last hstart (hlast.trans hxl)

/-- Finishing a packet leaves the replay pointer at the next one, unless it is stale. -/
theorem ReplayInv.rplay_next (h : ReplayInv p s m) (hn : p.nextOnLast = false)
    (hr : i.reset = false) (hredo : i.redoI = false) (hfin : i.nextI = true → m.CanFinish)
    (hstale : (m.watch p s i).stale = false) :
    (step p s i).rplay = ptr ABITS (m.watch p s i).start := by
  obtain ⟨rd, hs⟩ := h.stream
  cases hnx : i.nextI
  · have hold : m.stale = false := by simpa [Ledger.watch, hnx] using hstale
    simp [step, hr, finishA, hn, hnx, Ledger.watch, h.rplay hold]
  · have hno : p.outreg ≠ 0 ∧ (skidWords p s).any Prod.fst = false := by
      simpa [Ledger.watch, hnx, hredo, staleNext] using hstale
    obtain ⟨prev, hprev, hmark⟩ := h.marked hno.1
    have hpos := (hmark.finish (Nat.le_add_right _ _) (hfin hnx)).none rfl
      fun k hk hk' => hs.output.lastAt_skid hno.1 hk hk' hno.2
    simp [step, hr, finishA, hnx, hredo, Ledger.watch, hprev, hpos]

theorem ReplayInv.next (h : ReplayInv p s m) (hn : p.nextOnLast = false) (hr : i.reset = false)
    (hsafe : Safe p m s i) (hfin : i.nextI = true → i.redoI = false → m.CanFinish) :
    ReplayInv p (step p s i) (m.watch p s i) := by
  have hsl := h.start_le
  have hbl := h.base_le
  obtain ⟨rd, hs⟩ := h.stream
  have hpos := hs.output.pos_le
  cases hredo : i.redoI
  · have hnext := hs.next hr hredo hsafe.room hsafe.save
    obtain ⟨htake, hle⟩ := hs.take_delivered i
    have hposNext : (m.watch p s i).pos = m.pos + (delivered p s i).length := by
      simp [Ledger.watch, hredo]
    refine ⟨⟨_, by simpa [Ledger.watch, hredo] using hnext⟩, ?_, ?_, ?_, ?_, ?_⟩
    · rw [hposNext]
      simp only [Ledger.watch]
      split <;> omega
    · rw [hposNext]
      simp only [Ledger.watch, hredo, Bool.false_eq_true, if_false]
      omega
    · have hlen := hs.rd_le_length
      rw [hposNext]
      simp only [Ledger.watch, hredo, Bool.false_eq_true, if_false]
      rw [hs.stored.take_wordsNext hle, htake, h.since,
        List.drop_append_of_le_length (by rw [List.length_take]; omega)]
    · exact h.rplay_next hn hr hredo (fun hnx => hfin hnx hredo)
    · intro ho
      obtain ⟨prev, hprev, hmark⟩ := h.marked_next hr hredo (fun hnx => hfin hnx hredo) ho
      refine ⟨prev, hprev, ?_⟩
      have hskid := congrArg List.length (hs.output.skidWords_step (i := i) hr hredo ho)
      rw [List.length_append, List.length_append] at hskid
      have hx : (m.watch p s i).pos + (skidWords p (step p s i)).length =
          m.pos + (skidWords p s).length + (released p s i).length := by
        omega
      rw [hx]
      have hlen := hs.output.length_eq ho hs.rd_le_length
      have hrel := length_released_le (p := p) (s := s) (i := i)
      have hrd := hs.stored.rd_le
      exact hmark.congr fun k hk => hs.stored.lastAt_wordsNext (by omega)
  · obtain ⟨hstale, hlost⟩ := hsafe.redo hredo
    have hplay := h.rplay hstale
    have hnext := hs.redo hr hredo hsafe.save hplay hsl hlost
    have hfinish : finishA p s i = false := by simp [finishA, hredo]
    refine ⟨⟨m.start, by simpa [Ledger.watch, hredo] using hnext⟩, ?_, ?_, ?_, ?_, ?_⟩
    · simp [Ledger.watch, hredo]
    · simp [Ledger.watch, hredo]
    · simp [Ledger.watch, hredo]
    · intro _
      simp [step, hr, hfinish, Ledger.watch, hredo, hplay]
    · intro ho
      obtain ⟨prev, hprev, -⟩ := h.marked ho
      refine ⟨prev, by simp [step, hr, replayA, hredo, hprev], ?_⟩
      have hskid := (AxisSkid.valid_of_reset s.skid (skidInputs s i)
        (by simp [skidInputs, replayA, hredo])).2
      have hnil : skidWords p (step p s i) = [] := by
        rw [skidWords, ite_eq_right_iff]
        exact fun _ => hskid
      simpa [Ledger.watch, hredo, hnil] using Marked.replay

end Step

/-! ## Runs -/

/-- A FIFO and its ledger right after a reset. -/
def replayStart (p : Params) (s₀ : State WIDTH ABITS) : State WIDTH ABITS × Ledger WIDTH :=
  (afterReset p s₀, Ledger.empty)

/-- The FIFO and its ledger in a run that starts with a reset. -/
def watchedReplay (p : Params) (s₀ : State WIDTH ABITS) (is : List (Inputs WIDTH)) :
    State WIDTH ABITS × Ledger WIDTH :=
  run (watched (step p) (Ledger.watch p)) (replayStart p s₀) is

/-- What is delivered after a redo starts at the first word of the oldest unfinished packet
and is what was stored there and behind; the word on offer is the next one of it. -/
structure Replays (p : Params) (s : State WIDTH ABITS) (m : Ledger WIDTH) : Prop where
  since : m.since = (m.words.take m.pos).drop m.base
  presented : mTvalid p s = true → m.pos < m.saved ∧ m.words[m.pos]? = some (offered p s)

instance (s : State WIDTH ABITS) (m : Ledger WIDTH) : Decidable (Replays p s m) :=
  decidable_of_iff (m.since = (m.words.take m.pos).drop m.base ∧
    (mTvalid p s = true → m.pos < m.saved ∧ m.words[m.pos]? = some (offered p s)))
    ⟨fun ⟨h₁, h₂⟩ => ⟨h₁, h₂⟩, fun ⟨h₁, h₂⟩ => ⟨h₁, h₂⟩⟩

theorem Ledger.AtEnd.canFinish {m : Ledger WIDTH} (h : m.AtEnd) : m.CanFinish :=
  Or.inl ⟨h.1, h.2.1⟩

theorem ReplayInv.replays {s : State WIDTH ABITS} {m : Ledger WIDTH} (h : ReplayInv p s m) :
    Replays p s m := by
  obtain ⟨rd, hs⟩ := h.stream
  exact ⟨h.since, hs.offered_eq⟩

/-- With a disciplined reader, replay works in every run whose edges are all safe. -/
theorem replays_of_safe (hn : p.nextOnLast = false) (s₀ : State WIDTH ABITS)
    (is : List (Inputs WIDTH)) (hr : ∀ i ∈ is, i.reset = false)
    (h : Along (watched (step p) (Ledger.watch p))
      (fun q i => Disciplined p q.2 q.1 i ∧ Safe p q.2 q.1 i) (replayStart p s₀) is) :
    Replays p (watchedReplay p s₀ is).1 (watchedReplay p s₀ is).2 := by
  let Inv (q : State WIDTH ABITS × Ledger WIDTH) : Prop := ReplayInv p q.1 q.2
  have halong := (along_of_inputs _ (replayStart p s₀) hr).and h
  refine (run_invariant Inv ?_ (replayInv_of_reset p s₀ rfl) halong).replays
  rintro ⟨s, m⟩ i hinv ⟨hri, hdis, hsafe⟩
  refine ReplayInv.next hinv hn hri hsafe fun hnx _ => ?_
  exact (hdis.strobe (by simp [hnx])).canFinish

/-- `SAVE_ON_LAST`, and packets finished by `next_i` only. -/
def replayParams (outreg : ℕ) : Params where
  storeLasts := true
  saveOnLast := true
  lastOnSave := false
  nextOnLast := false
  useLength := false
  maxLength := 0
  outreg := outreg

/-- A cycle of a reader and a writer that neither drops nor saves on its own. -/
def cycle (valid last : Bool) (data : BitVec WIDTH) (ready next redo : Bool) : Inputs WIDTH where
  reset := false
  dropI := false
  saveI := false
  redoI := redo
  nextI := next
  sTvalid := valid
  sTkeep := true
  sTlast := last
  sTdata := data
  mTready := ready

/-- The hypotheses are met by a run in which a packet of two words is delivered twice. -/
theorem replays_twice :
    let is : List (Inputs 4) := [cycle false false 0 false false false,
      cycle true false 1 true false false, cycle true true 2 true false false,
      cycle false false 0 true false false, cycle false false 0 true false false,
      cycle false false 0 true false false, cycle false false 0 true false false,
      cycle false false 0 false false true, cycle false false 0 true false false,
      cycle false false 0 true false false, cycle false false 0 true false false]
    Replays (replayParams 2) (watchedReplay (replayParams 2) (default : State 4 2) is).1
      (watchedReplay (replayParams 2) (default : State 4 2) is).2 :=
  replays_of_safe rfl default _ (by decide) (by decide)

/-- Replay works in every run from reset without drops, for a disciplined reader. -/
def AlwaysReplays (p : Params) : Prop :=
  ∀ (WIDTH ABITS : ℕ) (s₀ : State WIDTH ABITS) (is : List (Inputs WIDTH)), 1 ≤ ABITS →
    (∀ i ∈ is, i.reset = false ∧ i.dropI = false) →
    Along (watched (step p) (Ledger.watch p)) (fun q i => Disciplined p q.2 q.1 i)
      (replayStart p s₀) is →
    Replays p (watchedReplay p s₀ is).1 (watchedReplay p s₀ is).2

/-- For each output pipeline there is a run in which a redo goes wrong: the replay starts
one word early without output registers, the unfinished packet is overwritten with one
register, and a packet is skipped behind a skid register. -/
theorem not_alwaysReplays :
    ¬ AlwaysReplays (replayParams 0) ∧ ¬ AlwaysReplays (replayParams 1) ∧
      ¬ AlwaysReplays (replayParams 2) := by
  refine ⟨fun h => ?_, fun h => ?_, fun h => ?_⟩
  · have hrun := h 4 2 default [cycle false false 0 false false false,
      cycle true true 1 false false false, cycle false false 0 true false false,
      cycle true true 2 false true false, cycle false false 0 true false false,
      cycle true true 3 false false true]
      (by decide) (by decide) (by decide)
    revert hrun
    decide
  · have hrun := h 4 1 default [cycle false false 0 false false false,
      cycle true true 1 false false false, cycle false false 0 false false false,
      cycle true false 2 true false false, cycle true true 3 false false true,
      cycle false false 0 false false false]
      (by decide) (by decide) (by decide)
    revert hrun
    decide
  · have hrun := h 4 2 default [cycle false false 0 false false false,
      cycle true true 1 false false false, cycle true true 2 false false false,
      cycle false false 0 false false false, cycle false false 0 true false false,
      cycle false false 0 false true false, cycle false false 0 true false false,
      cycle true true 3 false false true, cycle false false 0 false false false,
      cycle false false 0 false false false]
      (by decide) (by decide) (by decide)
    revert hrun
    decide

end MiscVerilogCores.PacketFifo
