import Mathlib.Data.List.ReduceOption
import MiscVerilogCores.Verification.AxisFifo.Storage

/-! # What a write can do

One case for each way through the write logic, in each of the two modes. -/

namespace MiscVerilogCores.AxisFifo

open Clocked RingMemory

variable {u d k : ℕ} {V : Type} {p : Params u}

section Cases

variable (s : State p d k V) (i : Inputs d k u V)

/-- The beat is not stored: its frame is dropped. -/
def Drops (s : State p d k V) : Prop :=
  full s = true ∧ p.dropWhenFull = true ∨ fullWr s = true ∧ p.dropOversizeFrame = true ∨ s.dropFrame = true

/-- What is written becomes readable with this beat. -/
def Commits (s : State p d k V) (i : Inputs d k u V) : Prop :=
  i.sAxis.tlast = true ∨ p.dropOversizeFrame = false ∧ (fullWr s = true ∨ s.sendFrame = true)

/-- The frame that ends with this beat is bad, and bad frames are dropped. -/
def Bad (p : Params u) (i : Inputs d k u V) : Prop :=
  i.sAxis.tlast = true ∧ p.dropBadFrame = true ∧ isBad (p := p) i = true

inductive FrameWrite : State p d k V → Prop where
  | dropped (accepted : accepts s i = true) (drops : Drops s) (last : i.sAxis.tlast = true) :
      FrameWrite { rollback (quiet s i) with dropFrame := false, overflow := true }
  | dropping (accepted : accepts s i = true) (drops : Drops s) (more : i.sAxis.tlast = false) :
      FrameWrite { quiet s i with dropFrame := true }
  | bad (accepted : accepts s i = true) (stores : ¬Drops s) (bad : Bad p i) :
      FrameWrite { rollback (store (quiet s i) i) with sendFrame := !i.sAxis.tlast, badFrame := true }
  | committed (accepted : accepts s i = true) (stores : ¬Drops s) (commits : Commits s i) (good : ¬Bad p i) :
      FrameWrite { commit (store (quiet s i) i) with
        sendFrame := !i.sAxis.tlast, goodFrame := i.sAxis.tlast }
  | stored (accepted : accepts s i = true) (stores : ¬Drops s) (open_ : ¬Commits s i) :
      FrameWrite (store (quiet s i) i)
  | released (idle : accepts s i = false) (valid : i.sAxisTvalid = true) (full : fullWr s = true)
      (oversize : p.dropOversizeFrame = false) : FrameWrite { commit (quiet s i) with sendFrame := true }
  | idle (idle : accepts s i = false) : FrameWrite (quiet s i)

theorem frameWrite : FrameWrite s i (writeFrame s i) := by
  have hdrops : (full s && p.dropWhenFull || fullWr s && p.dropOversizeFrame || s.dropFrame) = true ↔
      Drops s := by
    simp [Drops, or_assoc]
  have hcommits : (i.sAxis.tlast || !p.dropOversizeFrame && (fullWr s || s.sendFrame)) = true ↔
      Commits s i := by
    simp [Commits]
  have hbad : (i.sAxis.tlast && p.dropBadFrame && isBad (p := p) i) = true ↔ Bad p i := by
    simp [Bad, and_assoc]
  rw [writeFrame]
  cases haccepts : accepts s i with
  | true =>
      rw [if_pos rfl]
      by_cases hd : Drops s
      · rw [if_pos (hdrops.mpr hd)]
        cases hlast : i.sAxis.tlast with
        | true => exact .dropped haccepts hd hlast
        | false => exact .dropping haccepts hd hlast
      · rw [if_neg (mt hdrops.mp hd)]
        by_cases hc : Commits s i
        · rw [if_pos (hcommits.mpr hc)]
          by_cases hb : Bad p i
          · rw [if_pos (hbad.mpr hb)]
            exact .bad haccepts hd hb
          · rw [if_neg (mt hbad.mp hb)]
            exact .committed haccepts hd hc hb
        · rw [if_neg (mt hcommits.mp hc)]
          exact .stored haccepts hd hc
  | false =>
      rw [if_neg Bool.false_ne_true]
      split
      next hrelease =>
        rw [Bool.and_eq_true, Bool.and_eq_true, Bool.not_eq_true'] at hrelease
        exact .released haccepts hrelease.1.1 hrelease.1.2 hrelease.2
      next => exact .idle haccepts

inductive NormalWrite : State p d k V → Prop where
  | skipped (accepted : accepts s i = true) (mark : p.markWhenFull = true) (dropping : s.dropFrame = true)
      (more : i.sAxis.tlast = false) : NormalWrite (quiet s i)
  | skippedLast (accepted : accepts s i = true) (mark : p.markWhenFull = true)
      (dropping : s.dropFrame = true) (last : i.sAxis.tlast = true)
      (closed : ¬(full s = false ∧ s.markFrame = true)) :
      NormalWrite { quiet s i with dropFrame := false, overflow := true }
  | skippedMarked (accepted : accepts s i = true) (mark : p.markWhenFull = true)
      (dropping : s.dropFrame = true) (last : i.sAxis.tlast = true) (room : full s = false)
      (pending : s.markFrame = true) :
      NormalWrite { commit (store (quiet s i) i) with
        markFrame := false, dropFrame := false, overflow := true }
  | cut (accepted : accepts s i = true) (mark : p.markWhenFull = true) (passing : s.dropFrame = false)
      (blocked : full s = true ∨ s.markFrame = true) :
      NormalWrite { quiet s i with
        dropFrame := !i.sAxis.tlast
        markFrame := s.markFrame || s.sFrame
        overflow := i.sAxis.tlast }
  | stored (accepted : accepts s i = true) (passing : p.markWhenFull = true → s.dropFrame = false)
      (room : full s = false) (unmarked : p.markWhenFull = true → s.markFrame = false) :
      NormalWrite (commit (store (quiet s i) i))
  | marked (idle : accepts s i = false) (mark : p.markWhenFull = true) (room : full s = false)
      (passing : s.dropFrame = false) (pending : s.markFrame = true) :
      NormalWrite { commit (store (quiet s i) i) with markFrame := false }
  | idle (idle : accepts s i = false)
      (done : p.markWhenFull = true → full s = false → s.dropFrame = false → s.markFrame = false) :
      NormalWrite (quiet s i)

theorem normalWrite (hmode : p.frameFifo = false) : NormalWrite s i (writeNormal s i) := by
  rw [writeNormal]
  cases haccepts : accepts s i with
  | true =>
      rw [if_pos rfl]
      split
      next hdrop =>
        rw [Bool.and_eq_true] at hdrop
        cases hlast : i.sAxis.tlast with
        | true =>
            rw [if_pos rfl]
            split
            next hmark =>
              rw [Bool.and_eq_true, Bool.not_eq_true'] at hmark
              exact .skippedMarked haccepts hdrop.2 hdrop.1 hlast hmark.1 hmark.2
            next hmark =>
              refine .skippedLast haccepts hdrop.2 hdrop.1 hlast fun h => hmark ?_
              rw [h.1, h.2]
              rfl
        | false => exact .skipped haccepts hdrop.2 hdrop.1 hlast
      next hpass =>
        rw [Bool.and_eq_true, not_and] at hpass
        have hpassing (hmark : p.markWhenFull = true) : s.dropFrame = false := by
          by_contra hne
          exact hpass (Bool.eq_true_of_not_eq_false hne) hmark
        split
        next hblocked =>
          rw [Bool.and_eq_true, Bool.or_eq_true] at hblocked
          exact .cut haccepts hblocked.2 (hpassing hblocked.2) hblocked.1
        next hfree =>
          have hready : full s = true → p.markWhenFull = true := by
            intro hfull
            rw [accepts, sAxisTready, hmode, if_neg Bool.false_ne_true, hfull, Bool.not_true,
              Bool.false_or, Bool.and_eq_true] at haccepts
            exact haccepts.1
          cases hmark : p.markWhenFull with
          | true =>
              rw [hmark, Bool.and_true, Bool.or_eq_true, not_or] at hfree
              refine .stored haccepts hpassing (Bool.eq_false_iff.mpr hfree.1) fun _ => ?_
              exact Bool.eq_false_iff.mpr hfree.2
          | false =>
              refine .stored haccepts hpassing (Bool.eq_false_iff.mpr fun hfull => ?_) fun h => ?_
              · exact Bool.false_ne_true (hmark.symm.trans (hready hfull))
              · exact absurd (hmark.symm.trans h) Bool.false_ne_true
  | false =>
      rw [if_neg Bool.false_ne_true]
      split
      next hterm =>
        rw [Bool.and_eq_true, Bool.and_eq_true, Bool.and_eq_true, Bool.not_eq_true',
          Bool.not_eq_true'] at hterm
        exact .marked haccepts hterm.2 hterm.1.1.1 hterm.1.1.2 hterm.1.2
      next hterm =>
        refine .idle haccepts fun hmark hroom hpass => ?_
        by_contra hne
        exact hterm (by simp [hmark, hroom, hpass, hne])

end Cases

/-! ## The memory behind a write -/

section Stores

variable {s : State p d k V} {i : Inputs d k u V} {words : List (Word d k u V)} {c r : ℕ}

/-- In frame mode, a beat that is not dropped finds room. -/
theorem not_full (hmode : p.frameFifo = true) (haccepts : accepts s i = true) (hstores : ¬Drops s) :
    full s = false := by
  refine Bool.eq_false_iff.mpr fun hfull => ?_
  rw [accepts, sAxisTready, if_pos hmode, hfull, Bool.not_true, Bool.false_or, Bool.and_eq_true,
    Bool.or_eq_true, Bool.and_eq_true] at haccepts
  obtain hover | hwhen := haccepts.1
  · exact hstores (Or.inr (Or.inl hover))
  · exact hstores (Or.inl ⟨hfull, hwhen⟩)

namespace Stored

theorem quieted (h : Stored s words c r) (i : Inputs d k u V) : Stored (quiet s i) words c r := h.congr rfl rfl rfl rfl

theorem pushed (h : Stored s words c r) (i : Inputs d k u V) (hroom : full s = false) :
    Stored (store (quiet s i) i) (words ++ [sAxis s i]) c r :=
  (h.quieted i).push hroom

theorem pushedCommitted (h : Stored s words c r) (i : Inputs d k u V) (hroom : full s = false) :
    Stored (commit (store (quiet s i) i)) (words ++ [sAxis s i]) (words.length + 1) r := by
  have hall := (h.pushed i hroom).committed
  rwa [List.length_append, List.length_singleton] at hall

theorem frameWrite {s' : State p d k V} (h : Stored s words c r) (hmode : p.frameFifo = true)
    (hw : FrameWrite s i s') : ∃ words' c', Stored s' words' c' r ∧ c ≤ c' ∧ words.take c <+: words' := by
  have hold : words.take c <+: words := List.take_prefix c words
  have hpushed : words.take c <+: words ++ [sAxis s i] := hold.trans (List.prefix_append _ _)
  cases hw with
  | dropped => exact ⟨_, c, (h.quieted i).rolledBack.congr rfl rfl rfl rfl, Nat.le_refl c, List.prefix_rfl⟩
  | dropping => exact ⟨words, c, h.congr rfl rfl rfl rfl, Nat.le_refl c, hold⟩
  | bad haccepts hstores =>
      have hback := (h.pushed i (not_full hmode haccepts hstores)).rolledBack
      rw [h.take_push] at hback
      exact ⟨_, c, hback.congr rfl rfl rfl rfl, Nat.le_refl c, List.prefix_rfl⟩
  | committed haccepts hstores =>
      have hall := h.pushedCommitted i (not_full hmode haccepts hstores)
      exact ⟨_, _, hall.congr rfl rfl rfl rfl, h.commit_le.trans (Nat.le_succ _), hpushed⟩
  | stored haccepts hstores =>
      exact ⟨_, c, h.pushed i (not_full hmode haccepts hstores), Nat.le_refl c, hpushed⟩
  | released => exact ⟨words, _, (h.quieted i).committed.congr rfl rfl rfl rfl, h.commit_le, hold⟩
  | idle => exact ⟨words, c, h.quieted i, Nat.le_refl c, hold⟩

theorem normalWrite {s' : State p d k V} (h : Stored s words c r) (hw : NormalWrite s i s') :
    ∃ words' c', Stored s' words' c' r ∧ c ≤ c' ∧ words.take c <+: words' := by
  have hold : words.take c <+: words := List.take_prefix c words
  have hpushed : words.take c <+: words ++ [sAxis s i] := hold.trans (List.prefix_append _ _)
  have hless : c ≤ words.length + 1 := h.commit_le.trans (Nat.le_succ _)
  cases hw with
  | skipped => exact ⟨words, c, h.quieted i, Nat.le_refl c, hold⟩
  | skippedLast => exact ⟨words, c, h.congr rfl rfl rfl rfl, Nat.le_refl c, hold⟩
  | skippedMarked _ _ _ _ hroom =>
      exact ⟨_, _, (h.pushedCommitted i hroom).congr rfl rfl rfl rfl, hless, hpushed⟩
  | cut => exact ⟨words, c, h.congr rfl rfl rfl rfl, Nat.le_refl c, hold⟩
  | stored _ _ hroom => exact ⟨_, _, h.pushedCommitted i hroom, hless, hpushed⟩
  | marked _ _ hroom =>
      exact ⟨_, _, (h.pushedCommitted i hroom).congr rfl rfl rfl rfl, hless, hpushed⟩
  | idle => exact ⟨words, c, h.quieted i, Nat.le_refl c, hold⟩

/-- Whatever is written, what is committed stays. -/
theorem write (h : Stored s words c r) (i : Inputs d k u V) :
    ∃ words' c', Stored (write s i) words' c' r ∧ c ≤ c' ∧ words.take c <+: words' := by
  rw [AxisFifo.write]
  split
  next hmode => exact h.frameWrite hmode (AxisFifo.frameWrite s i)
  next hmode => exact h.normalWrite (AxisFifo.normalWrite s i (Bool.eq_false_iff.mpr hmode))

end Stored

end Stores

/-! ## What is committed is delivered -/

section Delivery

/-- The stages, and the committed words behind them. -/
def slots (s : State p d k V) (words : List (Word d k u V)) (c r : ℕ) : List (Option (Word d k u V)) :=
  s.pipe.1.map Stage.item ++ ((words.take c).drop r).map some

variable {s : State p d k V} {i : Inputs d k u V} {words words' : List (Word d k u V)} {c c' r : ℕ}

/-- The first stage is loaded with the oldest word in the memory, if there is one. -/
theorem Stored.reads (h : Stored s words c r) (hkeep : words.take c <+: words') (hc : c ≤ c') :
    ∃ more, (if loads s i then [(⟨!empty s, s.mem (slot s.rdPtr)⟩ : Stage _).item] else []) ++
        ((words'.take c').drop (if fetches s i then r + 1 else r)).map some =
      ((words.take c).drop r).map some ++ more := by
  have hlen : (words.take c).length = c := by rw [List.length_take, Nat.min_eq_left h.commit_le]
  obtain ⟨extra, hextra⟩ : words.take c <+: words'.take c' := by
    rw [← h.take_eq hkeep (Nat.le_refl c)]
    exact List.take_prefix_take_left hc
  rw [← hextra]
  cases hfetch : fetches s i with
  | true =>
      have hlt := h.lt_of_fetches hfetch
      have hword : r < words.length := hlt.trans_le h.commit_le
      have hboth : loads s i = true ∧ empty s = false := by
        rwa [fetches, Bool.and_eq_true, Bool.not_eq_true'] at hfetch
      have hfirst : (words.take c).drop r = words[r] :: (words.take c).drop (r + 1) := by
        rw [List.drop_eq_getElem_cons (by omega), List.getElem_take]
      refine ⟨extra.map some, ?_⟩
      rw [hboth.1, hboth.2, if_pos rfl, if_pos rfl, hfirst, h.mem_rdPtr hword,
        List.drop_append_of_le_length (by omega)]
      simp [Stage.item]
  | false =>
      have hread := h.read_le
      rw [if_neg Bool.false_ne_true, List.drop_append_of_le_length (by omega)]
      cases hloads : loads s i with
      | true =>
          have hempty : empty s = true := by simpa [fetches, hloads] using hfetch
          have hnone : (words.take c).drop r = [] := by
            rw [List.drop_eq_nil_iff, hlen]
            exact (h.empty_iff.mp hempty).le
          refine ⟨none :: extra.map some, ?_⟩
          rw [hnone, hempty]
          simp [Stage.item]
      | false => exact ⟨extra.map some, by simp⟩

/-- If the output is taken, all slots move on; if not, those behind a bubble do. -/
theorem Stored.slots_step (h : Stored s words c r) (hr : i.rst = false) :
    ∃ words' c' r' more, Stored (step s i) words' c' r' ∧
      (i.mAxisTready = true ∧
          slots (step s i) words' c' r' = (slots s words c r).tail ++ more ∨
        i.mAxisTready = false ∧ (∃ front back, slots s words c r = front ++ none :: back ∧
          slots (step s i) words' c' r' = front ++ back ++ more) ∨
        i.mAxisTready = false ∧ slots (step s i) words' c' r' = slots s words c r ++ more) := by
  obtain ⟨words', c', hwrite, hc, hkeep⟩ := h.write i
  obtain ⟨more, hmore⟩ := h.reads (i := i) hkeep hc
  refine ⟨words', c', _, more, h.next hr hwrite hc, ?_⟩
  rw [slots, slots, step_pipe hr]
  cases hready : i.mAxisTready with
  | true =>
      refine Or.inl ⟨rfl, ?_⟩
      have hloads : loads s i = true := by rw [loads, hready, Bool.true_or]
      rw [hloads, if_pos rfl] at hmore
      rw [pipe_eq s, advance_true, List.map_append, List.append_assoc, List.map_singleton, hmore]
      simp
  | false =>
      cases hbubble : bubbles s.pipe.1 with
      | true =>
          refine Or.inr (Or.inl ⟨rfl, ?_⟩)
          have hloads : loads s i = true := by
            rw [loads, hready, Bool.false_or]
            exact hbubble
          rw [hloads, if_pos rfl] at hmore
          obtain ⟨front, x, back, hsplit, hx, -, hadvance⟩ := advance_bubble hbubble
          refine ⟨front.map Stage.item, back.map Stage.item ++ ((words.take c).drop r).map some, ?_, ?_⟩
          · rw [hsplit]
            simp [Stage.item, hx]
          · rw [hadvance, List.map_append, List.append_assoc, List.map_singleton, hmore]
            simp
      | false =>
          refine Or.inr (Or.inr ⟨rfl, ?_⟩)
          have hloads : loads s i = false := by
            rw [loads, hready, Bool.false_or]
            exact hbubble
          rw [hloads, if_neg Bool.false_ne_true, List.nil_append] at hmore
          rw [advance_full hbubble, hmore, List.append_assoc]

/-- The words that are left are in the first `rank` slots. -/
def Within (s : State p d k V) (left : List (Word d k u V)) (rank : ℕ) : Prop :=
  ∃ words c r front back, Stored s words c r ∧ slots s words c r = front ++ back ∧
    front.reduceOption = left ∧ front.length ≤ rank

theorem Within.next {left : List (Word d k u V)} {rank : ℕ} (h : Within s left rank) (hleft : left ≠ [])
    (hr : i.rst = false) : ∃ left' rank', left = takenAt s i ++ left' ∧
      rank' ≤ rank - i.mAxisTready.toNat ∧ Within (step s i) left' rank' := by
  obtain ⟨words, c, r, front, back, hstored, hslots, hfront, hrank⟩ := h
  obtain ⟨words', c', r', more, hnext, hmove⟩ := hstored.slots_step hr
  have htop : takenAt s i = if i.mAxisTready then (top s).item.toList else [] := takenAt_eq s i
  obtain ⟨hready, htail⟩ | ⟨hready, hbubble⟩ | ⟨hready, hstay⟩ := hmove
  · cases front with
    | nil => exact absurd hfront.symm hleft
    | cons x front =>
        have hx : x = (top s).item := by
          rw [slots, pipe_eq s] at hslots
          exact (List.cons.inj hslots).1.symm
        rw [htop, hready, if_pos rfl, ← hx]
        refine ⟨front.reduceOption, rank - 1, ?_, by simp, ?_⟩
        · rw [← hfront]
          cases x <;> simp
        · refine ⟨words', c', r', front, back ++ more, hnext, ?_, rfl, ?_⟩
          · rw [htail, hslots]
            simp
          · rw [List.length_cons] at hrank
            omega
  · rw [htop, hready]
    refine ⟨left, rank, rfl, by simp, ?_⟩
    obtain ⟨ahead, behind, hsplit, hmoved⟩ := hbubble
    rw [hslots] at hsplit
    obtain ⟨rest, hahead, hback⟩ | ⟨rest, hcut, hbehind⟩ := List.append_eq_append_iff.mp hsplit
    · -- the bubble is behind what is left
      refine ⟨words', c', r', front, rest ++ behind ++ more, hnext, ?_, hfront, hrank⟩
      rw [hmoved, hahead]
      simp
    · cases rest with
      | nil =>
          rw [List.append_nil] at hcut
          refine ⟨words', c', r', front, behind ++ more, hnext, ?_, hfront, hrank⟩
          rw [hmoved, hcut]
          simp
      | cons x rest =>
          obtain ⟨rfl, hrest⟩ := List.cons.inj hbehind
          refine ⟨words', c', r', ahead ++ rest, back ++ more, hnext, ?_, ?_, ?_⟩
          · rw [hmoved, hrest]
            simp
          · rw [← hfront, hcut]
            simp [List.reduceOption_append]
          · rw [hcut, List.length_append, List.length_cons] at hrank
            rw [List.length_append]
            omega
  · rw [htop, hready]
    refine ⟨left, rank, rfl, by simp, words', c', r', front, back ++ more, hnext, ?_, hfront, hrank⟩
    rw [hstay, hslots, List.append_assoc]

/-- What can be read and has not been taken. -/
def readable (s : State p d k V) : List (Word d k u V) :=
  contents s.pipe.1 ++ window s.mem s.rdPtr (s.wrPtrCommit - s.rdPtr).toNat

theorem Stored.window_eq (h : Stored s words c r) :
    window s.mem s.rdPtr (s.wrPtrCommit - s.rdPtr).toNat = (words.take c).drop r := by
  have hlen : (words.take c).length = c := by rw [List.length_take, Nat.min_eq_left h.commit_le]
  have hread := h.read_le
  have hwindow := (h.holds.take c).window_eq (Nat.le_refl r) (by omega)
  rwa [hlen, ← h.rdPtr_eq, ← h.commit_eq] at hwindow

/-- What can be read is taken within so many cycles in which the output is ready. -/
theorem Stored.delivers (h : Stored s words c r) {is : List (Inputs d k u V)}
    (hi : ∀ i ∈ is, i.rst = false)
    (hready : 2 ^ p.addrWidth + p.ramPipeline + 1 ≤ is.countP Inputs.mAxisTready) :
    readable s <+: taken s is := by
  let Inv (s : State p d k V) (left : List (Word d k u V)) (rank : ℕ) : Prop := Within s left rank
  have hstart : Inv s (readable s) (slots s words c r).length := by
    refine ⟨words, c, r, slots s words c r, [], h, (List.append_nil _).symm, ?_, Nat.le_refl _⟩
    rw [readable, h.window_eq, slots, List.reduceOption_append]
    simp [contents, List.reduceOption]
  have hbound : (slots s words c r).length ≤ is.countP Inputs.mAxisTready := by
    have hlen := h.length_le
    have hread := h.read_le
    have hcommit := h.commit_le
    have hpipe := s.pipe.2
    rw [slots, List.length_append, List.length_map, List.length_map, List.length_drop, List.length_take]
    omega
  have hnext : ∀ s (i : Inputs d k u V) left rank, Inv s left rank → left ≠ [] → i.rst = false → _ :=
    fun s i left rank h hleft hr => h.next hleft hr
  have hdone : ∀ (s : State p d k V) left, Inv s left 0 → left = [] := by
    rintro s left ⟨words, c, r, front, back, -, -, rfl, hrank⟩
    rw [List.length_eq_zero_iff.mp (Nat.le_zero.mp hrank)]
    rfl
  exact prefix_emitted_of_rank Inv Inputs.mAxisTready hnext hdone hstart (along_of_inputs step s hi) hbound

end Delivery

end MiscVerilogCores.AxisFifo
