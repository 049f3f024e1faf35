import MiscVerilogCores.Verification.BulkIn.Edges
import Mathlib.Data.List.ReduceOption

/-! # Delivery through a bulk IN end-point

The stream of the FIFO is what the source handed in, but for the word in the holding
register. Its committed words go out packet by packet: the words before `start` are
acknowledged, and those from `start` to `pos` are the packet being sent. -/

namespace MiscVerilogCores.BulkIn

open Clocked PacketFifo

variable {ABITS : ℕ} {p : Params} {s : State ABITS p} {i : Inputs} {m : Log}

/-! ## The receiver -/

/-- The word in the holding register of the FIFO. -/
def heldBytes (s : State ABITS p) : List (BitVec 8) :=
  if s.fifo.xvld then [s.fifo.xdat] else []

/-- What was accepted is in the stream, or held. -/
structure Received (s : State ABITS p) (m : Log) : Prop where
  bytes : m.ledger.words.map Prod.snd ++ heldBytes s = m.traffic.accepted.map Prod.snd
  saveQ : s.fifo.saveQ = true → s.fifo.xvld = true

theorem accepted_eq (hl : Lossless m s i) :
    accepted s i = if i.sTvalid && treadyW s then [(i.sTlast, i.sTdata)] else [] := by
  cases hv : i.sTvalid <;> cases hw : treadyW s
  · simp [accepted, hv]
  · simp [accepted, hv]
  · simp [accepted, sTready, hv, hw]
  · simp [accepted, hl.captured (by simp [hv, hw]), hv]

/-- A word leaves the holding register when the next one arrives, or when it ends a packet. -/
theorem received_next (h : Received s m) (hr : s.rstQ = false) (hl : Lossless m s i) :
    Received (step s i) (m.watch s i) := by
  have hrelease := hl.release
  have hacc := accepted_eq hl
  refine ⟨?_, ?_⟩
  · have hbytes := h.bytes
    simp only [Log.watch, hr, Bool.false_eq_true, if_false, Ledger.watch, Traffic.watch,
      List.map_append, hacc, ← hbytes]
    cases hv : i.sTvalid <;> cases hw : s.fifo.wready <;> cases hx : s.fifo.xvld <;>
      cases hxl : s.fifo.xlst <;> cases hsq : s.fifo.saveQ <;>
      simp_all [heldBytes, step, PacketFifo.step, wordsNext, rejectA, stored, storeW, wordW, dataW,
        releaseA, captureA, fifoParams, fifoInputs, treadyW, PacketFifo.sTready]
  · intro hsq
    simp only [step, PacketFifo.step, saveW, PacketFifo.saveW, captureA, fifoParams, fifoInputs,
      treadyW, PacketFifo.sTready, BulkIn.saveW] at hsq ⊢
    cases hv : i.sTvalid <;> cases hw : s.fifo.wready <;> simp_all

/-- A packet that is committed has its last word stored at the same edge. -/
theorem Received.not_savesNothing (h : Received s m) (hl : Lossless m s i) {saved rd lost : ℕ}
    (hs : Stored s.fifo m.ledger.words saved rd lost) :
    ¬ SavesNothing (fifoParams p) s.fifo (fifoInputs s i) := by
  refine hs.not_savesNothing rfl fun ha => ?_
  have hsq : s.fifo.saveQ = true := by simpa [acceptA, fifoParams] using ha
  have hx := h.saveQ hsq
  have hw := hl.release (by simp [releaseA, hx, hsq])
  have hstore : storeW (fifoParams p) s.fifo (fifoInputs s i) = true := by
    simp [storeW, fifoParams, hx, hw, hsq]
  exact ⟨hstore, hs.room hl.room hstore rfl⟩

/-! ## The transmitter -/

/-- The beats that the words from `start` up to `pos` are sent as. -/
def beats (words : List (Word 8)) (start pos : ℕ) : Packet :=
  ((words.take pos).drop start).map fun w => some w.2

/-- No word from `start` up to `pos` has its `tlast` bit set. -/
def Unfinished (words : List (Word 8)) (start pos : ℕ) : Prop :=
  ∀ k < pos, start ≤ k → lastAt words k = false

/-- The packet that begins at `start` ends before `pos`. -/
def EndsAt (words : List (Word 8)) (start pos : ℕ) : Prop :=
  start < pos ∧ lastAt words (pos - 1) = true ∧ Unfinished words start (pos - 1)

section Words

variable {words words' : List (Word 8)} {start pos saved : ℕ}

theorem take_congr (h : words'.take saved = words.take saved) (hle : pos ≤ saved) :
    words'.take pos = words.take pos := by
  have htake := congrArg (List.take pos) h
  rwa [List.take_take, List.take_take, Nat.min_eq_left hle] at htake

theorem lastAt_congr (h : words'.take saved = words.take saved) {k : ℕ} (hk : k < saved) :
    lastAt words' k = lastAt words k := by
  have hget := congrArg (fun ws => ws[k]?) h
  simp only [List.getElem?_take_of_lt hk] at hget
  rw [lastAt, lastAt, hget]

theorem beats_congr (h : words'.take saved = words.take saved) (hle : pos ≤ saved) :
    beats words' start pos = beats words start pos := by
  rw [beats, beats, take_congr h hle]

theorem Unfinished.congr (hno : Unfinished words start pos)
    (h : words'.take saved = words.take saved) (hle : pos ≤ saved) :
    Unfinished words' start pos := by
  intro k hk hks
  rw [lastAt_congr h (by omega)]
  exact hno k hk hks

theorem EndsAt.congr (hend : EndsAt words start pos) (h : words'.take saved = words.take saved)
    (hle : pos ≤ saved) : EndsAt words' start pos := by
  obtain ⟨hlt, hlast, hno⟩ := hend
  refine ⟨hlt, ?_, hno.congr h (by omega)⟩
  rw [lastAt_congr h (by omega), hlast]

/-- A packet has one end. -/
theorem EndsAt.unique (hend : EndsAt words start pos) {e : ℕ} (he : EndsAt words start e) :
    e = pos := by
  obtain ⟨hlt, hlast, hno⟩ := hend
  obtain ⟨hlt', hlast', hno'⟩ := he
  rcases lt_trichotomy (e - 1) (pos - 1) with hbefore | heq | hbehind
  · simp [hno (e - 1) hbefore (by omega)] at hlast'
  · omega
  · simp [hno' (pos - 1) hbehind (by omega)] at hlast

theorem Unfinished.le_end (hno : Unfinished words start pos) {e : ℕ}
    (he : EndsAt words start e) : pos ≤ e := by
  obtain ⟨hlt, hlast, -⟩ := he
  by_contra hgt
  simp [hno (e - 1) (by omega) (by omega)] at hlast

theorem beats_isPrefix {e : ℕ} (hle : pos ≤ e) : beats words start pos <+: beats words start e :=
  ((List.take_prefix_take_left hle).drop start).map _

/-- One more word is sent. -/
theorem beats_succ (hstart : start ≤ pos) {w : Word 8} (hw : words[pos]? = some w) :
    beats words start (pos + 1) = beats words start pos ++ [some w.2] := by
  obtain ⟨hlt, hget⟩ := List.getElem?_eq_some_iff.mp hw
  have hlen : start ≤ (words.take pos).length := by
    rw [List.length_take]
    omega
  rw [beats, beats, List.take_succ_eq_append_getElem hlt, List.drop_append_of_le_length hlen,
    List.map_append, hget]
  rfl

theorem beats_self : beats words start start = [] := by
  rw [beats, List.map_eq_nil_iff, List.drop_eq_nil_iff, List.length_take]
  omega

theorem Unfinished.succ (hno : Unfinished words start pos) (hlast : lastAt words pos = false) :
    Unfinished words start (pos + 1) := by
  intro k hk hks
  by_cases heq : k = pos
  · rw [heq, hlast]
  · exact hno k (by omega) hks

theorem dataBytes_concat (acked : List Packet) (packet : Packet) :
    dataBytes (acked ++ [packet]) = dataBytes acked ++ packet.reduceOption := by
  simp [dataBytes, List.reduceOption_append]

theorem reduceOption_beats : (beats words start pos).reduceOption =
    ((words.take pos).drop start).map Prod.snd := by
  rw [beats, List.reduceOption, List.filterMap_map]
  exact congrFun (List.filterMap_eq_map (f := Prod.snd)) _

/-- A packet sent from `start` up to `pos` is what the host then has in addition. -/
theorem take_map_append_beats (h : start ≤ pos) :
    (words.take start).map Prod.snd ++ (beats words start pos).reduceOption =
      (words.take pos).map Prod.snd := by
  rw [reduceOption_beats, ← List.map_append]
  congr 1
  calc words.take start ++ (words.take pos).drop start
      = (words.take pos).take start ++ (words.take pos).drop start := by
        rw [List.take_take, Nat.min_eq_left h]
    _ = words.take pos := List.take_append_drop _ _

end Words

/-- Nothing was sent since the last answer. -/
structure Unsent (m : Log) : Prop where
  waiting : m.traffic.waiting = false
  packet : m.traffic.packet = []
  pos : m.ledger.pos = m.ledger.start

/-- Nothing was sent since the last acknowledge. -/
structure Fresh (m : Log) : Prop extends Unsent m where
  replayed : m.ledger.replayed = false
  attempt : m.traffic.attempt = none

/-- A data packet is being sent. -/
structure Sending (m : Log) : Prop where
  waiting : m.traffic.waiting = false
  packet : m.traffic.packet = beats m.ledger.words m.ledger.start m.ledger.pos
  unfinished : Unfinished m.ledger.words m.ledger.start m.ledger.pos

/-- A data packet was sent. -/
structure SentData (m : Log) : Prop where
  waiting : m.traffic.waiting = true
  packet : m.traffic.packet = beats m.ledger.words m.ledger.start m.ledger.pos
  endsAt : EndsAt m.ledger.words m.ledger.start m.ledger.pos

/-- A zero-data packet was sent. -/
structure SentZero (m : Log) : Prop where
  waiting : m.traffic.waiting = true
  packet : m.traffic.packet = [none]
  pos : m.ledger.pos = m.ledger.start
  replayed : m.ledger.replayed = false
  attempt : m.traffic.attempt = none

/-- What the transmit states stand for. A configuration event leaves the transmitter as it
is, so that it can wait with nothing sent. -/
def Phase (m : Log) : Send → Prop
  | .idle => Fresh m
  | .send => Sending m
  | .wait => SentData m ∨ SentZero m ∨ Fresh m
  | .none => Fresh m
  | .redo => Unsent m

theorem Unsent.sending (h : Unsent m) : Sending m := by
  refine ⟨h.waiting, by rw [h.packet, h.pos, beats_self], fun k hk hks => ?_⟩
  have := h.pos
  omega

theorem Fresh.phase (h : Fresh m) (state : Send) : Phase m state := by
  cases state
  · exact h
  · exact h.toUnsent.sending
  · exact Or.inr (Or.inr h)
  · exact h
  · exact h.toUnsent

theorem Phase.waiting {state : Send} (h : Phase m state) (hne : state ≠ .wait) :
    m.traffic.waiting = false := by
  cases state
  · exact h.toUnsent.waiting
  · exact Sending.waiting h
  · exact absurd rfl hne
  · exact h.toUnsent.waiting
  · exact Unsent.waiting h

/-- The host has the words before `start`; `attempt` is the packet behind them. -/
structure Transmitted (state : Send) (m : Log) : Prop where
  acked : dataBytes m.traffic.acked = (m.ledger.words.take m.ledger.start).map Prod.snd
  attempt : ∀ a ∈ m.traffic.attempt, ∃ e ≤ m.ledger.saved,
    EndsAt m.ledger.words m.ledger.start e ∧ a = beats m.ledger.words m.ledger.start e
  phase : Phase m state

/-- The invariant behind the reset of the FIFO. -/
structure Delivering (s : State ABITS p) (m : Log) : Prop where
  ready : Ready s m
  replay : ReplayInv (fifoParams p) s.fifo m.ledger
  received : Received s m
  transmitted : Transmitted s.send m

section Step

/-- Of the stream only the committed words are given. -/
structure Grows (m m' : Log) : Prop where
  take : m'.ledger.words.take m.ledger.saved = m.ledger.words.take m.ledger.saved
  saved_le : m.ledger.saved ≤ m'.ledger.saved
  start_le : m.ledger.start ≤ m.ledger.pos
  pos_le : m.ledger.pos ≤ m.ledger.saved

namespace Transmitted

variable {m' : Log} {state : Send}

/-- What was acknowledged stays, with the packet that may have to be sent again. -/
theorem keep (h : Transmitted state m) (hg : Grows m m')
    (hst : m'.ledger.start = m.ledger.start) (hack : m'.traffic.acked = m.traffic.acked)
    (hat : m'.traffic.attempt = m.traffic.attempt) {state' : Send} (hphase : Phase m' state') :
    Transmitted state' m' := by
  refine ⟨?_, fun a ha => ?_, hphase⟩
  · rw [hack, hst, take_congr hg.take (hg.start_le.trans hg.pos_le), h.acked]
  · obtain ⟨e, he, hend, heq⟩ := h.attempt a (hat ▸ ha)
    refine ⟨e, he.trans hg.saved_le, ?_, ?_⟩
    · rw [hst]
      exact hend.congr hg.take he
    · rw [hst, beats_congr hg.take he, heq]

theorem kept (h : Transmitted state m) (hg : Grows m m') (hk : Kept m m') :
    Transmitted state m' := by
  obtain ⟨hst, hps, hrp, hack, hpk, hwt, hat⟩ := hk
  have hfresh : Fresh m → Fresh m' := by
    rintro ⟨⟨h₁, h₂, h₃⟩, h₄, h₅⟩
    exact ⟨⟨hwt.trans h₁, hpk.trans h₂, by rw [hps, hst, h₃]⟩, hrp.trans h₄, hat.trans h₅⟩
  have hphase := h.phase
  refine h.keep hg hst hack hat ?_
  cases state
  · exact hfresh hphase
  · obtain ⟨h₁, h₂, h₃⟩ := hphase
    refine ⟨hwt.trans h₁, ?_, ?_⟩
    · rw [hpk, hst, hps, beats_congr hg.take hg.pos_le, h₂]
    · rw [hst, hps]
      exact h₃.congr hg.take hg.pos_le
  · rcases hphase with ⟨h₁, h₂, h₃⟩ | ⟨h₁, h₂, h₃, h₄, h₅⟩ | hphase
    · refine Or.inl ⟨hwt.trans h₁, ?_, ?_⟩
      · rw [hpk, hst, hps, beats_congr hg.take hg.pos_le, h₂]
      · rw [hst, hps]
        exact h₃.congr hg.take hg.pos_le
    · exact Or.inr (Or.inl ⟨hwt.trans h₁, hpk.trans h₂, by rw [hps, hst, h₃], hrp.trans h₄,
        hat.trans h₅⟩)
    · exact Or.inr (Or.inr (hfresh hphase))
  · exact hfresh hphase
  · obtain ⟨h₁, h₂, h₃⟩ := hphase
    exact ⟨hwt.trans h₁, hpk.trans h₂, by rw [hps, hst, h₃]⟩

/-- A word of a packet is sent. -/
theorem word (h : Transmitted .send m) (hg : Grows m m') {data : BitVec 8} {last : Bool}
    (hlt : m.ledger.pos < m.ledger.saved) (hword : m.ledger.words[m.ledger.pos]? = some (last, data))
    (hb : Beats m m' (some data) last 1) :
    Transmitted (if last then .wait else .send) m' := by
  obtain ⟨hst, hps, -, hack, hpk, hwt, hat⟩ := hb
  obtain ⟨h₁, h₂, h₃⟩ := h.phase
  rw [h₂, ← beats_succ hg.start_le hword, ← beats_congr hg.take hlt] at hpk
  have hlast : lastAt m'.ledger.words m.ledger.pos = last := by
    rw [lastAt_congr hg.take hlt]
    simp [lastAt, hword]
  have hno := h₃.congr hg.take hg.pos_le
  refine h.keep hg hst hack hat ?_
  cases last
  · exact ⟨hwt, by rw [hpk, hst, hps], by rw [hst, hps]; exact hno.succ hlast⟩
  · refine Or.inl ⟨hwt, by rw [hpk, hst, hps], ?_⟩
    rw [hst, hps]
    exact ⟨Nat.lt_succ_of_le hg.start_le, hlast, hno⟩

/-- The beat of a zero-data packet is sent. -/
theorem zero (h : Transmitted .none m) (hg : Grows m m') (hb : Beats m m' none true 0) :
    Transmitted .wait m' := by
  obtain ⟨hst, hps, hrp, hack, hpk, hwt, hat⟩ := hb
  obtain ⟨⟨-, h₂, h₃⟩, h₄, h₅⟩ := h.phase
  rw [h₂] at hpk
  exact h.keep hg hst hack hat
    (Or.inr (Or.inl ⟨hwt, hpk, by rw [hps, hst, h₃, Nat.add_zero], hrp.trans h₄, hat.trans h₅⟩))

/-- The packet that was sent is acknowledged. -/
theorem ack (h : Transmitted .wait m) (hg : Grows m m') (ha : Acks m m') :
    Fresh m' ∧ dataBytes m'.traffic.acked = (m'.ledger.words.take m'.ledger.start).map Prod.snd := by
  obtain ⟨hst, hps, hrp, hack, hpk, hwt, hat⟩ := ha
  have hacked := h.acked
  rw [hst, take_congr hg.take hg.pos_le, hack]
  rcases h.phase with ⟨h₁, h₂, -⟩ | ⟨h₁, h₂, h₃, -⟩ | ⟨⟨h₁, h₂, h₃⟩, -, h₅⟩
  · rw [h₁] at hpk hat
    refine ⟨⟨⟨hwt, hpk, by rw [hps, hst]⟩, hrp, hat⟩, ?_⟩
    rw [h₁, if_pos rfl, dataBytes_concat, hacked, h₂, take_map_append_beats hg.start_le]
  · rw [h₁] at hpk hat
    refine ⟨⟨⟨hwt, hpk, by rw [hps, hst]⟩, hrp, hat⟩, ?_⟩
    rw [h₁, if_pos rfl, dataBytes_concat, hacked, h₂, h₃]
    simp [List.reduceOption]
  · rw [h₁] at hpk hat
    refine ⟨⟨⟨hwt, hpk.trans h₂, by rw [hps, hst]⟩, hrp, hat.trans h₅⟩, ?_⟩
    rw [h₁, h₃, ← hacked]
    simp

/-- The data packet that was sent times out. -/
theorem timeout (h : Transmitted .wait m) (hg : Grows m m') (ha : TimesOut m m')
    (hzdp : m.traffic.packet ≠ [none]) : Transmitted .redo m' := by
  obtain ⟨hst, hps, hack, hpk, hwt, hat⟩ := ha
  rcases h.phase with ⟨h₁, h₂, h₃⟩ | ⟨-, h₂, -⟩ | ⟨⟨h₁, h₂, h₃⟩, -, h₅⟩
  · rw [h₁] at hpk hat
    refine ⟨?_, ?_, ⟨hwt, hpk, by rw [hps, hst]⟩⟩
    · rw [hack, hst, take_congr hg.take (hg.start_le.trans hg.pos_le), h.acked]
    · intro a ha
      have heq : m.traffic.packet = a := by simpa [hat] using ha
      refine ⟨m.ledger.pos, hg.pos_le.trans hg.saved_le, ?_, ?_⟩
      · rw [hst]
        exact h₃.congr hg.take hg.pos_le
      · rw [hst, beats_congr hg.take hg.pos_le, ← h₂, heq]
  · exact absurd h₂ hzdp
  · rw [h₁] at hpk hat
    exact h.keep hg hst hack hat ⟨hwt, hpk.trans h₂, by rw [hps, hst]⟩

end Transmitted

namespace Delivering

/-- The committed words stay as they are. -/
theorem grows (h : Delivering s m) (i : Inputs) : Grows m (m.watch s i) := by
  obtain ⟨rd, hs⟩ := h.replay.stream
  have hledger : (m.watch s i).ledger =
      m.ledger.watch (fifoParams p) s.fifo (fifoInputs s i) := by
    simp [Log.watch, h.ready.rstQ]
  refine ⟨?_, ?_, h.replay.start_le, hs.output.pos_le.trans hs.stored.rd_le⟩
  · rw [hledger]
    exact hs.stored.take_wordsNext le_rfl
  · rw [hledger]
    exact hs.stored.saved_le_savedNext

/-- The word on offer is the next one. -/
theorem word (h : Delivering s m) (hv : tvalidR s = true) :
    m.ledger.pos < m.ledger.saved ∧ m.ledger.words[m.ledger.pos]? = some (tlastR s, mTdata s) := by
  obtain ⟨rd, hs⟩ := h.replay.stream
  exact hs.offered_eq hv

/-- The transmitter after an edge. -/
theorem transmitted_next (h : Delivering s m) (hi : Polled i) (hl : Lossless m s i) :
    Transmitted (snxt s i) (m.watch s i) := by
  have ht := h.transmitted
  have hg := h.grows i
  cases edge h.ready hi with
  | keep hk _ _ _ hsend =>
      rw [hsend]
      exact ht.kept hg hk
  | poll hs hsel hk hsend =>
      rw [hs] at ht
      have hidle := ht.kept hg hk
      exact ⟨hidle.acked, hidle.attempt, Fresh.phase hidle.phase _⟩
  | again hs hk hsend =>
      rw [hs] at ht
      obtain ⟨hacked, hattempt, hunsent⟩ := ht.kept hg hk
      rw [hsend]
      exact ⟨hacked, hattempt, Unsent.sending hunsent⟩
  | word hs hv hm hb hsend =>
      rw [hs] at ht
      obtain ⟨hlt, hword⟩ := h.word hv
      rw [hsend]
      exact ht.word hg hlt hword hb
  | zero hs hm hb hsend =>
      rw [hs] at ht
      rw [hsend]
      exact ht.zero hg hb
  | ack hs hack ha hsend =>
      rw [hs] at ht
      obtain ⟨hfresh, hacked⟩ := ht.ack hg ha
      have hattempt := hfresh.attempt
      exact ⟨hacked, by simp [hattempt], hfresh.phase _⟩
  | timeout hs hredo ha hsend =>
      rw [hs] at ht
      rw [hsend]
      exact ht.timeout hg ha (hl.zdp hredo)

theorem next (h : Delivering s m) (hi : Polled i) (hl : Lossless m s i) :
    Delivering (step s i) (m.watch s i) := by
  have hledger : (m.watch s i).ledger =
      m.ledger.watch (fifoParams p) s.fifo (fifoInputs s i) := by
    simp [Log.watch, h.ready.rstQ]
  have ht := h.transmitted_next hi hl
  obtain ⟨rd, hs⟩ := h.replay.stream
  have hsafe : Safe (fifoParams p) m.ledger s.fifo (fifoInputs s i) :=
    ⟨hl.room, h.received.not_savesNothing hl hs.stored, hl.replay⟩
  have hfinish : (fifoInputs s i).nextI = true → (fifoInputs s i).redoI = false →
      m.ledger.CanFinish := by
    intro hnext _
    have hwait : s.send = .wait := by
      simp only [fifoInputs, nextW, Bool.and_eq_true, beq_iff_eq] at hnext
      exact hnext.1.1
    have hphase := h.transmitted.phase
    rw [hwait] at hphase
    rcases hphase with hdata | hzero | hfresh
    · exact Or.inl ⟨hdata.endsAt.1, hdata.endsAt.2.1⟩
    · exact Or.inr ⟨hzero.pos, hzero.replayed⟩
    · exact Or.inr ⟨hfresh.pos, hfresh.replayed⟩
  refine ⟨⟨?_, ?_, ?_, ht.phase.waiting⟩, ?_, received_next h.received h.ready.rstQ hl, ht⟩
  · simp [step, hi.reset, hi.clrConfI, hi.setConfI, h.ready.setQ]
  · simp [step, hi.reset, hi.clrConfI, hi.setConfI]
  · intro hen
    simp [step, snxt, hen]
  · rw [hledger]
    exact h.replay.next rfl h.ready.rstQ hsafe hfinish

end Delivering

/-- The end-point after the reset of its FIFO. -/
theorem delivering_of_reset (hset : s.setQ = true) (hr : s.rstQ = true) (hi : Polled i)
    (hq : Quiet s i) : Delivering (step s i) (Log.empty.watch s i) := by
  obtain ⟨hin, hout⟩ := hq
  have hready : (i.sTvalid && sTready s) = false := by
    simp only [sTready, Bool.and_eq_false_iff] at hin ⊢
    tauto
  have hfresh : Fresh (Log.empty.watch s i) := by
    refine ⟨⟨?_, ?_, ?_⟩, ?_, ?_⟩ <;>
      simp [Log.watch, Log.empty, Traffic.watch, Traffic.empty, Traffic.acks, Traffic.timesOut, hr,
        Ledger.empty, sent, hout]
  refine ⟨⟨?_, ?_, ?_, fun _ => hfresh.waiting⟩, ?_, ⟨?_, ?_⟩, ⟨?_, ?_, hfresh.phase _⟩⟩
  · simp [step, hi.reset, hi.clrConfI, hi.setConfI, hset]
  · simp [step, hi.reset, hi.clrConfI, hi.setConfI]
  · intro hen
    simp [step, snxt, hen]
  · have hledger : (Log.empty.watch s i).ledger = Ledger.empty := by simp [Log.watch, hr]
    rw [hledger]
    exact replayInv_of_reset _ _ hr
  · simp [Log.watch, Log.empty, Traffic.watch, Traffic.empty, hr, Ledger.empty, accepted, hready,
      heldBytes, step, PacketFifo.step, fifoInputs, fifoParams]
  · simp [step, PacketFifo.step, fifoInputs, fifoParams, hr]
  · simp [Log.watch, Log.empty, Traffic.watch, Traffic.empty, Traffic.acks, hr, Ledger.empty,
      dataBytes]
  · simp [hfresh.attempt]

end Step

/-! ## Runs -/

/-- In a sound run the FIFO is reset first; from then on the invariant holds. -/
theorem delivering_logged {s₀ : State ABITS p} {i₀ : Inputs} {is : List Inputs}
    (h : SoundRun s₀ i₀ is) : is = [] ∨ Delivering (logged s₀ i₀ is).1 (logged s₀ i₀ is).2 := by
  obtain ⟨hset, hr, -⟩ := h.configures.runStart s₀
  let Inv (q : State ABITS p × Log) : Prop := Delivering q.1 q.2
  refine logged_invariant Inv ?_ ?_ h.along
  · rintro i ⟨hi, hok⟩
    exact delivering_of_reset hset hr hi (hok.quiet hr)
  · rintro ⟨s, m⟩ i hinv ⟨hi, hok⟩
    exact hinv.next hi (hok.lossless hinv.ready.rstQ)

/-- The bytes of the acknowledged packets are the first that were accepted, and a packet that
is sent again has the bytes of the attempt that timed out. -/
structure Delivers (t : Traffic) : Prop where
  order : dataBytes t.acked <+: t.accepted.map Prod.snd
  retry : ∀ a ∈ t.attempt, t.packet <+: a ∧ (t.waiting = true → t.packet = a)

theorem Delivering.delivers (h : Delivering s m) : Delivers m.traffic := by
  refine ⟨?_, fun a ha => ?_⟩
  · rw [h.transmitted.acked, ← h.received.bytes]
    exact ((List.take_prefix _ _).map _).trans (List.prefix_append _ _)
  · obtain ⟨e, -, hend, rfl⟩ := h.transmitted.attempt a ha
    have hphase := h.transmitted.phase
    have hfresh : ¬ Fresh m := by
      intro hfresh
      simp [hfresh.attempt] at ha
    cases hs : s.send <;> rw [hs] at hphase
    · exact absurd hphase hfresh
    · refine ⟨?_, by simp [hphase.waiting]⟩
      rw [hphase.packet]
      exact beats_isPrefix (hphase.unfinished.le_end hend)
    · rcases hphase with hdata | hzero | hphase
      · have heq : m.traffic.packet = beats m.ledger.words m.ledger.start e := by
          rw [hdata.packet, hdata.endsAt.unique hend]
        rw [heq]
        exact ⟨List.prefix_rfl, fun _ => rfl⟩
      · simp [hzero.attempt] at ha
      · exact absurd hphase hfresh
    · exact absurd hphase hfresh
    · refine ⟨?_, by simp [hphase.waiting]⟩
      rw [hphase.packet]
      exact List.nil_prefix

/-- In every run from a configuration event whose edges are all sound, the host gets the
bytes of the source in order. -/
theorem delivers_of_sound (s₀ : State ABITS p) (i₀ : Inputs) (is : List Inputs)
    (h : SoundRun s₀ i₀ is) : Delivers (logged s₀ i₀ is).2.traffic := by
  rcases delivering_logged h with rfl | hinv
  · exact ⟨by simp [logged, runStart, Log.empty, Traffic.empty, dataBytes],
      by simp [logged, runStart, Log.empty, Traffic.empty]⟩
  · exact hinv.delivers

/-- The parameters of the end-points in `usb_ulpi_top.v`. -/
def usbParams : Params := ⟨512, true⟩

/-- A cycle without configuration events in which the source offers nothing. -/
def poll (selected ack timedout ready : Bool) : Inputs where
  reset := false
  setConfI := false
  clrConfI := false
  selectedI := selected
  ackRecvI := ack
  timedoutI := timedout
  sTvalid := false
  sTlast := false
  sTdata := 0
  mTready := ready

/-- A cycle in which the source offers a word. -/
def offer (last : Bool) (data : BitVec 8) : Inputs :=
  { poll false false false false with sTvalid := true, sTlast := last, sTdata := data }

def idle : Inputs := poll false false false false

def setConf : Inputs := { idle with setConfI := true }

/-- The hypothesis is met by a run in which a packet of three bytes is sent twice. -/
theorem delivers_of_sound_retry :
    let is := [idle, idle, offer false 1, offer false 2, offer true 3, idle, idle, idle,
      poll true false false false, poll false false false true, poll false false false true,
      poll false false false true, poll true false true false, idle, idle,
      poll true false false false, poll false false false true, poll false false false true,
      poll false false false true, poll true true false false]
    Delivers (logged (default : State 11 usbParams) setConf is).2.traffic :=
  delivers_of_sound default setConf _ (by decide +kernel)

/-- The source holds a word on offer until it is accepted. -/
def StableSource : State ABITS p → List Inputs → Prop
  | s, i :: j :: is =>
      (i.sTvalid = true → sTready s = false →
        j.sTvalid = true ∧ j.sTlast = i.sTlast ∧ j.sTdata = i.sTdata) ∧
      StableSource (step s i) (j :: is)
  | _, _ => True

/-- The host answers, or is late to answer, only a packet that was sent. -/
def Answered (m : Log) (i : Inputs) : Prop :=
  (i.ackRecvI || i.timedoutI) = true → i.selectedI = true ∧ m.traffic.waiting = true

instance decidableStableSource : ∀ (s : State ABITS p) (is : List Inputs),
    Decidable (StableSource s is)
  | _, [] => isTrue trivial
  | _, [_] => isTrue trivial
  | s, i :: j :: is =>
      haveI := decidableStableSource (step s i) (j :: is)
      inferInstanceAs (Decidable ((i.sTvalid = true → sTready s = false →
        j.sTvalid = true ∧ j.sTlast = i.sTlast ∧ j.sTdata = i.sTdata) ∧
        StableSource (step s i) (j :: is)))

instance (m : Log) (i : Inputs) : Decidable (Answered m i) :=
  inferInstanceAs (Decidable (_ → _))

/-- No run of an enabled end-point loses, duplicates or invents a byte. -/
def AlwaysDelivers : Prop :=
  ∀ (ABITS : ℕ) (p : Params) (s₀ : State ABITS p) (i₀ : Inputs) (is : List Inputs),
    p.enabled = true → Configures i₀ → (∀ i ∈ is, Polled i) → StableSource (step s₀ i₀) is →
    Along (watched step Log.watch) (fun q i => Answered q.2 i) (runStart s₀ i₀) is →
    Delivers (logged s₀ i₀ is).2.traffic

/-- Of three packets of one byte the second is lost: when the first is acknowledged the
second has left the memory array already, so its time-out replays from behind it. -/
theorem not_alwaysDelivers : ¬ AlwaysDelivers := by
  intro h
  have hrun := h 11 usbParams default setConf
    [idle, idle, offer true 1, offer true 2, idle, idle, idle, poll true false false false,
      poll false false false true, idle, poll true true false false, poll true false false false,
      poll false false false true, poll true false true false, offer true 3, idle, idle, idle,
      poll true false false false, poll false false false true, poll true true false false]
    (by decide) (by decide) (by decide) (by decide +kernel) (by decide +kernel)
  exact absurd hrun.order (by decide +kernel)

end MiscVerilogCores.BulkIn
