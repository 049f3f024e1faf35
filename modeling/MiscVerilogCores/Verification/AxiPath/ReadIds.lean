import MiscVerilogCores.Library.Clocked
import MiscVerilogCores.Library.Packets
import MiscVerilogCores.Model.AxiRdPath
import MiscVerilogCores.Verification.AxiPath.CommandQueue

/-! # Read data and its IDs

Bursts come back in the order of their requests. The response-ID FIFO takes the ID that is on
the request port when the memory accepts a command: it pairs IDs with bursts as long as each
command is a whole burst, with its own ID still on the port and room for it in the FIFO. -/

namespace MiscVerilogCores.AxiRdPath

open Clocked SyncFifo Packets

variable {ADDRS WIDTH AXI_ID MEM_ID CBITS : ℕ}

/-! ## What a run has seen -/

/-- The IDs and the chunks of the bursts requested, the commands the memory has accepted and the
beats it has returned; the IDs that went into the response-ID FIFO and out of it; and the beats
the master has taken, each with its ID. -/
structure Log (ADDRS WIDTH AXI_ID MEM_ID : ℕ) where
  arids : List (BitVec AXI_ID)
  chunks : List (AxiChunks.Chunk ADDRS MEM_ID)
  commands : List (AxiChunks.Chunk ADDRS MEM_ID)
  returned : List (Beat WIDTH)
  recorded : List (BitVec AXI_ID)
  consumed : List (BitVec AXI_ID)
  rbeats : List (BitVec AXI_ID × Beat WIDTH)

def Log.start : Log ADDRS WIDTH AXI_ID MEM_ID :=
  ⟨[], [], [], [], [], [], []⟩

def Log.watch (m : Log ADDRS WIDTH AXI_ID MEM_ID) (s : State ADDRS WIDTH AXI_ID MEM_ID CBITS)
    (i : Inputs ADDRS WIDTH AXI_ID) : Log ADDRS WIDTH AXI_ID MEM_ID where
  arids := m.arids ++ if requests s i then [i.axiAridI] else []
  chunks := m.chunks ++ AxiChunks.accepted (chunkInputs s i)
  commands := m.commands ++ if rdAccept s i then [memCommand s i] else []
  returned := m.returned ++ if stores i then [memBeat i] else []
  recorded := m.recorded ++ accepted s.respIds (respInputs s i)
  consumed := m.consumed ++ delivered 0 s.respIds (respInputs s i)
  rbeats := m.rbeats ++
    if delivers s i then s.beats.head?.toList.map fun b => (axiRidO s i, b) else []

/-! ## The memory -/

/-- What the memory answers: `reply n c` to the `n`-th command `c`. -/
abbrev Reply (ADDRS WIDTH MEM_ID : ℕ) : Type :=
  ℕ → AxiChunks.Chunk ADDRS MEM_ID → List (Beat WIDTH)

/-- The answers to a list of commands. -/
def Reply.answers (reply : Reply ADDRS WIDTH MEM_ID) (cs : List (AxiChunks.Chunk ADDRS MEM_ID)) :
    List (List (Beat WIDTH)) :=
  cs.zipIdx.map fun c => reply c.2 c.1

/-- The last chunk of a burst is answered with beats of which the last, and no other, is marked. -/
def Reply.Marked (reply : Reply ADDRS WIDTH MEM_ID) : Prop :=
  ∀ n c, c.seq = false → Ends Beat.last (reply n c)

/-- A cycle out of reset in which the memory returns nothing but answers, in order. -/
structure Allowed (reply : Reply ADDRS WIDTH MEM_ID) (m : Log ADDRS WIDTH AXI_ID MEM_ID)
    (i : Inputs ADDRS WIDTH AXI_ID) : Prop where
  reset : i.reset = false
  answer : (m.returned ++ if stores i then [memBeat i] else []) <+:
    (reply.answers m.commands).flatten

/-- When the memory accepts a command it is a whole burst, whose ID is on the request port, and
the response-ID FIFO has room. -/
structure IdOnPort (m : Log ADDRS WIDTH AXI_ID MEM_ID) (s : State ADDRS WIDTH AXI_ID MEM_ID CBITS)
    (i : Inputs ADDRS WIDTH AXI_ID) : Prop where
  whole : rdAccept s i = true → (memCommand s i).seq = false
  own : rdAccept s i = true → m.arids[m.commands.length]? = some i.axiAridI
  room : rdAccept s i = true → readyO s.respIds = true

/-- The bursts whose last command the memory has accepted. -/
def Log.bursts (m : Log ADDRS WIDTH AXI_ID MEM_ID) : ℕ :=
  m.commands.countP fun c => !c.seq

/-- The bursts whose last beat the master has taken. -/
def Log.finished (m : Log ADDRS WIDTH AXI_ID MEM_ID) : ℕ :=
  m.rbeats.countP fun b => b.2.last

/-- Bursts come back in the order of their requests, each beat of a burst under the ID of its
request, for which one entry is recorded and one is consumed. -/
structure ReadsInOrder (reply : Reply ADDRS WIDTH MEM_ID) (m : Log ADDRS WIDTH AXI_ID MEM_ID) :
    Prop where
  order : m.rbeats.map Prod.snd <+: (reply.answers m.chunks).flatten
  ids : ∀ front b rest, m.rbeats = front ++ b :: rest →
    m.arids[front.countP fun b => b.2.last]? = some b.1
  recorded : m.recorded = m.arids.take m.bursts
  consumed : m.consumed = m.arids.take m.finished

/-! ## Invariant -/

/-- The chunks on their way to the memory, and the beats on their way back. -/
structure PathInv (reply : Reply ADDRS WIDTH MEM_ID) (s : State ADDRS WIDTH AXI_ID MEM_ID CBITS)
    (m : Log ADDRS WIDTH AXI_ID MEM_ID) : Prop where
  cmds : SyncFifo.Inv 0 s.cmds
  count : s.chunks.busyQ = false → s.chunks.count = 0
  chunks : m.chunks = m.commands ++ AxiChunks.queued s.chunks s.cmds
  beats : m.returned = m.rbeats.map Prod.snd ++ s.beats
  returned : m.returned <+: (reply.answers m.commands).flatten

/-- The IDs on their way from the request port to the data port. -/
structure IdInv (s : State ADDRS WIDTH AXI_ID MEM_ID CBITS) (m : Log ADDRS WIDTH AXI_ID MEM_ID) :
    Prop where
  fifo : SyncFifo.Inv 0 s.respIds
  whole : ∀ c ∈ m.commands, c.seq = false
  length : m.commands.length ≤ m.arids.length
  recorded : m.recorded = m.arids.take m.commands.length
  held : m.recorded = m.consumed ++ sramWords s.respIds
  consumed : m.consumed.length = m.finished
  ids : ∀ front b rest, m.rbeats = front ++ b :: rest →
    m.arids[front.countP fun b => b.2.last]? = some b.1

section Step

variable {reply : Reply ADDRS WIDTH MEM_ID} {s : State ADDRS WIDTH AXI_ID MEM_ID CBITS}
  {m : Log ADDRS WIDTH AXI_ID MEM_ID} {i : Inputs ADDRS WIDTH AXI_ID}

theorem answers_mono (reply : Reply ADDRS WIDTH MEM_ID)
    {cs cs' : List (AxiChunks.Chunk ADDRS MEM_ID)} (h : cs <+: cs') :
    (reply.answers cs).flatten <+: (reply.answers cs').flatten := by
  obtain ⟨t, rfl⟩ := h
  rw [Reply.answers, Reply.answers, List.zipIdx_append, List.map_append, List.flatten_append]
  exact List.prefix_append _ _

theorem free (h : s.chunks.busyQ = false → s.chunks.count = 0) (i : Inputs ADDRS WIDTH AXI_ID) :
    AxiChunks.Free s.chunks (chunkInputs s i) := by
  refine ⟨h, fun hreq => ?_⟩
  have hready : cmdReady s i = true := (Bool.and_eq_true_iff.mp hreq).2
  obtain ⟨hbusy, hx⟩ := Bool.and_eq_true_iff.mp hready
  exact ⟨by simpa using hbusy, hx⟩

theorem beats_of_delivers (h : delivers s i = true) : ∃ b bs, s.beats = b :: bs := by
  cases hb : s.beats with
  | nil => simp [delivers, axiRvalidO, hb] at h
  | cons b bs => exact ⟨b, bs, rfl⟩

theorem PathInv.next (h : PathInv reply s m) (ha : Allowed reply m i) :
    PathInv reply (step s i) (m.watch s i) := by
  have hconn : AxiChunks.Connected s.chunks (chunkInputs s i) s.cmds (cmdFifoInputs s i) :=
    ⟨rfl, rfl, rfl, ha.reset, ha.reset⟩
  have hqueued := hconn.queued_step (free h.count i) h.cmds
  refine ⟨(h.cmds.plain_step ha.reset).1, AxiChunks.count_step h.count _, ?_, ?_, ?_⟩
  · simp only [Log.watch]
    rw [h.chunks, List.append_assoc, hqueued, ← List.append_assoc]
    rfl
  · simp only [Log.watch, step, ha.reset]
    rw [h.beats]
    cases hd : delivers s i
    · simp
    · obtain ⟨b, bs, hb⟩ := beats_of_delivers hd
      simp [hb]
  · exact ha.answer.trans (answers_mono reply (List.prefix_append _ _))

/-- While a beat is held the burst it belongs to has an entry in the response-ID FIFO, the
oldest, with the ID of its request. -/
theorem IdInv.due (h : IdInv s m) (hp : PathInv reply s m) (hm : reply.Marked) {b : Beat WIDTH}
    {bs : List (Beat WIDTH)} (hb : s.beats = b :: bs) (i : Inputs ADDRS WIDTH AXI_ID) :
    validO 0 s.respIds (respInputs s i) = true ∧
      m.arids[m.finished]? = some (axiRidO s i) := by
  have hlt : m.finished < m.commands.length := by
    obtain ⟨t, ht⟩ := hp.returned
    have hends : ∀ seg ∈ reply.answers m.commands, Ends Beat.last seg := by
      intro seg hseg
      obtain ⟨c, hc, rfl⟩ := List.mem_map.mp hseg
      exact hm _ _ (h.whole _ (List.fst_mem_of_mem_zipIdx hc))
    have hbeats : (reply.answers m.commands).flatten =
        m.rbeats.map Prod.snd ++ b :: (bs ++ t) := by
      rw [← ht, hp.beats, hb]
      simp
    have hcount := countP_lt_of_append hends hbeats
    rwa [Reply.answers, List.length_map, List.length_zipIdx, List.countP_map] at hcount
  have hwords : sramWords s.respIds = m.recorded.drop m.finished := by
    rw [h.held, ← h.consumed, List.drop_left]
  have hlen := h.length
  have hrec : m.recorded.length = m.commands.length := by
    rw [h.recorded, List.length_take]
    omega
  have hvalid : validO 0 s.respIds (respInputs s i) = true := by
    rw [h.fifo.validO_iff, hwords, Ne, List.drop_eq_nil_iff]
    omega
  refine ⟨hvalid, ?_⟩
  have hcons := h.fifo.words_eq_cons hvalid
  have hhead : (sramWords s.respIds)[0]? = some (axiRidO s i) := by
    rw [hcons]
    rfl
  rw [hwords, List.getElem?_drop, Nat.add_zero, h.recorded, List.getElem?_take_of_lt hlt] at hhead
  exact hhead

theorem IdInv.next (h : IdInv s m) (hp : PathInv reply s m) (hm : reply.Marked)
    (ha : Allowed reply m i) (hport : IdOnPort m s i) : IdInv (step s i) (m.watch s i) := by
  obtain ⟨hfifo, hmoved⟩ := h.fifo.plain_conserves (i := respInputs s i) ha.reset
  have hlen := h.length
  have hacc : accepted s.respIds (respInputs s i) = if rdAccept s i then [i.axiAridI] else [] := by
    cases hr : rdAccept s i
    · simp [accepted, respInputs, hr]
    · simp [accepted, respInputs, hr, hport.room hr]
  refine ⟨hfifo, ?_, ?_, ?_, ?_, ?_, ?_⟩
  · intro c hc
    rcases List.mem_append.mp hc with hold | hnew
    · exact h.whole c hold
    · cases hr : rdAccept s i
      · simp [hr] at hnew
      · have hc : c = memCommand s i := by simpa [hr] using hnew
        exact hc ▸ hport.whole hr
  · simp only [Log.watch, List.length_append]
    cases hr : rdAccept s i
    · simp only [Bool.false_eq_true, if_false, List.length_nil]
      omega
    · obtain ⟨hlt, -⟩ := List.getElem?_eq_some_iff.mp (hport.own hr)
      simp only [if_true, List.length_singleton]
      omega
  · simp only [Log.watch]
    rw [hacc, h.recorded]
    cases hr : rdAccept s i
    · simp [List.take_append_of_le_length hlen]
    · obtain ⟨hlt, -⟩ := List.getElem?_eq_some_iff.mp (hport.own hr)
      simp only [if_true, List.length_append, List.length_singleton]
      rw [List.take_append_of_le_length (by omega), List.take_add_one, hport.own hr]
      rfl
  · simp only [Log.watch]
    rw [h.held, List.append_assoc, hmoved, List.append_assoc]
    rfl
  · simp only [Log.finished, Log.watch, List.length_append, List.countP_append]
    rw [h.consumed, Log.finished]
    congr 1
    by_cases hd : delivers s i = true
    · obtain ⟨b, bs, hb⟩ := beats_of_delivers hd
      have hvalid := (h.due hp hm hb i).1
      have hfin : rdFinish s i = b.last := by
        change (delivers s i && axiRlastO s) = b.last
        simp [hd, axiRlastO, hb]
      have hready : (respInputs s i).readyI = b.last := hfin
      rw [delivered, hvalid, hready, if_pos hd, hb]
      cases hl : b.last <;> simp [hl]
    · have hready : (respInputs s i).readyI = false := by
        have hno : delivers s i = false := by simpa using hd
        change (delivers s i && axiRlastO s) = false
        rw [hno, Bool.false_and]
      simp [delivered, hready, hd]
  · intro front x rest hsplit
    have hmono : ∀ (n : ℕ) (id : BitVec AXI_ID), m.arids[n]? = some id →
        (m.watch s i).arids[n]? = some id := by
      intro n id hid
      obtain ⟨hlt, -⟩ := List.getElem?_eq_some_iff.mp hid
      simpa only [Log.watch, List.getElem?_append_left hlt] using hid
    by_cases hd : delivers s i = true
    · obtain ⟨b, bs, hb⟩ := beats_of_delivers hd
      have hlog : (m.watch s i).rbeats = m.rbeats ++ [(axiRidO s i, b)] := by
        simp [Log.watch, hd, hb]
      rw [hlog] at hsplit
      -- the beat is the new one, or an earlier one
      rcases List.eq_nil_or_concat rest with rfl | ⟨rest', y, rfl⟩
      · obtain ⟨rfl, hx⟩ := List.append_inj' hsplit rfl
        obtain rfl : (axiRidO s i, b) = x := by simpa using hx
        exact hmono _ _ (h.due hp hm hb i).2
      · have hsplit' : m.rbeats ++ [(axiRidO s i, b)] = (front ++ x :: rest') ++ [y] := by
          rw [hsplit]
          simp
        exact hmono _ _ (h.ids front x rest' (List.append_inj' hsplit' rfl).1)
    · have hlog : (m.watch s i).rbeats = m.rbeats := by simp [Log.watch, hd]
      rw [hlog] at hsplit
      exact hmono _ _ (h.ids front x rest hsplit)

theorem IdInv.recorded_eq (h : IdInv s m) : m.recorded = m.arids.take m.bursts := by
  have hall : m.bursts = m.commands.length := by
    rw [Log.bursts, List.countP_eq_length]
    simpa using h.whole
  rw [hall, h.recorded]

theorem IdInv.consumed_eq (h : IdInv s m) :
    m.consumed = m.arids.take m.finished := by
  have hpre : m.consumed <+: m.recorded := ⟨_, h.held.symm⟩
  have hlen := hpre.length_le
  rw [h.recorded, List.length_take] at hlen
  rw [List.prefix_iff_eq_take.mp hpre, h.recorded, List.take_take, h.consumed]
  rw [h.consumed] at hlen
  congr 1
  omega

end Step

/-! ## Runs -/

/-- The state and the log after a run from reset. -/
def logged (s : State ADDRS WIDTH AXI_ID MEM_ID CBITS) (i : Inputs ADDRS WIDTH AXI_ID)
    (is : List (Inputs ADDRS WIDTH AXI_ID)) :
    State ADDRS WIDTH AXI_ID MEM_ID CBITS × Log ADDRS WIDTH AXI_ID MEM_ID :=
  run (watched step Log.watch) (afterReset s i, Log.start) is

/-- Every cycle of a run from reset is allowed. -/
def AllowedRun (reply : Reply ADDRS WIDTH MEM_ID) (s : State ADDRS WIDTH AXI_ID MEM_ID CBITS)
    (i : Inputs ADDRS WIDTH AXI_ID) (is : List (Inputs ADDRS WIDTH AXI_ID)) : Prop :=
  Along (watched step Log.watch) (fun p i => Allowed reply p.2 i) (afterReset s i, Log.start) is

/-- Whenever the memory accepts a command in a run from reset, its ID is on the port. -/
def IdOnPortRun (s : State ADDRS WIDTH AXI_ID MEM_ID CBITS) (i : Inputs ADDRS WIDTH AXI_ID)
    (is : List (Inputs ADDRS WIDTH AXI_ID)) : Prop :=
  Along (watched step Log.watch) (fun p i => IdOnPort p.2 p.1 i) (afterReset s i, Log.start) is

section Runs

variable (reply : Reply ADDRS WIDTH MEM_ID) (s : State ADDRS WIDTH AXI_ID MEM_ID CBITS)
  (i : Inputs ADDRS WIDTH AXI_ID)

theorem pathInv_afterReset : PathInv reply (afterReset s i) Log.start := by
  obtain ⟨hcmds, hwords⟩ := plain_of_reset s.cmds
    (i := cmdFifoInputs s { i with reset := true }) rfl
  have hwords' : sramWords (afterReset s i).cmds = [] := hwords
  have hbusy : (afterReset s i).chunks.busyQ = false := rfl
  refine ⟨hcmds, fun _ => rfl, ?_, rfl, List.prefix_rfl⟩
  simp [Log.start, AxiChunks.queued, hwords', AxiChunks.remaining, hbusy]

theorem idInv_afterReset :
    IdInv (afterReset s i) (Log.start : Log ADDRS WIDTH AXI_ID MEM_ID) := by
  obtain ⟨hfifo, hwords⟩ := plain_of_reset s.respIds
    (i := respInputs s { i with reset := true }) rfl
  have hwords' : sramWords (afterReset s i).respIds = [] := hwords
  refine ⟨hfifo, by simp [Log.start], le_rfl, rfl, ?_, rfl, ?_⟩
  · simp [Log.start, hwords']
  · simp [Log.start]

/-- Bursts come back in order and under their own IDs when each command that the memory accepts
is a whole burst, whose ID is on the port. -/
theorem readsInOrder_of_idOnPort (hm : reply.Marked) (is : List (Inputs ADDRS WIDTH AXI_ID))
    (ha : AllowedRun reply s i is) (hport : IdOnPortRun s i is) :
    ReadsInOrder reply (logged s i is).2 := by
  let P (p : State ADDRS WIDTH AXI_ID MEM_ID CBITS × Log ADDRS WIDTH AXI_ID MEM_ID) : Prop :=
    PathInv reply p.1 p.2 ∧ IdInv p.1 p.2
  have hrun : P (logged s i is) := by
    refine run_invariant P ?_ ⟨pathInv_afterReset reply s i, idInv_afterReset s i⟩ (ha.and hport)
    rintro p i ⟨hpath, hid⟩ ⟨ha, hport⟩
    exact ⟨hpath.next ha, hid.next hpath hm ha hport⟩
  obtain ⟨hpath, hid⟩ := hrun
  refine ⟨?_, hid.ids, hid.recorded_eq, hid.consumed_eq⟩
  have hreturned : (logged s i is).2.rbeats.map Prod.snd <+: (logged s i is).2.returned := by
    rw [hpath.beats]
    exact List.prefix_append _ _
  have hcommands : (logged s i is).2.commands <+: (logged s i is).2.chunks := by
    rw [hpath.chunks]
    exact List.prefix_append _ _
  exact hreturned.trans (hpath.returned.trans (answers_mono reply hcommands))

end Runs

/-- Each command is answered with four beats. -/
def fourBeats : Reply 32 32 4 := fun n c =>
  [⟨BitVec.ofNat 32 n, false⟩, ⟨BitVec.ofNat 32 n, false⟩, ⟨BitVec.ofNat 32 n, false⟩,
    ⟨BitVec.ofNat 32 n, !c.seq⟩]

theorem fourBeats_marked : fourBeats.Marked := by
  intro n c hc
  refine ⟨List.replicate 3 ⟨BitVec.ofNat 32 n, false⟩, ⟨BitVec.ofNat 32 n, true⟩, ?_, rfl, ?_⟩
  · simp [fourBeats, hc]
  · simp

/-- A cycle with `id` on the request port. -/
def portCycle (id : BitVec 4) (request accept : Bool) : Inputs 32 32 4 where
  reset := false
  axiArvalidI := request
  axiAraddrI := 0
  axiAridI := id
  axiArlenI := 3
  axiRreadyI := false
  wrAccept := false
  memRdackI := accept
  memValidI := false
  memRlastI := false
  memRdataI := 0
  rdfReady := true
  rdfOffers := false

/-- The memory returns the answer to the `n`-th command, and the master takes it. -/
def answerCycles (n : ℕ) : List (Inputs 32 32 4) :=
  (fourBeats n ⟨0, 0, false⟩).map (fun b =>
      { portCycle 0 false false with memValidI := true, memRdataI := b.data, memRlastI := b.last }) ++
    List.replicate 4 { portCycle 0 false false with axiRreadyI := true, rdfOffers := true }

/-- The memory accepts each burst while its ID is on the port. -/
def patientPair : List (Inputs 32 32 4) :=
  [portCycle 0 false false, portCycle 1 true false, portCycle 1 false true] ++ answerCycles 0 ++
    [portCycle 2 true false, portCycle 2 false true] ++ answerCycles 1

/-- The memory accepts the first burst while the second is requested. -/
def hastyPair : List (Inputs 32 32 4) :=
  [portCycle 0 false false, portCycle 1 true false, portCycle 2 true true, portCycle 2 false true] ++
    answerCycles 0 ++ answerCycles 1

instance (reply : Reply ADDRS WIDTH MEM_ID) (m : Log ADDRS WIDTH AXI_ID MEM_ID)
    (i : Inputs ADDRS WIDTH AXI_ID) : Decidable (Allowed reply m i) :=
  decidable_of_iff
    (i.reset = false ∧ (m.returned ++ if stores i then [memBeat i] else []) <+:
      (reply.answers m.commands).flatten)
    ⟨fun ⟨h₁, h₂⟩ => ⟨h₁, h₂⟩, fun ⟨h₁, h₂⟩ => ⟨h₁, h₂⟩⟩

instance (m : Log ADDRS WIDTH AXI_ID MEM_ID) (s : State ADDRS WIDTH AXI_ID MEM_ID CBITS)
    (i : Inputs ADDRS WIDTH AXI_ID) : Decidable (IdOnPort m s i) :=
  decidable_of_iff
    ((rdAccept s i = true → (memCommand s i).seq = false) ∧
      (rdAccept s i = true → m.arids[m.commands.length]? = some i.axiAridI) ∧
      (rdAccept s i = true → readyO s.respIds = true))
    ⟨fun ⟨h₁, h₂, h₃⟩ => ⟨h₁, h₂, h₃⟩, fun ⟨h₁, h₂, h₃⟩ => ⟨h₁, h₂, h₃⟩⟩

instance (reply : Reply ADDRS WIDTH MEM_ID) (s : State ADDRS WIDTH AXI_ID MEM_ID CBITS)
    (i : Inputs ADDRS WIDTH AXI_ID) (is : List (Inputs ADDRS WIDTH AXI_ID)) :
    Decidable (AllowedRun reply s i is) :=
  inferInstanceAs (Decidable (Along _ _ _ _))

instance (s : State ADDRS WIDTH AXI_ID MEM_ID CBITS) (i : Inputs ADDRS WIDTH AXI_ID)
    (is : List (Inputs ADDRS WIDTH AXI_ID)) : Decidable (IdOnPortRun s i is) :=
  inferInstanceAs (Decidable (Along _ _ _ _))

/-- The hypotheses are met by two bursts with different IDs. -/
theorem readsInOrder_of_idOnPort_pair :
    ReadsInOrder fourBeats
      (logged (default : State 32 32 4 4 4) (portCycle 0 false false) patientPair).2 :=
  readsInOrder_of_idOnPort fourBeats default (portCycle 0 false false) fourBeats_marked patientPair
    (by decide +kernel) (by decide +kernel)

/-- The first burst comes back under the ID of the second. -/
theorem not_alwaysReadsInOrder :
    ¬ ∀ (ADDRS WIDTH AXI_ID MEM_ID CBITS : ℕ) (reply : Reply ADDRS WIDTH MEM_ID)
      (s : State ADDRS WIDTH AXI_ID MEM_ID CBITS) (i : Inputs ADDRS WIDTH AXI_ID)
      (is : List (Inputs ADDRS WIDTH AXI_ID)),
      reply.Marked → AllowedRun reply s i is → ReadsInOrder reply (logged s i is).2 := by
  intro h
  have hconsumed := (h 32 32 4 4 4 fourBeats default (portCycle 0 false false) hastyPair
    fourBeats_marked (by decide +kernel)).consumed
  revert hconsumed
  decide +kernel

end MiscVerilogCores.AxiRdPath
