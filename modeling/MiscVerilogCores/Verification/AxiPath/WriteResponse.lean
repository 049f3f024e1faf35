import MiscVerilogCores.Verification.AxiPath.CommandQueue
import MiscVerilogCores.Verification.AxiPath.WriteData

/-! # Write responses

The IDs of the bursts leave the command FIFO in the order in which the bursts were accepted.
The response register holds one answer, and the ID of the last burst whose commands the memory
took: answers come out right as long as the memory does not run ahead of them. -/

namespace MiscVerilogCores.AxiWrPath

open Clocked SyncFifo

variable {ADDRS WIDTH REQID CBITS : ℕ}

/-! ## Commands -/

/-- The IDs of the bursts accepted, but not taken whole by the memory. -/
def waiting (s : State ADDRS WIDTH REQID CBITS) : List (BitVec REQID) :=
  (AxiChunks.queued s.chunks s.cmds).filterMap AxiChunks.lastId

/-- The memory takes the last command of a burst. -/
def takesLast (s : State ADDRS WIDTH REQID CBITS) (i : Inputs ADDRS WIDTH REQID) : Bool :=
  i.memAcceptI && !memWseqO s i

/-- The master takes an answer. -/
def answers (s : State ADDRS WIDTH REQID CBITS) (i : Inputs ADDRS WIDTH REQID) : Bool :=
  s.bvalid && i.axiBreadyI

/-- The command path: a request is accepted only when its first chunk goes straight to the
command FIFO. -/
structure CmdInv (s : State ADDRS WIDTH REQID CBITS) : Prop where
  fifo : SyncFifo.Inv 0 s.cmds
  count : s.chunks.busyQ = false → s.chunks.count = 0
  aready : s.aready = true → s.state = .idle ∧ xready s = true
  idle : s.state = .idle → s.chunks.busyQ = false ∧ (sramWords s.cmds).length < 2 ^ CBITS

section Commands

variable {s : State ADDRS WIDTH REQID CBITS} {i : Inputs ADDRS WIDTH REQID}

theorem CmdInv.free (h : CmdInv s) (i : Inputs ADDRS WIDTH REQID) :
    AxiChunks.Free s.chunks (chunkInputs s i) := by
  refine ⟨h.count, fun hc => ?_⟩
  have haready : s.aready = true := (Bool.and_eq_true_iff.mp hc).2
  obtain ⟨hstate, hx⟩ := h.aready haready
  exact ⟨(h.idle hstate).1, hx⟩

theorem connected (s : State ADDRS WIDTH REQID CBITS) (hr : i.reset = false) :
    AxiChunks.Connected s.chunks (chunkInputs s i) s.cmds (cmdFifoInputs s i) :=
  ⟨rfl, rfl, rfl, hr, hr⟩

/-- The ID that leaves the command FIFO with a last command. -/
def taken (s : State ADDRS WIDTH REQID CBITS) (i : Inputs ADDRS WIDTH REQID) :
    List (BitVec REQID) :=
  if takesLast s i then [memWridO s i] else []

/-- The ID of a burst, in the cycle in which its request is accepted. -/
def requested (s : State ADDRS WIDTH REQID CBITS) (i : Inputs ADDRS WIDTH REQID) :
    List (BitVec REQID) :=
  if cmdValid s i then [i.axiAwidI] else []

/-- The IDs of the bursts go through the command path in order. -/
theorem CmdInv.waiting_step (h : CmdInv s) (hr : i.reset = false)
    (hstore : i.memAcceptI = true → memStoreO s i = true) :
    waiting s ++ requested s i = taken s i ++ waiting (step s i) := by
  have hnew : (AxiChunks.accepted (chunkInputs s i)).filterMap AxiChunks.lastId = requested s i := by
    rw [AxiChunks.accepted, requested, apply_ite (List.filterMap _), AxiChunks.filterMap_burst]
    rfl
  have hold : (AxiChunks.fetched s.cmds (cmdFifoInputs s i)).filterMap AxiChunks.lastId =
      taken s i := by
    have hfetch : (SyncFifo.validO 0 s.cmds (cmdFifoInputs s i) && (cmdFifoInputs s i).readyI) =
        i.memAcceptI := by
      change (memStoreO s i && i.memAcceptI) = i.memAcceptI
      cases ha : i.memAcceptI
      · rw [Bool.and_false]
      · rw [hstore ha, Bool.and_true]
    have hid : AxiChunks.lastId (AxiChunks.offered s.cmds (cmdFifoInputs s i)) =
        if memWseqO s i then none else some (memWridO s i) := rfl
    rw [AxiChunks.fetched, hfetch]
    cases ha : i.memAcceptI <;> cases hq : memWseqO s i <;> simp [taken, takesLast, hid, ha, hq]
  have hqueued := congrArg (List.filterMap AxiChunks.lastId)
    ((connected s hr).queued_step (h.free i) h.fifo)
  rwa [List.filterMap_append, List.filterMap_append, hnew, hold] at hqueued

theorem capture_idle (hr : i.reset = false) (h : (capture s i).1 = .idle) :
    (s.state = .idle ∧ cmdValid s i = false) ∨ (s.state ≠ .idle ∧ cmdReady s i = true) := by
  rw [capture, hr, if_neg Bool.false_ne_true] at h
  cases hstate : s.state
  case idle =>
    cases hc : cmdValid s i
    · exact Or.inl ⟨rfl, rfl⟩
    · simp [hstate, hc] at h
  case fill =>
    cases hc : cmdReady s i
    · simp only [hstate, hc] at h
      split at h <;> simp at h
    · exact Or.inr ⟨by simp, rfl⟩
  case busy =>
    cases hc : cmdReady s i
    · simp [hstate, hc] at h
    · exact Or.inr ⟨by simp, rfl⟩

theorem capture_aready (h : (capture s i).2.1 = true) : (capture s i).1 = .idle := by
  unfold capture at h ⊢
  split at h
  · cases h
  · split at h
    · split at h
      · cases h
      · simp_all
    · split at h <;> cases h
    · split at h
      · simp_all
      · cases h

/-- The machine is idle after an edge only if no burst is cut and the command FIFO has room. -/
theorem CmdInv.calm (h : CmdInv s) (hr : i.reset = false) (hidle : (step s i).state = .idle) :
    cmdValid s i = false ∧ s.chunks.busyQ = false ∧ (sramWords s.cmds).length < 2 ^ CBITS := by
  rcases capture_idle hr hidle with ⟨hstate, hc⟩ | ⟨hstate, hready⟩
  · exact ⟨hc, h.idle hstate⟩
  · have ha : ¬ s.aready = true := fun ha => hstate (h.aready ha).1
    obtain ⟨hbusy, hx⟩ := Bool.and_eq_true_iff.mp hready
    exact ⟨by simp [cmdValid, ha], by simpa using hbusy, h.fifo.room hx⟩

theorem CmdInv.next (h : CmdInv s) (hr : i.reset = false) : CmdInv (step s i) := by
  obtain ⟨hfifo, hwords⟩ := h.fifo.plain_step (i := cmdFifoInputs s i) hr
  have hidle : (step s i).state = .idle →
      (step s i).chunks.busyQ = false ∧ (sramWords (step s i).cmds).length < 2 ^ CBITS := by
    intro hstate
    obtain ⟨hc, hbusy, hlen⟩ := h.calm hr hstate
    obtain ⟨hx, hbusy'⟩ := AxiChunks.idle_step (i := chunkInputs s i) hr hbusy hc
    refine ⟨hbusy', ?_⟩
    have hnone : accepted s.cmds (cmdFifoInputs s i) = [] := by
      simp [accepted, cmdFifoInputs, hx]
    change (sramWords (SyncFifo.step 0 s.cmds (cmdFifoInputs s i))).length < 2 ^ CBITS
    rw [hwords, hnone, List.append_nil]
    split
    · rw [List.length_tail]
      omega
    · exact hlen
  refine ⟨hfifo, AxiChunks.count_step h.count _, fun haready => ?_, hidle⟩
  have hstate : (step s i).state = .idle := capture_aready haready
  exact ⟨hstate, (h.fifo.readyO_step hr).mpr (hidle hstate).2⟩

theorem cmdInv_afterReset (s : State ADDRS WIDTH REQID CBITS) (i : Inputs ADDRS WIDTH REQID) :
    CmdInv (afterReset s i) ∧ waiting (afterReset s i) = [] := by
  obtain ⟨hfifo, hwords⟩ := plain_of_reset s.cmds
    (i := cmdFifoInputs s { i with reset := true }) rfl
  have hwords' : sramWords (afterReset s i).cmds = [] := hwords
  have hbusy : (afterReset s i).chunks.busyQ = false := rfl
  refine ⟨⟨hfifo, fun _ => rfl, ?_, fun _ => ⟨hbusy, ?_⟩⟩, ?_⟩
  · simp [afterReset, step, capture]
  · rw [hwords']
    exact Nat.two_pow_pos _
  · simp [waiting, AxiChunks.queued, hwords', AxiChunks.remaining, hbusy]

end Commands

/-! ## What a run has seen -/

/-- The IDs of the bursts accepted, of those the memory has taken whole commands of, and of the
answers the master has taken; and how many bursts the memory has taken the last data beat of. -/
structure Log (REQID : ℕ) where
  awids : List (BitVec REQID)
  taken : List (BitVec REQID)
  finished : ℕ
  bids : List (BitVec REQID)

def Log.start : Log REQID :=
  ⟨[], [], 0, []⟩

/-- The ID of an answer, in the cycle in which the master takes it. -/
def answered (s : State ADDRS WIDTH REQID CBITS) (i : Inputs ADDRS WIDTH REQID) :
    List (BitVec REQID) :=
  if answers s i then [s.bwrid] else []

def Log.watch (m : Log REQID) (s : State ADDRS WIDTH REQID CBITS)
    (i : Inputs ADDRS WIDTH REQID) : Log REQID where
  awids := m.awids ++ requested s i
  taken := m.taken ++ AxiWrPath.taken s i
  finished := m.finished + (finishes s i).toNat
  bids := m.bids ++ answered s i

/-- A cycle out of reset in which the memory takes only commands that are offered, and the last
data beat of a burst not before its last command. -/
structure Allowed (m : Log REQID) (s : State ADDRS WIDTH REQID CBITS)
    (i : Inputs ADDRS WIDTH REQID) : Prop where
  reset : i.reset = false
  store : i.memAcceptI = true → memStoreO s i = true
  data : finishes s i = true → m.finished < (m.taken ++ taken s i).length

/-- The memory does not run ahead of the answers: it takes the last beat of a burst only when no
answer is kept waiting, and the last command of a burst only when the bursts before it have been
answered or have the same ID. -/
structure Paced (m : Log REQID) (s : State ADDRS WIDTH REQID CBITS)
    (i : Inputs ADDRS WIDTH REQID) : Prop where
  beat : finishes s i = true → s.bvalid = true → i.axiBreadyI = true
  command : takesLast s i = true →
    (m.bids ++ answered s i).length = m.taken.length ∨ memWridO s i = s.bwrid

/-! ## Answers -/

/-- The answer on the port stays while the master does not take it. -/
def AnswerKept (s : State ADDRS WIDTH REQID CBITS) (i : Inputs ADDRS WIDTH REQID) : Prop :=
  s.bvalid = true → i.axiBreadyI = false →
    (step s i).bvalid = true ∧ (step s i).bwrid = s.bwrid

/-- A cycle in which the master is ready for an answer and the memory ends no burst. -/
def Settles (s : State ADDRS WIDTH REQID CBITS) (i : Inputs ADDRS WIDTH REQID) : Prop :=
  i.reset = false ∧ i.axiBreadyI = true ∧ finishes s i = false

/-- There are never more answers than finished bursts, and as many once the master has been
ready; they carry the IDs of the bursts in order. -/
structure Answers (s : State ADDRS WIDTH REQID CBITS) (m : Log REQID) : Prop where
  count : m.bids.length ≤ m.finished
  complete : ∀ js, js ≠ [] → Along step Settles s js →
    (run (watched step Log.watch) (s, m) js).2.bids.length = m.finished
  ids : m.bids <+: m.awids

/-- The response register holds the answer that is due, under the ID of every burst that the
memory has taken the commands of and that is not answered. -/
structure RespInv (s : State ADDRS WIDTH REQID CBITS) (m : Log REQID) : Prop where
  cmd : CmdInv s
  awids : m.awids = m.taken ++ waiting s
  finished : m.finished = m.bids.length + s.bvalid.toNat
  finished_le : m.finished ≤ m.taken.length
  bids : m.bids <+: m.taken
  bwrid : ∀ id ∈ m.taken.drop m.bids.length, id = s.bwrid

section Step

variable {s : State ADDRS WIDTH REQID CBITS} {i : Inputs ADDRS WIDTH REQID} {m : Log REQID}

theorem bvalid_step (hr : i.reset = false) (hbeat : finishes s i = true → s.bvalid = true →
    i.axiBreadyI = true) :
    (step s i).bvalid.toNat + (answered s i).length = s.bvalid.toNat + (finishes s i).toNat := by
  have hnext : (step s i).bvalid =
      if finishes s i then true else if s.bvalid && i.axiBreadyI then false else s.bvalid := by
    simp [step, bvalidNext, hr]
  rw [hnext, answered, answers]
  cases hf : finishes s i <;> cases hv : s.bvalid <;> cases hb : i.axiBreadyI <;> simp_all

theorem bwrid_step (hr : i.reset = false) :
    (step s i).bwrid = if takesLast s i then memWridO s i else s.bwrid := by
  simp [step, bwridNext, takesLast, hr]

/-- The answer on the port carries the ID of the oldest burst that is not answered. -/
theorem RespInv.bids_step (h : RespInv s m) (i : Inputs ADDRS WIDTH REQID) :
    m.bids ++ answered s i <+: m.taken := by
  by_cases ha : answers s i = true
  · have hv : s.bvalid = true := (Bool.and_eq_true_iff.mp ha).1
    have hfin := h.finished
    have hle := h.finished_le
    rw [hv, Bool.toNat_true] at hfin
    have hlt : m.bids.length < m.taken.length := by omega
    have hcons := List.drop_eq_getElem_cons hlt
    have hid : m.taken[m.bids.length] = s.bwrid := h.bwrid _ (by rw [hcons]; exact List.mem_cons_self)
    have hsplit := List.prefix_append_drop h.bids
    rw [hcons, hid] at hsplit
    rw [answered, if_pos ha, hsplit]
    exact (List.prefix_append_right_inj _).mpr ⟨_, rfl⟩
  · rw [answered, if_neg ha, List.append_nil]
    exact h.bids

theorem RespInv.next (h : RespInv s m) (ha : Allowed m s i) (hp : Paced m s i) :
    RespInv (step s i) (m.watch s i) := by
  have hbids := h.bids_step i
  have hvalid := bvalid_step ha.reset hp.beat
  have hfin := h.finished
  have hle := h.finished_le
  refine ⟨h.cmd.next ha.reset, ?_, ?_, ?_, ?_, ?_⟩
  · simp only [Log.watch]
    rw [h.awids, List.append_assoc, h.cmd.waiting_step ha.reset ha.store, List.append_assoc]
  · simp only [Log.watch, List.length_append]
    omega
  · simp only [Log.watch]
    cases hf : finishes s i
    · simp only [List.length_append, Bool.toNat_false]
      omega
    · exact ha.data hf
  · exact hbids.trans (List.prefix_append _ _)
  · intro id hid
    simp only [Log.watch] at hid
    rw [List.drop_append_of_le_length hbids.length_le, List.mem_append] at hid
    rw [bwrid_step ha.reset]
    rcases hid with hold | hnew
    · have hsame : id = s.bwrid := by
        rw [List.length_append, ← List.drop_drop] at hold
        exact h.bwrid id (List.mem_of_mem_drop hold)
      split
      · rename_i ht
        rcases hp.command ht with hall | hid
        · simp [hall] at hold
        · rw [hid, hsame]
      · exact hsame
    · by_cases ht : takesLast s i = true
      · rw [if_pos ht]
        simpa [taken, ht] using hnew
      · simp [taken, ht] at hnew

theorem RespInv.answerKept (h : RespInv s m) (ha : Allowed m s i) (hp : Paced m s i) :
    AnswerKept s i := by
  intro hv hb
  have hno : answers s i = false := by simp [answers, hb]
  have hvalid := bvalid_step ha.reset hp.beat
  have hfin := h.finished
  have hle := h.finished_le
  rw [answered, hno, if_neg Bool.false_ne_true, hv] at hvalid
  refine ⟨?_, ?_⟩
  · cases hf : finishes s i
    · simpa [hf] using hvalid
    · simp [hp.beat hf hv] at hb
  · rw [bwrid_step ha.reset]
    split
    · rename_i ht
      rcases hp.command ht with hall | hid
      · rw [hv, Bool.toNat_true] at hfin
        simp only [answered, hno, List.append_nil, Bool.false_eq_true, if_false] at hall
        omega
      · exact hid
    · rfl

/-- Once the master is ready an answer that is due is taken, and none comes after it. -/
theorem settles_run {js : List (Inputs ADDRS WIDTH REQID)} (hne : js ≠ [])
    (h : Along step Settles s js) :
    (run (watched step Log.watch) (s, m) js).2.bids.length = m.bids.length + s.bvalid.toNat := by
  induction js generalizing s m with
  | nil => exact absurd rfl hne
  | cons j js ih =>
      obtain ⟨⟨hr, hb, hf⟩, hrest⟩ := h
      have hvalid := bvalid_step (s := s) (i := j) hr (fun _ _ => hb)
      have hgone : (step s j).bvalid = false := by
        simp [step, bvalidNext, hr, hf, hb]
      rw [hf, hgone, Bool.toNat_false, Nat.zero_add, Nat.add_zero] at hvalid
      cases js with
      | nil => simp [watched, Log.watch, hvalid]
      | cons j' js =>
          have hlater := ih (s := step s j) (m := m.watch s j) (by simp) hrest
          rw [hgone, Bool.toNat_false, Nat.add_zero] at hlater
          rw [run_cons]
          calc _ = (m.watch s j).bids.length := hlater
            _ = m.bids.length + s.bvalid.toNat := by simp [Log.watch, hvalid]

theorem RespInv.answers (h : RespInv s m) : Answers s m := by
  refine ⟨?_, fun js hne hjs => ?_, ?_⟩
  · rw [h.finished]
    exact Nat.le_add_right _ _
  · rw [settles_run hne hjs, h.finished]
  · rw [h.awids]
    exact h.bids.trans (List.prefix_append _ _)

theorem respInv_afterReset (s : State ADDRS WIDTH REQID CBITS) (i : Inputs ADDRS WIDTH REQID) :
    RespInv (afterReset s i) Log.start := by
  obtain ⟨hcmd, hwait⟩ := cmdInv_afterReset s i
  refine ⟨hcmd, ?_, ?_, le_rfl, List.prefix_rfl, ?_⟩
  · simp [Log.start, hwait]
  · simp [Log.start, afterReset, step, bvalidNext]
  · simp [Log.start]

end Step

/-! ## Runs -/

/-- The state and the log after a run from reset. -/
def logged (s : State ADDRS WIDTH REQID CBITS) (i : Inputs ADDRS WIDTH REQID)
    (is : List (Inputs ADDRS WIDTH REQID)) : State ADDRS WIDTH REQID CBITS × Log REQID :=
  run (watched step Log.watch) (afterReset s i, Log.start) is

/-- Every cycle of a run from reset is allowed. -/
def AllowedRun (s : State ADDRS WIDTH REQID CBITS) (i : Inputs ADDRS WIDTH REQID)
    (is : List (Inputs ADDRS WIDTH REQID)) : Prop :=
  Along (watched step Log.watch) (fun p i => Allowed p.2 p.1 i) (afterReset s i, Log.start) is

/-- In no cycle of a run from reset does the memory run ahead of the answers. -/
def PacedRun (s : State ADDRS WIDTH REQID CBITS) (i : Inputs ADDRS WIDTH REQID)
    (is : List (Inputs ADDRS WIDTH REQID)) : Prop :=
  Along (watched step Log.watch) (fun p i => Paced p.2 p.1 i) (afterReset s i, Log.start) is

/-- The answers of a run from reset. -/
structure AnswersInOrder (s : State ADDRS WIDTH REQID CBITS) (i : Inputs ADDRS WIDTH REQID)
    (is : List (Inputs ADDRS WIDTH REQID)) : Prop where
  kept : Along (watched step Log.watch) (fun p i => AnswerKept p.1 i) (afterReset s i, Log.start) is
  answers : Answers (logged s i is).1 (logged s i is).2

/-- Each burst gets its own answer, in order, when the memory does not run ahead. -/
theorem answersInOrder_of_paced (s : State ADDRS WIDTH REQID CBITS)
    (i : Inputs ADDRS WIDTH REQID) (is : List (Inputs ADDRS WIDTH REQID))
    (ha : AllowedRun s i is) (hp : PacedRun s i is) : AnswersInOrder s i is := by
  let P (p : State ADDRS WIDTH REQID CBITS × Log REQID) : Prop := RespInv p.1 p.2
  have hstart : P (afterReset s i, Log.start) := respInv_afterReset s i
  have hboth := ha.and hp
  refine ⟨hboth.strengthen P ?_ hstart, ?_⟩
  · rintro p i h ⟨ha, hp⟩
    exact ⟨h.next ha hp, h.answerKept ha hp⟩
  · have hreach : P (logged s i is) := run_invariant P (fun p i h hi => h.next hi.1 hi.2) hstart hboth
    exact hreach.answers


/-- A burst of four beats is accepted, with its data. -/
def offerBurst (id : BitVec 4) : List (Inputs 32 32 4) :=
  [quietCycle,
    { (quietCycle : Inputs 32 32 4) with axiAwvalidI := true, axiAwidI := id, axiAwlenI := 3 },
    offerBeat true false, offerBeat true false, offerBeat true false, offerBeat true true]

/-- The memory takes a command. -/
def takeCommand : Inputs 32 32 4 :=
  { quietCycle with memAcceptI := true }

/-- The memory takes the beats of a burst. -/
def takeBeats : List (Inputs 32 32 4) :=
  List.replicate 4 { quietCycle with memReadyI := true, wdfOffers := true }

/-- The master is ready for an answer. -/
def takeAnswer : Inputs 32 32 4 :=
  { quietCycle with axiBreadyI := true }

instance (m : Log REQID) (s : State ADDRS WIDTH REQID CBITS) (i : Inputs ADDRS WIDTH REQID) :
    Decidable (Allowed m s i) :=
  decidable_of_iff
    (i.reset = false ∧ (i.memAcceptI = true → memStoreO s i = true) ∧
      (finishes s i = true → m.finished < (m.taken ++ taken s i).length))
    ⟨fun ⟨h₁, h₂, h₃⟩ => ⟨h₁, h₂, h₃⟩, fun ⟨h₁, h₂, h₃⟩ => ⟨h₁, h₂, h₃⟩⟩

instance (m : Log REQID) (s : State ADDRS WIDTH REQID CBITS) (i : Inputs ADDRS WIDTH REQID) :
    Decidable (Paced m s i) :=
  decidable_of_iff
    ((finishes s i = true → s.bvalid = true → i.axiBreadyI = true) ∧
      (takesLast s i = true →
        (m.bids ++ answered s i).length = m.taken.length ∨ memWridO s i = s.bwrid))
    ⟨fun ⟨h₁, h₂⟩ => ⟨h₁, h₂⟩, fun ⟨h₁, h₂⟩ => ⟨h₁, h₂⟩⟩

instance (s : State ADDRS WIDTH REQID CBITS) (i : Inputs ADDRS WIDTH REQID)
    (is : List (Inputs ADDRS WIDTH REQID)) : Decidable (AllowedRun s i is) :=
  inferInstanceAs (Decidable (Along _ _ _ _))

instance (s : State ADDRS WIDTH REQID CBITS) (i : Inputs ADDRS WIDTH REQID)
    (is : List (Inputs ADDRS WIDTH REQID)) : Decidable (PacedRun s i is) :=
  inferInstanceAs (Decidable (Along _ _ _ _))

/-- Two bursts, the second of which the memory takes after the answer to the first. -/
def pacedPair : List (Inputs 32 32 4) :=
  offerBurst 1 ++ offerBurst 2 ++ (takeCommand :: takeBeats ++ [takeAnswer]) ++
    (takeCommand :: takeBeats ++ [takeAnswer])

/-- Two bursts that the memory takes before the master is ready for an answer. -/
def hastyPair : List (Inputs 32 32 4) :=
  offerBurst 1 ++ offerBurst 2 ++ [takeCommand, takeCommand] ++ takeBeats ++ takeBeats ++
    [takeAnswer, takeAnswer]

/-- The hypotheses are met by two bursts with different IDs. -/
theorem answersInOrder_of_paced_pair :
    AnswersInOrder (default : State 32 32 4 4) quietCycle pacedPair :=
  answersInOrder_of_paced (default : State 32 32 4 4) quietCycle pacedPair (by decide +kernel)
    (by decide +kernel)

/-- The two answers are merged into one, and it carries the ID of the second burst. -/
theorem not_alwaysAnswersInOrder :
    ¬ ∀ (ADDRS WIDTH REQID CBITS : ℕ) (s : State ADDRS WIDTH REQID CBITS)
      (i : Inputs ADDRS WIDTH REQID) (is : List (Inputs ADDRS WIDTH REQID)),
      AllowedRun s i is → AnswersInOrder s i is := by
  intro h
  have hids := (h 32 32 4 4 default quietCycle hastyPair (by decide +kernel)).answers.ids
  revert hids
  decide +kernel

end MiscVerilogCores.AxiWrPath
