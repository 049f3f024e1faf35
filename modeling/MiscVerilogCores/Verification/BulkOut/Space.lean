import MiscVerilogCores.Verification.BulkOut.Edges

/-! # Space for the packets of a bulk OUT end-point

The end-point only waits for a packet while its FIFO has room for one, so that the FIFO stays ready
until the packet has been taken. It does, as long as something is there to read whenever a packet
is saved. -/

namespace MiscVerilogCores.BulkOut

open Clocked PacketFifo

variable {ABITS : ℕ}

/-! ## Traffic -/

/-- How long ago `set_conf_i` came and a packet ended, and the kept bytes of the packet that is
arriving. -/
structure Pace where
  conf : ℕ
  last : ℕ
  kept : ℕ

namespace Pace

/-- Nothing happened lately. -/
def start : Pace := ⟨3, 3, 0⟩

def watch (m : Pace) (s : State ABITS) (i : Inputs) : Pace where
  conf := if i.setConfI then 0 else m.conf + 1
  last := if s.state == .recv && i.sTvalid && i.sTlast then 0 else m.last + 1
  kept := if s.state == .recv then m.kept + (i.sTvalid && i.sTkeep).toNat else 0

end Pace

section Edges

variable (p : Params) (m : Pace) (s : State ABITS) (i : Inputs)

/-- The end-point is selected three cycles after `set_conf_i` at the soonest, a packet that waits is
answered three cycles after its last byte at the soonest, and no packet is too long. -/
structure Orderly : Prop where
  select : i.selectedI = true → i.setConfI = false ∧ 2 ≤ m.conf
  answer : (i.ackSentI || i.rxErrorI) = true → s.state = .halt ∨ (s.state = .save ∧ 2 ≤ m.last)
  length : s.state = .recv → i.sTvalid = true → i.sTkeep = true → m.kept < p.maxPacketLength

/-- When a packet is saved there is something to read. -/
def SavesSomething : Prop :=
  s.state ≠ .halt → s.rstQ = false → s.fifo.saveQ = true →
    waddrNext (fifoParams p) s.fifo (fifoInputs s i) ≠
      raddrNext (fifoParams p) s.fifo (fifoInputs s i)

instance : Decidable (Orderly p m s i) :=
  decidable_of_iff ((i.selectedI = true → i.setConfI = false ∧ 2 ≤ m.conf) ∧
    ((i.ackSentI || i.rxErrorI) = true → s.state = .halt ∨ (s.state = .save ∧ 2 ≤ m.last)) ∧
    (s.state = .recv → i.sTvalid = true → i.sTkeep = true → m.kept < p.maxPacketLength))
    ⟨fun ⟨h₁, h₂, h₃⟩ => ⟨h₁, h₂, h₃⟩, fun ⟨h₁, h₂, h₃⟩ => ⟨h₁, h₂, h₃⟩⟩

instance : Decidable (SavesSomething p s i) := inferInstanceAs (Decidable (_ → _ → _ → _))

end Edges

/-! ## Phases -/

/-- The FIFO has room for `k` more bytes. -/
def Holds (p : Params) (s : State ABITS) (k : ℕ) : Prop :=
  ∃ acc out bs rd lost, Holding (fifoParams p) s.fifo acc out bs k rd lost

/-- The FIFO has room for a packet, by its level. -/
def HasRoom (p : Params) (s : State ABITS) : Prop :=
  s.fifo.levelQ.toNat + p.maxPacketLength < 2 ^ ABITS

instance (p : Params) (s : State ABITS) : Decidable (HasRoom p s) :=
  inferInstanceAs (Decidable (_ < _))

/-- What is known of the FIFO in each state, and while it is reset. -/
inductive Phase (p : Params) (s : State ABITS) (m : Pace) : Prop
  | halt (state : s.state = .halt)
  | reset (state : s.state ≠ .recv) (rst : s.rstQ = true) (conf : m.conf = 0)
  | idle (state : s.state = .idle) (rst : s.rstQ = false)
      (clear : s.fifo.saveQ = false → s.fifo.xvld = false) (room : Holds p s p.maxPacketLength)
  | recv (state : s.state = .recv) (rst : s.rstQ = false) (save : s.fifo.saveQ = false)
      (last : s.fifo.xlst = false) (ready : treadyW s = true) (kept : m.kept ≤ p.maxPacketLength)
      (room : Holds p s (p.maxPacketLength - m.kept))
  | save (state : s.state = .save) (rst : s.rstQ = false) (save : s.fifo.saveQ = false)
      (holds : Holds p s 0) (full : 1 ≤ m.last → s.fullQ = false → HasRoom p s)
  | full (state : s.state = .full) (rst : s.rstQ = false)
      (clear : s.fifo.saveQ = false → s.fifo.xvld = false) (holds : Holds p s 0)
      (full : s.fullQ = false → HasRoom p s)

section Step

variable {p : Params} {s : State ABITS} {i : Inputs} {m : Pace} {k : ℕ}

theorem captureA_of_ne_recv (h : s.state ≠ .recv) : captureA s.fifo (fifoInputs s i) = false := by
  simp [captureA, fifoInputs, h]

/-- An answer only comes in `ST_SAVE` or `ST_HALT`. -/
theorem Orderly.no_answer (hi : Orderly p m s i) (hhalt : s.state ≠ .halt)
    (hsave : s.state ≠ .save) : i.ackSentI = false ∧ i.rxErrorI = false := by
  by_contra hno
  rcases hi.answer (by cases h : i.ackSentI <;> simp [h] at hno ⊢; exact hno) with h | ⟨h, -⟩
  · exact hhalt h
  · exact hsave h

theorem Holds.mono (h : Holds p s k) {k' : ℕ} (hk : k' ≤ k) : Holds p s k' := by
  obtain ⟨acc, out, bs, rd, lost, h⟩ := h
  have hspace := h.space
  exact ⟨acc, out, bs, rd, lost, { h with space := by omega }⟩

theorem Holds.room (h : Holds p s k) (hroom : HasRoom p s) : Holds p s p.maxPacketLength := by
  obtain ⟨acc, out, bs, rd, lost, h⟩ := h
  exact ⟨acc, out, bs, rd, lost, h.room hroom⟩

/-- What the FIFO is owed, outside of a packet. -/
theorem paced (hrst : s.rstQ = false) (hhalt : s.state ≠ .halt) (hi : SavesSomething p s i)
    (hsave : s.fifo.saveQ = true → i.rxErrorI = false ∧ s.state ≠ .recv) :
    Paced (fifoParams p) s.fifo (fifoInputs s i) :=
  ⟨hrst, rfl, fun h => ⟨(hsave h).1, captureA_of_ne_recv (hsave h).2⟩, hi hhalt hrst⟩

/-- Outside of a packet the FIFO takes nothing, and its level goes down at most. -/
theorem Holds.settle (h : Holds p s k)
    (hi : Paced (fifoParams p) s.fifo (fifoInputs s i))
    (hc : captureA s.fifo (fifoInputs s i) = false) :
    Holds p (step p s i) k ∧ (step p s i).fifo.wready = true ∧
      (step p s i).fifo.levelQ.toNat ≤ s.fifo.levelQ.toNat := by
  obtain ⟨acc, out, bs, rd, lost, h⟩ := h
  have hp := OutPipe.onDemand_fifoParams p
  refine ⟨?_, h.wready_step hp hi (by simp [hc]), h.levelQ_le hp hi hc⟩
  cases hs : s.fifo.saveQ
  · cases hd : (fifoInputs s i).dropI
    · obtain ⟨rd', lost', hnext⟩ := h.rest hp hi hc hd hs
      exact ⟨_, _, _, rd', lost', hnext⟩
    · obtain ⟨rd', lost', hnext⟩ := h.drop hp hi hc hd
      exact ⟨_, _, _, rd', lost', hnext⟩
  · obtain ⟨rd', lost', hnext⟩ := h.save hp hi hs
    exact ⟨_, _, _, rd', lost', hnext⟩

/-! ## One edge -/

/-- Nothing sets up the end-point anew, nor takes it down. -/
structure Undisturbed (p : Params) (i : Inputs) : Prop where
  reset : i.reset = false
  setConf : i.setConfI = false
  clrConf : i.clrConfI = false
  enabled : p.enabled = true

theorem Undisturbed.rstQ (hu : Undisturbed p i) : (step p s i).rstQ = false := by
  simp [step, hu.reset, hu.setConf]

theorem Undisturbed.fullQ (hu : Undisturbed p i) (hmax : p.maxPacketLength < 2 ^ ABITS) :
    (step p s i).fullQ = !decide (HasRoom p s) := by
  have hspace : (spaceW p s).msb = !decide (HasRoom p s) := OutPipe.msb_room s.fifo.levelQ hmax
  simp [step, hu.reset, hu.setConf, hspace]

theorem saveQ_step (hrst : s.rstQ = false) :
    (step p s i).fifo.saveQ = (i.ackSentI && !i.rxErrorI) :=
  (OutPipe.onDemand_fifoParams p).saveQ_step hrst

/-- Room seen at an edge is still there after it, as long as nothing is taken. -/
theorem Undisturbed.hasRoom (hu : Undisturbed p i) (hmax : p.maxPacketLength < 2 ^ ABITS)
    (hlevel : (step p s i).fifo.levelQ.toNat ≤ s.fifo.levelQ.toNat)
    (hfull : (step p s i).fullQ = false) : HasRoom p (step p s i) := by
  rw [hu.fullQ hmax] at hfull
  have hroom : HasRoom p s := by simpa using hfull
  exact (Nat.add_le_add_right hlevel _).trans_lt hroom

/-- What is held is saved or dropped, unless neither is asked for. -/
theorem xvld_settle (hrst : s.rstQ = false) (hc : captureA s.fifo (fifoInputs s i) = false) :
    (step p s i).fifo.xvld = (s.fifo.xvld && !(s.fifo.saveQ || i.rxErrorI)) := by
  have hstep : (step p s i).fifo.xvld =
      (s.fifo.xvld && !(releaseA (fifoParams p) s.fifo || i.rxErrorI)) := by
    have hreset : (fifoInputs s i).reset = false := hrst
    have hdrop : (fifoInputs s i).dropI = i.rxErrorI := rfl
    show (PacketFifo.step (fifoParams p) s.fifo (fifoInputs s i)).xvld = _
    simp [PacketFifo.step, fifoParams, hreset, hdrop, hc]
  rw [hstep, (OutPipe.onDemand_fifoParams p).releaseA]
  cases s.fifo.xvld <;> simp

/-- Once the packet has been saved nothing is held. -/
theorem clear_step (hrst : s.rstQ = false) (hc : captureA s.fifo (fifoInputs s i) = false)
    (hclear : s.fifo.saveQ = false → s.fifo.xvld = false) :
    (step p s i).fifo.saveQ = false → (step p s i).fifo.xvld = false := by
  intro _
  rw [xvld_settle hrst hc]
  cases hs : s.fifo.saveQ
  · simp [hclear hs]
  · simp

theorem Phase.idle_next (hi : Orderly p m s i) (hsome : SavesSomething p s i)
    (hu : Undisturbed p i) (hstate : s.state = .idle) (hrst : s.rstQ = false)
    (hclear : s.fifo.saveQ = false → s.fifo.xvld = false) (hroom : Holds p s p.maxPacketLength) :
    Phase p (step p s i) (m.watch s i) := by
  obtain ⟨hack, herr⟩ := hi.no_answer (by simp [hstate]) (by simp [hstate])
  have hc := captureA_of_ne_recv (i := i) (show s.state ≠ .recv by simp [hstate])
  have hpaced := paced hrst (by simp [hstate]) hsome fun _ => ⟨herr, by simp [hstate]⟩
  obtain ⟨hholds, hready, -⟩ := hroom.settle hpaced hc
  have hsave : (step p s i).fifo.saveQ = false := by simp [saveQ_step hrst, hack]
  have hnext : (step p s i).state = if i.selectedI then .recv else .idle := by
    simp [step, stateNext, hu.reset, hu.clrConf, hu.enabled, hstate]
  have hempty := clear_step (p := p) (i := i) hrst hc hclear hsave
  cases hsel : i.selectedI
  · exact .idle (by simp [hnext, hsel]) hu.rstQ (fun _ => hempty) hholds
  · have hlast : (step p s i).fifo.xlst = false := by
      obtain ⟨acc, out, bs, rd, lost, h⟩ := hholds
      by_contra hlast
      simp [h.last (by simpa using hlast)] at hempty
    have hkept : (m.watch s i).kept = 0 := by simp [Pace.watch, hstate]
    exact .recv (by simp [hnext, hsel]) hu.rstQ hsave hlast hready (by omega)
      (by rwa [hkept, Nat.sub_zero])

/-- In `ST_RECV` the kept bytes are taken, and there is room for those that may follow. -/
theorem Holds.receive (h : Holds p s (p.maxPacketLength - m.kept)) (hi : Orderly p m s i)
    (hsome : SavesSomething p s i) (hstate : s.state = .recv) (hrst : s.rstQ = false)
    (hsave : s.fifo.saveQ = false) (hlast : s.fifo.xlst = false) (hready : treadyW s = true)
    (hkept : m.kept ≤ p.maxPacketLength) :
    (m.watch s i).kept ≤ p.maxPacketLength ∧
      Holds p (step p s i) (p.maxPacketLength - (m.watch s i).kept) ∧
      treadyW (step p s i) = true := by
  obtain ⟨acc, out, bs, rd, lost, h⟩ := h
  obtain ⟨hack, herr⟩ := hi.no_answer (by simp [hstate]) (by simp [hstate])
  have hp := OutPipe.onDemand_fifoParams p
  have hpaced : Paced (fifoParams p) s.fifo (fifoInputs s i) :=
    ⟨hrst, rfl, by simp [hsave], hsome (by simp [hstate]) hrst⟩
  have hwready : s.fifo.wready = true := hready
  have hcapture : captureA s.fifo (fifoInputs s i) = (i.sTvalid && i.sTkeep) := by
    simp [captureA, fifoInputs, hstate, hwready]
  have hcount : (m.watch s i).kept = m.kept + (i.sTvalid && i.sTkeep).toNat := by
    simp [Pace.watch, hstate]
  cases hc : (i.sTvalid && i.sTkeep)
  · rw [hc] at hcapture hcount
    obtain ⟨rd', lost', hnext⟩ := h.rest hp hpaced hcapture herr hsave
    have hcount' : (m.watch s i).kept = m.kept := hcount
    rw [hcount']
    exact ⟨hkept, ⟨_, _, _, rd', lost', hnext⟩, h.wready_step hp hpaced (by simp [hcapture])⟩
  · have hvalid : i.sTvalid = true ∧ i.sTkeep = true := by simpa using hc
    have hlength := hi.length hstate hvalid.1 hvalid.2
    rw [hc] at hcapture hcount
    have hcount' : (m.watch s i).kept = m.kept + 1 := hcount
    obtain ⟨rd', lost', hnext⟩ := h.take hp hpaced hcapture herr hlast
      (show p.maxPacketLength - (m.kept + 1) + 1 = p.maxPacketLength - m.kept by omega)
    rw [hcount']
    refine ⟨by omega, ⟨_, _, _, rd', lost', hnext⟩, h.wready_step hp hpaced ?_⟩
    simp [hcapture]
    omega

/-- The word that is held in `ST_RECV` is not the last one. -/
theorem xlst_recv (hi : Orderly p m s i) (hstate : s.state = .recv) (hrst : s.rstQ = false)
    (hlast : s.fifo.xlst = false) (hend : (i.sTvalid && i.sTlast) = false) : (step p s i).fifo.xlst = false := by
  obtain ⟨hack, herr⟩ := hi.no_answer (by simp [hstate]) (by simp [hstate])
  have hreset : (fifoInputs s i).reset = false := hrst
  have hsaveI : (fifoInputs s i).saveI = i.ackSentI := rfl
  have hlastI : (fifoInputs s i).sTlast = i.sTlast := rfl
  have hvalid : captureA s.fifo (fifoInputs s i) = true → i.sTvalid = true := by
    simp [captureA, fifoInputs]
    tauto
  show (PacketFifo.step (fifoParams p) s.fifo (fifoInputs s i)).xlst = false
  cases hc : captureA s.fifo (fifoInputs s i)
  · simp [PacketFifo.step, fifoParams, hreset, hc, hlast]
  · have htlast : i.sTlast = false := by simpa [hvalid hc] using hend
    simp [PacketFifo.step, fifoParams, hreset, hc, hsaveI, hlastI, hack, htlast]

theorem Phase.recv_next (hi : Orderly p m s i) (hsome : SavesSomething p s i)
    (hu : Undisturbed p i) (hstate : s.state = .recv) (hrst : s.rstQ = false)
    (hsave : s.fifo.saveQ = false) (hlast : s.fifo.xlst = false) (hready : treadyW s = true)
    (hkept : m.kept ≤ p.maxPacketLength) (hroom : Holds p s (p.maxPacketLength - m.kept)) :
    Phase p (step p s i) (m.watch s i) := by
  obtain ⟨hack, herr⟩ := hi.no_answer (by simp [hstate]) (by simp [hstate])
  obtain ⟨hkept', hroom', hready'⟩ :=
    hroom.receive hi hsome hstate hrst hsave hlast hready hkept
  have hsave' : (step p s i).fifo.saveQ = false := by simp [saveQ_step hrst, hack]
  have hnext : (step p s i).state =
      if !i.selectedI then .halt else if i.sTvalid && i.sTlast then .save else .recv := by
    simp [step, stateNext, hu.reset, hu.clrConf, hu.enabled, hstate, herr, sTready, hready]
  cases hsel : i.selectedI
  · exact .halt (by simp [hnext, hsel])
  · cases hend : (i.sTvalid && i.sTlast)
    · exact .recv (by simp [hnext, hsel, hend]) hu.rstQ hsave'
        (xlst_recv hi hstate hrst hlast hend) hready' hkept' hroom'
    · have hago : (m.watch s i).last = 0 := by
        simp only [Bool.and_eq_true] at hend
        simp [Pace.watch, hstate, hend]
      exact .save (by simp [hnext, hsel, hend]) hu.rstQ hsave' (hroom'.mono (Nat.zero_le _))
        (by omega)

theorem Phase.save_next (hi : Orderly p m s i) (hsome : SavesSomething p s i)
    (hu : Undisturbed p i) (hmax : p.maxPacketLength < 2 ^ ABITS) (hstate : s.state = .save)
    (hrst : s.rstQ = false) (hsave : s.fifo.saveQ = false) (hholds : Holds p s 0)
    (hfull : 1 ≤ m.last → s.fullQ = false → HasRoom p s) :
    Phase p (step p s i) (m.watch s i) := by
  have hc := captureA_of_ne_recv (i := i) (show s.state ≠ .recv by simp [hstate])
  have hpaced := paced hrst (by simp [hstate]) hsome (by simp [hsave])
  have hlevel := (hholds.settle hpaced hc).2.2
  have hnext : (step p s i).state =
      if i.ackSentI || i.rxErrorI then (if s.fullQ then .full else .idle) else .save := by
    simp [step, stateNext, hu.reset, hu.clrConf, hu.enabled, hstate]
  cases hans : (i.ackSentI || i.rxErrorI)
  · have hack : i.ackSentI = false := by simp_all
    exact .save (by simp [hnext, hans]) hu.rstQ (by simp [saveQ_step hrst, hack])
      (hholds.settle hpaced hc).1 fun _ => hu.hasRoom hmax hlevel
  · have hago : 2 ≤ m.last := by
      rcases hi.answer hans with h | ⟨-, h⟩
      · simp [hstate] at h
      · exact h
    have hclear : (step p s i).fifo.saveQ = false → (step p s i).fifo.xvld = false := by
      rw [saveQ_step hrst, xvld_settle hrst hc]
      cases ha : i.ackSentI <;> cases he : i.rxErrorI <;> simp [ha, he] at hans ⊢
    cases hf : s.fullQ
    · have hroom := hholds.room (hfull (by omega) hf)
      exact .idle (by simp [hnext, hans, hf]) hu.rstQ hclear (hroom.settle hpaced hc).1
    · exact .full (by simp [hnext, hans, hf]) hu.rstQ hclear (hholds.settle hpaced hc).1
        (hu.hasRoom hmax hlevel)

theorem Phase.full_next (hi : Orderly p m s i) (hsome : SavesSomething p s i)
    (hu : Undisturbed p i) (hmax : p.maxPacketLength < 2 ^ ABITS) (hstate : s.state = .full)
    (hrst : s.rstQ = false) (hclear : s.fifo.saveQ = false → s.fifo.xvld = false)
    (hholds : Holds p s 0) (hfull : s.fullQ = false → HasRoom p s) :
    Phase p (step p s i) (m.watch s i) := by
  obtain ⟨hack, herr⟩ := hi.no_answer (by simp [hstate]) (by simp [hstate])
  have hc := captureA_of_ne_recv (i := i) (show s.state ≠ .recv by simp [hstate])
  have hpaced := paced hrst (by simp [hstate]) hsome fun _ => ⟨herr, by simp [hstate]⟩
  have hclear' := clear_step (p := p) (i := i) hrst hc hclear
  cases hf : s.fullQ
  · have hroom := hholds.room (hfull hf)
    refine .idle ?_ hu.rstQ hclear' (hroom.settle hpaced hc).1
    simp [step, stateNext, hu.reset, hu.clrConf, hu.enabled, hstate, hf]
  · have hnext : (step p s i).state =
        if !p.dropOnOverflow && i.selectedI then .halt else .full := by
      simp [step, stateNext, hu.reset, hu.clrConf, hu.enabled, hstate, hf]
    cases hdrop : (!p.dropOnOverflow && i.selectedI)
    · exact .full (by simp [hnext, hdrop]) hu.rstQ hclear' (hholds.settle hpaced hc).1
        (hu.hasRoom hmax (hholds.settle hpaced hc).2.2)
    · exact .halt (by simp [hnext, hdrop])

/-- A reset empties the FIFO. -/
theorem emptied (p : Params) (hrst : s.rstQ = true) (hmax : p.maxPacketLength < 2 ^ ABITS) :
    Holds p (step p s i) p.maxPacketLength ∧ (step p s i).fifo.saveQ = false ∧
      (step p s i).fifo.xvld = false ∧ HasRoom p (step p s i) := by
  have hreset : (fifoInputs s i).reset = true := hrst
  have hp := OutPipe.onDemand_fifoParams p
  refine ⟨⟨[], [], [], 0, 0, .of_reset hp s.fifo hreset hmax⟩, ?_, ?_, ?_⟩
  · simp [step, PacketFifo.step, hreset, fifoParams]
  · simp [step, PacketFifo.step, hreset, fifoParams]
  · simpa [HasRoom, step, PacketFifo.step, hreset] using hmax

theorem Phase.reset_next (hi : Orderly p m s i) (hu : Undisturbed p i)
    (hmax : p.maxPacketLength < 2 ^ ABITS) (hstate : s.state ≠ .recv) (hrst : s.rstQ = true)
    (hconf : m.conf = 0) : Phase p (step p s i) (m.watch s i) := by
  obtain ⟨hholds, hsave, hxvld, hroom⟩ := emptied (i := i) p hrst hmax
  have hsel : i.selectedI = false := by
    by_contra hsel
    have := (hi.select (by simpa using hsel)).2
    omega
  have hnone := hholds.mono (Nat.zero_le _)
  cases hs : s.state with
  | recv => exact absurd hs hstate
  | halt => exact .halt (by simp [step, stateNext, hu.reset, hu.clrConf, hu.enabled, hs, hu.setConf])
  | idle =>
    have hnext : (step p s i).state = .idle := by
      simp [step, stateNext, hu.reset, hu.clrConf, hu.enabled, hs, hsel]
    exact .idle hnext hu.rstQ (fun _ => hxvld) hholds
  | save =>
    have hnext : (step p s i).state =
        if i.ackSentI || i.rxErrorI then (if s.fullQ then .full else .idle) else .save := by
      simp [step, stateNext, hu.reset, hu.clrConf, hu.enabled, hs]
    cases hans : (i.ackSentI || i.rxErrorI)
    · exact .save (by simp [hnext, hans]) hu.rstQ hsave hnone fun _ _ => hroom
    · cases hf : s.fullQ
      · exact .idle (by simp [hnext, hans, hf]) hu.rstQ (fun _ => hxvld) hholds
      · exact .full (by simp [hnext, hans, hf]) hu.rstQ (fun _ => hxvld) hnone fun _ => hroom
  | full =>
    have hnext : (step p s i).state = if s.fullQ then .full else .idle := by
      cases hf : s.fullQ <;>
        simp [step, stateNext, hu.reset, hu.clrConf, hu.enabled, hs, hsel, hf]
    cases hf : s.fullQ
    · exact .idle (by simp [hnext, hf]) hu.rstQ (fun _ => hxvld) hholds
    · exact .full (by simp [hnext, hf]) hu.rstQ (fun _ => hxvld) hnone fun _ => hroom

/-- A configuration comes while the end-point is not selected, so that no packet is begun. -/
theorem Phase.configured (hi : Orderly p m s i) (hset : i.setConfI = true) :
    Phase p (step p s i) (m.watch s i) := by
  have hsel : i.selectedI = false := by
    by_contra hsel
    simp [(hi.select (by simpa using hsel)).1] at hset
  refine .reset ?_ (by simp [step, hset]) (by simp [Pace.watch, hset])
  show stateNext p s i ≠ .recv
  rw [stateNext, hsel]
  cases s.state <;> simp <;> grind

/-- What one edge preserves. -/
theorem Phase.next (h : Phase p s m) (hi : Orderly p m s i) (hsome : SavesSomething p s i)
    (hmax : p.maxPacketLength < 2 ^ ABITS) : Phase p (step p s i) (m.watch s i) := by
  by_cases hdown : (i.reset || i.clrConfI || !p.enabled) = true
  · exact .halt (by simp [step, stateNext, hdown])
  · cases hset : i.setConfI
    · have hu : Undisturbed p i := by
        simp only [Bool.or_eq_true, Bool.not_eq_true', not_or, Bool.not_eq_true,
          Bool.not_eq_false] at hdown
        exact ⟨hdown.1.1, hset, hdown.1.2, hdown.2⟩
      cases h with
      | halt state =>
        exact .halt (by simp [step, stateNext, hu.reset, hu.clrConf, hu.enabled, state, hset])
      | reset state rst conf => exact reset_next hi hu hmax state rst conf
      | idle state rst clear room => exact idle_next hi hsome hu state rst clear room
      | recv state rst save last ready kept room =>
        exact recv_next hi hsome hu state rst save last ready kept room
      | save state rst save holds full => exact save_next hi hsome hu hmax state rst save holds full
      | full state rst clear holds full =>
        exact full_next hi hsome hu hmax state rst clear holds full
    · exact .configured hi hset

theorem Phase.ready (h : Phase p s m) (hstate : s.state = .recv) : treadyW s = true := by
  cases h with
  | recv state rst save last ready kept room => exact ready
  | reset state rst conf => exact absurd hstate state
  | halt state => simp [hstate] at state
  | idle state rst clear room => simp [hstate] at state
  | save state rst save holds full => simp [hstate] at state
  | full state rst clear holds full => simp [hstate] at state

end Step

/-! ## Runs -/

/-- A clock edge with `reset` asserted. -/
def resetInputs : Inputs where
  reset := true
  setConfI := false
  clrConfI := false
  selectedI := false
  rxErrorI := false
  ackSentI := false
  sTvalid := false
  sTkeep := false
  sTlast := false
  sTdata := 0
  mTready := false
  undef := false

/-- The end-point after a reset, whatever came before, and its traffic. -/
def paceStart (p : Params) (s₀ : State ABITS) : State ABITS × Pace := (step p s₀ resetInputs, Pace.start)

/-- The end-point and its traffic in a run that starts with a reset. -/
def watchedPace (p : Params) (s₀ : State ABITS) (is : List Inputs) : State ABITS × Pace :=
  run (watched (step p) Pace.watch) (paceStart p s₀) is

/-- A cycle in which the end-point may be selected, and a beat may arrive. -/
def beat (selected valid keep last : Bool) (data : BitVec 8) : Inputs :=
  { resetInputs with
    reset := false, selectedI := selected, sTvalid := valid, sTkeep := keep, sTlast := last,
    sTdata := data }

/-- A cycle with a strobe, and no packet. -/
def strobe (setConf ack : Bool) : Inputs :=
  { resetInputs with reset := false, setConfI := setConf, ackSentI := ack }

/-- The end-point is configured and selected. -/
def configured : List Inputs :=
  [strobe true false, strobe false false, strobe false false, beat true false false false 0]

/-- The end-point is answered, and selected again some time later. -/
def acknowledged : List Inputs :=
  List.replicate 2 (strobe false false) ++ strobe false true ::
    List.replicate 6 (strobe false false) ++ [beat true false false false 0]

/-- The FIFO is ready in every cycle of `ST_RECV`, where two packets fit in it. -/
def AlwaysReady : Prop :=
  ∀ (ABITS : ℕ) (p : Params) (s₀ : State ABITS) (is : List Inputs),
    2 * p.maxPacketLength ≤ 2 ^ ABITS →
    Along (watched (step p) Pace.watch) (fun q i => Orderly p q.2 q.1 i) (paceStart p s₀) is →
    (watchedPace p s₀ is).1.state = .recv → treadyW (watchedPace p s₀ is).1 = true

end MiscVerilogCores.BulkOut
