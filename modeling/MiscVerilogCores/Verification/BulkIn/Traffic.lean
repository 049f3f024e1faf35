import MiscVerilogCores.Model.BulkIn
import MiscVerilogCores.Verification.PacketFifo.Replay

/-! # What passes through a bulk IN end-point

The source hands in words with their `tlast` bits; the host is sent packets of beats and
answers each with an acknowledge or with silence. A log of both accompanies each run. -/

namespace MiscVerilogCores.BulkIn

open Clocked PacketFifo

variable {ABITS : ℕ} {p : Params}

/-! ## The two ports -/

/-- A beat towards the host: a data byte, or the `tkeep = 0` beat of a zero-data packet. -/
abbrev Beat := Option (BitVec 8)

abbrev Packet := List Beat

/-- The data bytes of a sequence of packets. -/
def dataBytes (packets : List Packet) : List (BitVec 8) := packets.flatten.reduceOption

/-- The word accepted from the source in a cycle. -/
def accepted (s : State ABITS p) (i : Inputs) : List (Word 8) :=
  if i.sTvalid && sTready s then [(i.sTlast, i.sTdata)] else []

/-- The beat transferred to the host in a cycle. -/
def sent (s : State ABITS p) (i : Inputs) : Packet :=
  if mTvalid s && i.mTready then [if mTkeep s then some (mTdata s) else none] else []

/-- What was accepted, the packets that were acknowledged, and the beats sent since the last
answer. The end-point is `waiting` when they are a whole packet; `attempt` is the packet sent
before, if it timed out. -/
structure Traffic where
  accepted : List (Word 8)
  acked : List Packet
  packet : Packet
  waiting : Bool
  attempt : Option Packet

/-- The traffic at the ports, and the stream of words through the FIFO. -/
structure Log where
  traffic : Traffic
  ledger : Ledger 8

namespace Traffic

def empty : Traffic := ⟨[], [], [], false, none⟩

/-- The host acknowledges the packet that was sent. -/
def acks (t : Traffic) (i : Inputs) : Bool := t.waiting && i.selectedI && i.ackRecvI

/-- The packet that was sent times out. -/
def timesOut (t : Traffic) (i : Inputs) : Bool := t.waiting && i.selectedI && i.timedoutI

def watch (t : Traffic) (s : State ABITS p) (i : Inputs) : Traffic where
  accepted := t.accepted ++ BulkIn.accepted s i
  acked := if t.acks i then t.acked ++ [t.packet] else t.acked
  packet := if t.acks i || t.timesOut i then [] else t.packet ++ sent s i
  waiting := !(t.acks i || t.timesOut i) && (t.waiting || (mTvalid s && i.mTready && mTlast s))
  attempt := if t.acks i then none else if t.timesOut i then some t.packet else t.attempt

end Traffic

namespace Log

def empty : Log := ⟨Traffic.empty, Ledger.empty⟩

/-- The stream of the FIFO begins with the reset that follows a configuration event. -/
def watch (m : Log) (s : State ABITS p) (i : Inputs) : Log where
  traffic := m.traffic.watch s i
  ledger :=
    if s.rstQ then Ledger.empty
    else m.ledger.watch (fifoParams p) s.fifo (fifoInputs s i)

end Log

/-! ## Runs after a configuration event -/

/-- A cycle in which the host sets the configuration. -/
structure Configures (i : Inputs) : Prop where
  reset : i.reset = false
  setConfI : i.setConfI = true
  clrConfI : i.clrConfI = false

/-- A cycle without configuration events, in which a packet is not answered twice. -/
structure Polled (i : Inputs) : Prop where
  reset : i.reset = false
  setConfI : i.setConfI = false
  clrConfI : i.clrConfI = false
  answer : ¬ (i.ackRecvI = true ∧ i.timedoutI = true)

instance (i : Inputs) : Decidable (Configures i) :=
  decidable_of_iff (i.reset = false ∧ i.setConfI = true ∧ i.clrConfI = false)
    ⟨fun ⟨h₁, h₂, h₃⟩ => ⟨h₁, h₂, h₃⟩, fun ⟨h₁, h₂, h₃⟩ => ⟨h₁, h₂, h₃⟩⟩

instance (i : Inputs) : Decidable (Polled i) :=
  decidable_of_iff (i.reset = false ∧ i.setConfI = false ∧ i.clrConfI = false ∧
    ¬ (i.ackRecvI = true ∧ i.timedoutI = true))
    ⟨fun ⟨h₁, h₂, h₃, h₄⟩ => ⟨h₁, h₂, h₃, h₄⟩, fun ⟨h₁, h₂, h₃, h₄⟩ => ⟨h₁, h₂, h₃, h₄⟩⟩

/-- The end-point after the configuration event, with an empty log. -/
def runStart (s₀ : State ABITS p) (i₀ : Inputs) : State ABITS p × Log :=
  (step s₀ i₀, Log.empty)

/-- The end-point and its log in a run that starts with a configuration event. -/
def logged (s₀ : State ABITS p) (i₀ : Inputs) (is : List Inputs) : State ABITS p × Log :=
  run (watched step Log.watch) (runStart s₀ i₀) is

/-- What holds after the first edge of a run and is kept by every later one. -/
theorem logged_invariant (Inv : State ABITS p × Log → Prop)
    {ok : State ABITS p × Log → Inputs → Prop} {s₀ : State ABITS p} {i₀ : Inputs}
    {is : List Inputs}
    (hstart : ∀ i, ok (runStart s₀ i₀) i → Inv (watched step Log.watch (runStart s₀ i₀) i))
    (hnext : ∀ q i, Inv q → ok q i → Inv (watched step Log.watch q i))
    (h : Along (watched step Log.watch) ok (runStart s₀ i₀) is) :
    is = [] ∨ Inv (logged s₀ i₀ is) := by
  cases is with
  | nil => exact Or.inl rfl
  | cons i is =>
      right
      have hrun := run_invariant Inv hnext (hstart i h.1) h.2
      exact hrun

/-! ## When the receiver and the transmitter work -/

/-- Nothing is transferred at either port. -/
def Quiet (s : State ABITS p) (i : Inputs) : Prop :=
  (i.sTvalid && treadyW s) = false ∧ (mTvalid s && i.mTready) = false

/-- The FIFO takes a word only together with the receiver, finds room for every word, and is
asked to replay only a data packet, which it still has and whose first word it can find. -/
structure Lossless (m : Log) (s : State ABITS p) (i : Inputs) : Prop where
  captured : (i.sTvalid && treadyW s) = true → sTready s = true
  release : releaseA (fifoParams p) s.fifo = true → s.fifo.wready = true
  room : ¬ Overruns (fifoParams p) s.fifo (fifoInputs s i)
  replay : redoW s i = true → m.ledger.stale = false ∧
    lostNext (fifoParams p) s.fifo (fifoInputs s i) m.ledger.words m.ledger.saved m.ledger.lost ≤
      m.ledger.start
  zdp : redoW s i = true → m.traffic.packet ≠ [none]

/-- The ports are quiet while the FIFO is in reset, and afterwards no word is lost. -/
def Sound (m : Log) (s : State ABITS p) (i : Inputs) : Prop :=
  if s.rstQ then Quiet s i else Lossless m s i

theorem Sound.quiet {m : Log} {s : State ABITS p} {i : Inputs} (h : Sound m s i)
    (hr : s.rstQ = true) : Quiet s i := by
  simpa [Sound, hr] using h

theorem Sound.lossless {m : Log} {s : State ABITS p} {i : Inputs} (h : Sound m s i)
    (hr : s.rstQ = false) : Lossless m s i := by
  simpa [Sound, hr] using h

instance (s : State ABITS p) (i : Inputs) : Decidable (Quiet s i) :=
  inferInstanceAs (Decidable (_ ∧ _))

instance (m : Log) (s : State ABITS p) (i : Inputs) : Decidable (Lossless m s i) :=
  decidable_of_iff (((i.sTvalid && treadyW s) = true → sTready s = true) ∧
    (releaseA (fifoParams p) s.fifo = true → s.fifo.wready = true) ∧
    ¬ Overruns (fifoParams p) s.fifo (fifoInputs s i) ∧
    (redoW s i = true → m.ledger.stale = false ∧
      lostNext (fifoParams p) s.fifo (fifoInputs s i) m.ledger.words m.ledger.saved
        m.ledger.lost ≤ m.ledger.start) ∧
    (redoW s i = true → m.traffic.packet ≠ [none]))
    ⟨fun ⟨h₁, h₂, h₃, h₄, h₅⟩ => ⟨h₁, h₂, h₃, h₄, h₅⟩,
      fun ⟨h₁, h₂, h₃, h₄, h₅⟩ => ⟨h₁, h₂, h₃, h₄, h₅⟩⟩

instance (m : Log) (s : State ABITS p) (i : Inputs) : Decidable (Sound m s i) :=
  inferInstanceAs (Decidable (if s.rstQ = true then Quiet s i else Lossless m s i))

/-- A run whose edges are all sound, without further configuration events. -/
structure SoundRun (s₀ : State ABITS p) (i₀ : Inputs) (is : List Inputs) : Prop where
  configures : Configures i₀
  polled : ∀ i ∈ is, Polled i
  sound : Along (watched step Log.watch) (fun q i => Sound q.2 q.1 i) (runStart s₀ i₀) is

theorem SoundRun.along {s₀ : State ABITS p} {i₀ : Inputs} {is : List Inputs}
    (h : SoundRun s₀ i₀ is) : Along (watched step Log.watch)
      (fun q i => Polled i ∧ Sound q.2 q.1 i) (runStart s₀ i₀) is :=
  (along_of_inputs _ _ h.polled).and h.sound

/-- A configuration event sets up the end-point and resets its counters and its FIFO. -/
theorem Configures.runStart {i₀ : Inputs} (h : Configures i₀) (s₀ : State ABITS p) :
    (runStart s₀ i₀).1.setQ = true ∧ (runStart s₀ i₀).1.rstQ = true ∧
      (runStart s₀ i₀).1.rcount = 0 ∧ (runStart s₀ i₀).1.scount = 0 := by
  simp [BulkIn.runStart, step, h.reset, h.setConfI, h.clrConfI]

instance (s₀ : State ABITS p) (i₀ : Inputs) (is : List Inputs) : Decidable (SoundRun s₀ i₀ is) :=
  decidable_of_iff (Configures i₀ ∧ (∀ i ∈ is, Polled i) ∧
    Along (watched step Log.watch) (fun q i => Sound q.2 q.1 i) (runStart s₀ i₀) is)
    ⟨fun ⟨h₁, h₂, h₃⟩ => ⟨h₁, h₂, h₃⟩, fun ⟨h₁, h₂, h₃⟩ => ⟨h₁, h₂, h₃⟩⟩

end MiscVerilogCores.BulkIn
