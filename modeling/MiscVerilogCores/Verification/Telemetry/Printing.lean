import MiscVerilogCores.Library.Components
import MiscVerilogCores.Verification.Telemetry.Chain
import MiscVerilogCores.Verification.Uart.Link

/-! # Telemetry on the line

A character is offered to the UART only while it is ready for one, so that the FIFO and the transmitter agree
on what is sent. The line then carries the text of the samples to whoever reads it at the right speed. -/

namespace MiscVerilogCores.UsbUlpiCore

open Clocked Handshake

/-! ## Pacing -/

/-- The transmitter is busy and takes nothing, or it is vacant and ready as soon as there is a character. -/
def Paced (s : State) : Prop :=
  s.uart.tx.busy = true ∧ s.uart.tx.sAxisTready = false ∨
    s.uart.tx.busy = false ∧ UartTx.vacant s.uart.tx = true ∧
      (AxisFifo.mAxisTvalid s.textFifo = true → s.uart.tx.sAxisTready = true)

/-- What the transmitter sees. -/
def txPort (s : State) (i : Inputs) : UartTx.Inputs 8 :=
  ⟨i.usbRst, (AxisFifo.mAxis s.textFifo).tdata, AxisFifo.mAxisTvalid s.textFifo && !s.uart.tx.busy, uartPrescale⟩

section Edges

variable {s : State} {i : Inputs}

theorem Paced.ready (h : Paced s) (hoffer : UartTx.offer s.uart.tx (txPort s i) ≠ none) :
    UartTx.ready s.uart.tx (txPort s i) = true := by
  obtain ⟨hbusy, -⟩ | ⟨-, -, hready⟩ := h
  · simp [UartTx.offer, txPort, hbusy] at hoffer
  · cases hvalid : AxisFifo.mAxisTvalid s.textFifo with
    | true => exact hready hvalid
    | false => simp [UartTx.offer, txPort, hvalid] at hoffer

/-- The FIFO gives what the transmitter takes. -/
theorem Paced.taken_eq (h : Paced s) :
    (textAt s i).map Prod.snd = taken UartTx.offer UartTx.ready s.uart.tx (txPort s i) := by
  cases hvalid : AxisFifo.mAxisTvalid s.textFifo with
  | false => simp [textAt, AxisFifo.takenAt, taken, UartTx.offer, txPort, hvalid]
  | true =>
      obtain ⟨hbusy, hready⟩ | ⟨hbusy, -, hready⟩ := h
      · simp [textAt, AxisFifo.takenAt, textFifoPort, taken, UartTx.ready, hready]
      · simp [textAt, AxisFifo.takenAt, textFifoPort, taken, UartTx.ready, UartTx.offer, txPort, hbusy, hvalid,
          hready hvalid, byteOf, AxisFifo.mAxis, AxisFifo.visible]

theorem Paced.next (h : Paced s) (hr : i.usbRst = false) : Paced (step s i) := by
  have hi : UartTx.Driven uartPrescale (txPort s i) := ⟨hr, rfl⟩
  have hstep : (step s i).uart.tx = UartTx.step s.uart.tx (txPort s i) := rfl
  rw [Paced, hstep]
  obtain ⟨hbusy, hready⟩ | ⟨hbusy, hvacant, hready⟩ := h
  · cases hvacant : UartTx.vacant s.uart.tx with
    | true =>
        rw [UartTx.step_vacant hi.rst hvacant (by simp [txPort, hbusy])]
        exact Or.inr ⟨rfl, hvacant, fun _ => rfl⟩
    | false =>
        refine Or.inl ⟨?_, UartTx.step_refuses hi hvacant hready⟩
        rw [UartTx.step_busy hi.rst hvacant, hbusy]
  · cases hoffer : AxisFifo.mAxisTvalid s.textFifo with
    | true =>
        obtain ⟨hprescale, hbit⟩ := UartTx.vacant_iff.mp hvacant
        have hvalid : (txPort s i).sAxisTvalid = true := by simp [txPort, hbusy, hoffer]
        refine Or.inl ?_
        simp [UartTx.step, hi.rst, hprescale, hbit, hvalid, hready hoffer]
    | false =>
        rw [UartTx.step_vacant hi.rst hvacant (by simp [txPort, hoffer])]
        exact Or.inr ⟨rfl, hvacant, fun _ => rfl⟩

theorem paced_reset (s : State) (hr : i.usbRst = true) : Paced (step s i) := by
  have hrst : (txPort s i).rst = true := hr
  have hstep : (step s i).uart.tx = UartTx.step s.uart.tx (txPort s i) := rfl
  have hempty : AxisFifo.contents (step s i).textFifo.pipe.1 = [] :=
    AxisFifo.contents_reset (i := textFifoPort s i) hr
  refine Or.inr ⟨?_, ?_, fun hvalid => ?_⟩
  · simp [hstep, UartTx.step, hrst]
  · simp [hstep, UartTx.step, hrst, UartTx.vacant]
  · have hitem : (AxisFifo.top (step s i).textFifo).item = some (AxisFifo.top (step s i).textFifo).data :=
      if_pos hvalid
    rw [AxisFifo.pipe_eq, AxisFifo.contents_cons, hitem] at hempty
    exact absurd hempty (List.cons_ne_nil _ _)

end Edges

/-! ## Runs -/

def samples (s : State) (is : List Inputs) : List (Bool × BitVec 32) := emitted step sampleAt s is

/-- A host on the line, with `rs` as its inputs, reads the text of the samples, or the front of it while
something is under way. -/
structure Prints (s : State) (is : List Inputs) (host : UartRx.State 8) (rs : List (UartRx.Inputs 8))
    (arrived : List (BitVec 8)) : Prop where
  order : arrived <+: (dumpOf (samples s is)).map Prod.snd
  decodes : UartRx.Decodes host rs arrived
  taken : (∀ i ∈ rs, i.mAxisTready = true) →
    UartRx.reads host rs ++ UartRx.offered (run UartRx.step host rs) = arrived
  all : Drained (run step s is) → (run step s is).uart.tx.busy = false →
    arrived = (dumpOf (samples s is)).map Prod.snd

section Runs

variable {s : State} {is : List Inputs}

/-- The transmitter is a component. -/
theorem transmitter : Component step Paced (fun _ i => i.usbRst = false) UartTx.step (fun s => s.uart.tx) txPort :=
  ⟨fun _ _ h hr => h.next hr, fun _ _ _ _ => rfl⟩

theorem accepted_seen (hs : Paced s) (hi : ∀ i ∈ is, i.usbRst = false) :
    UartTx.accepted s.uart.tx (seen step txPort s is) = (emitted step textAt s is).map Prod.snd := by
  rw [map_emitted]
  exact (transmitter.emitted_eq (fun _ _ h _ => h.taken_eq) hs (along_of_inputs step s hi)).symm

theorem patient_seen (hs : Paced s) (hi : ∀ i ∈ is, i.usbRst = false) :
    Patient UartTx.step UartTx.offer UartTx.ready s.uart.tx (seen step txPort s is) :=
  patient_of_ready <|
    transmitter.along_seen (fun _ _ h _ hoffer => h.ready hoffer) hs (along_of_inputs step s hi)

/-- What has left the FIFO is on the line, but for a byte that may be under way. -/
structure Carries (s : State) (is : List Inputs) (host : UartRx.State 8) (rs : List (UartRx.Inputs 8))
    (arrived : List (BitVec 8)) (text : List (Bool × BitVec 8)) : Prop where
  order : arrived <+: text.map Prod.snd
  all : (run step s is).uart.tx.busy = false → arrived = text.map Prod.snd
  decodes : UartRx.Decodes host rs arrived
  taken : (∀ i ∈ rs, i.mAxisTready = true) →
    UartRx.reads host rs ++ UartRx.offered (run UartRx.step host rs) = arrived

variable {q : BitVec 16} {r : Inputs} {r' : UartRx.Inputs 8} {rs : List (UartRx.Inputs 8)}

/-- From reset, the books are kept and the line carries what they say. -/
theorem carries_of_reset (s₀ : State) (host₀ : UartRx.State 8) (hq : q ≠ 0)
    (htol : UartRx.Tolerates q 8 (8 * uartPrescale.toNat)) (hr : r.usbRst = true) (hr' : r'.rst = true)
    (hi : ∀ i ∈ is, i.usbRst = false) (hrs : ∀ i ∈ rs, UartRx.Driven q i)
    (hline : UartRx.levels rs = emitted step (fun s _ => [uartTxO s]) (step s₀ r) is) :
    ∃ arrived text, Carries (step s₀ r) is (UartRx.step host₀ r') rs arrived text ∧
      Chain (run step (step s₀ r) is) (samples (step s₀ r) is) text := by
  have hpaced := paced_reset s₀ hr
  have hrun := along_of_inputs step (step s₀ r) hi
  have hlevels : UartRx.levels rs =
      (UartTx.wire (step s₀ r).uart.tx (seen step txPort (step s₀ r) is)).dropLast :=
    Uart.levels_eq (hline.trans (transmitter.emitted_eq (fun _ _ _ _ => rfl) hpaced hrun))
  have hts : ∀ i ∈ seen step txPort (step s₀ r) is, UartTx.Driven uartPrescale i :=
    forall_seen (fun _ _ hr => ⟨hr, rfl⟩) hi
  obtain ⟨arrived, hdelivers⟩ := Uart.delivers_of_levels s₀.uart.tx host₀ (r := txPort s₀ r) (by decide) hq
    (by decide) htol hr hr' hts hrs (patient_seen hpaced hi) hlevels
  have hsame : (step s₀ r).uart.tx = UartTx.step s₀.uart.tx (txPort s₀ r) := rfl
  rw [← hsame] at hdelivers
  have hchain : Chain (run step (step s₀ r) is) (samples (step s₀ r) is)
      (emitted step textAt (step s₀ r) is) :=
    run_ledger Chain (fun _ _ _ _ h hr => h.next hr) (chain_reset s₀ hr) hrun
  refine ⟨arrived, _, ⟨?_, fun hidle => ?_, hdelivers.decodes, hdelivers.taken⟩, hchain⟩
  · exact accepted_seen hpaced hi ▸ hdelivers.order
  · have hend : Paced (run step (step s₀ r) is) :=
      run_invariant Paced (fun _ _ h hr => h.next hr) hpaced hrun
    have hvacant : UartTx.vacant (run step (step s₀ r) is).uart.tx = true := by
      obtain ⟨hbusy, -⟩ | ⟨-, hvacant, -⟩ := hend
      · exact absurd (hidle.symm.trans hbusy) Bool.false_ne_true
      · exact hvacant
    rw [transmitter.run_eq hpaced hrun] at hvacant
    rw [hdelivers.all hvacant, accepted_seen hpaced hi]

/-- From reset, the telemetry is printed on the line. -/
theorem prints (s₀ : State) (host₀ : UartRx.State 8) (hq : q ≠ 0)
    (htol : UartRx.Tolerates q 8 (8 * uartPrescale.toNat)) (hr : r.usbRst = true) (hr' : r'.rst = true)
    (hi : ∀ i ∈ is, i.usbRst = false) (hrs : ∀ i ∈ rs, UartRx.Driven q i)
    (hline : UartRx.levels rs = emitted step (fun s _ => [uartTxO s]) (step s₀ r) is) :
    ∃ arrived, Prints (step s₀ r) is (UartRx.step host₀ r') rs arrived := by
  obtain ⟨arrived, text, hcarries, hchain⟩ := carries_of_reset s₀ host₀ hq htol hr hr' hi hrs hline
  obtain ⟨hfront, hall⟩ := hchain.text_eq
  refine ⟨arrived, hcarries.order.trans (hfront.map _), hcarries.decodes, hcarries.taken, ?_⟩
  intro hdrained hidle
  rw [hcarries.all hidle, hall hdrained]

end Runs

/-- A cycle in which the signals are `sig`, and the button is pressed. -/
def cycleInputs (rst : Bool) (sig : BitVec 20) : Inputs := ⟨rst, true, sig, 0, false, true⟩

/-- One sample, and time to print the first characters of it. -/
def oneSample : List Inputs := List.replicate 20000 (cycleInputs false 5)

/-- The host samples the line with the bit time of the core. -/
def hostInputs (rst : Bool) (level : Bool) : UartRx.Inputs 8 := ⟨rst, true, level, uartPrescale⟩

theorem oneSample_usbRst : ∀ i ∈ oneSample, i.usbRst = false := by
  intro i hi
  rw [List.eq_of_mem_replicate hi]
  rfl

theorem driven_hostInputs {levels : List Bool} :
    ∀ i ∈ levels.map (hostInputs false), UartRx.Driven uartPrescale i := by
  intro i hi
  obtain ⟨level, -, rfl⟩ := List.mem_map.mp hi
  exact ⟨rfl, rfl⟩

theorem prints_one :
    let s := step default (cycleInputs true 0)
    ∃ arrived, Prints s oneSample (UartRx.step default (hostInputs true true))
      ((emitted step (fun s _ => [uartTxO s]) s oneSample).map (hostInputs false)) arrived := by
  have hspeed : uartPrescale ≠ 0 := by decide
  refine prints default default hspeed (UartRx.tolerates_self hspeed) rfl rfl oneSample_usbRst
    driven_hostInputs ?_
  rw [UartRx.levels, List.map_map]
  exact List.map_id _

end MiscVerilogCores.UsbUlpiCore
