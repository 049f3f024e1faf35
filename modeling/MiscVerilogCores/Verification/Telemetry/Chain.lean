import MiscVerilogCores.Model.UsbUlpiCore
import MiscVerilogCores.Verification.AxisAdapter.Downsizing
import MiscVerilogCores.Verification.AxisFifo.Queue
import MiscVerilogCores.Verification.HexDump.Starting

/-! # From the samples to the characters

What the framer samples goes through a FIFO, the adapter, `hex_dump` and another FIFO. Each of them keeps
its own books, and what one gives is what the next one takes. -/

namespace MiscVerilogCores.UsbUlpiCore

open AxisAdapter Clocked Segments

/-! ## Samples and their bytes -/

/-- The bytes of a sample, the lowest first; the last one ends the frame if the sample does. -/
def sampleBytes (x : Bool × BitVec 32) : List (Bool × BitVec 8) :=
  [(false, segment 8 x.2 0), (false, segment 8 x.2 1), (false, segment 8 x.2 2), (x.1, segment 8 x.2 3)]

/-- A sample as a beat of its FIFO. -/
def sampleWord (x : Bool × BitVec 32) : AxisFifo.Word 32 4 1 Unit := ⟨x.2, BitVec.allOnes 4, x.1, ((), 0)⟩

/-- A byte with its `tlast`, as `hex_dump` sees it. -/
def byteOf {k : ℕ} {U : Type} (b : Beat 8 k U) : Bool × BitVec 8 := (b.tlast, b.tdata)

/-- The bytes that a word of the FIFO is taken apart into. -/
def wordBytes (w : AxisFifo.Word 32 4 1 Unit) : List (Beat 8 1 Side) :=
  Downsize.unpack (n := 4) (w := 8) (k := 1) (AxisFifo.visible logFifo w)

theorem wordBytes_sampleWord (x : Bool × BitVec 32) : (wordBytes (sampleWord x)).map byteOf = sampleBytes x := by
  have hkeep : (BitVec.allOnes (4 * 1) >>> 1 == 0) = false ∧ (BitVec.allOnes (4 * 1) >>> 1 >>> 1 == 0) = false ∧
      (BitVec.allOnes (4 * 1) >>> 1 >>> 1 >>> 1 == 0) = false ∧
      (BitVec.allOnes (4 * 1) >>> 1 >>> 1 >>> 1 >>> 1 == 0) = true := by
    decide
  have hvisible : AxisFifo.visible logFifo (sampleWord x) = sampleWord x := rfl
  rw [wordBytes, hvisible]
  simp only [Downsize.unpack, Downsize.unpackTo, sampleWord, Downsize.shifted, Downsize.lowest, hkeep,
    setWidth_eq_segment, segment_shiftRight]
  rfl

/-- Frames of samples have whole words. -/
theorem length_frames (samples : List (Bool × BitVec 32)) :
    (Packets.frames (samples.flatMap sampleBytes)).frame.length % 2 = 0 ∧
      ∀ frame ∈ (Packets.frames (samples.flatMap sampleBytes)).done, frame.length % 2 = 0 := by
  induction samples using List.reverseRecOn with
  | nil => exact ⟨rfl, fun _ h => absurd h List.not_mem_nil⟩
  | append_singleton samples x ih =>
      obtain ⟨last, w⟩ := x
      obtain ⟨hframe, hdone⟩ := ih
      have hpush : Packets.frames ((samples ++ [(last, w)]).flatMap sampleBytes) =
          (sampleBytes (last, w)).foldl Packets.Frames.push (Packets.frames (samples.flatMap sampleBytes)) := by
        rw [List.flatMap_append, List.flatMap_singleton, Packets.frames, List.foldl_append]
        rfl
      rw [hpush]
      generalize Packets.frames (samples.flatMap sampleBytes) = f at hframe hdone
      let new : List (BitVec 8) := [segment 8 w 0, segment 8 w 1, segment 8 w 2, segment 8 w 3]
      have heven : (f.frame ++ new).length % 2 = 0 := by
        rw [List.length_append]
        show (f.frame.length + 4) % 2 = 0
        omega
      cases last with
      | false =>
          have hopen : (sampleBytes (false, w)).foldl Packets.Frames.push f = ⟨f.done, f.frame ++ new⟩ := by
            simp [sampleBytes, Packets.Frames.push, new]
          rw [hopen]
          exact ⟨heven, hdone⟩
      | true =>
          have hended : (sampleBytes (true, w)).foldl Packets.Frames.push f =
              ⟨f.done ++ [f.frame ++ new], []⟩ := by
            simp [sampleBytes, Packets.Frames.push, new]
          rw [hended]
          refine ⟨rfl, fun frame hmem => ?_⟩
          obtain hmem | hmem := List.mem_append.mp hmem
          · exact hdone frame hmem
          · rw [List.mem_singleton.mp hmem]
            exact heven

theorem even_of_prefix {samples : List (Bool × BitVec 32)} {bytes : List (Bool × BitVec 8)}
    (h : bytes <+: samples.flatMap sampleBytes) :
    ∀ frame ∈ (Packets.frames bytes).done, frame.length % 2 = 0 := by
  obtain ⟨more, hmore⟩ := h
  have hdone := Packets.done_prefix_frames bytes more
  rw [hmore] at hdone
  exact fun frame hframe => (length_frames samples).2 frame (hdone.subset hframe)

/-! ## Up to the adapter -/

theorem lossless (addrWidth : ℕ) (keepEnable : Bool) : AxisFifo.Lossless (fifoParams addrWidth keepEnable) :=
  ⟨rfl, rfl⟩

/-- The sample that the FIFO takes. -/
def sampleAt (s : State) (i : Inputs) : List (Bool × BitVec 32) := AxisLogger.taken s.framer (framerPort s i)

/-- The byte that the adapter hands over. -/
def byteAt (s : State) (i : Inputs) : List (Beat 8 1 Side) :=
  if s.adapter.mAxisTvalid && (adapterPort s i).mAxisTready then [s.adapter.mAxis] else []

/-- The books of the FIFO and of the adapter. -/
def Upstream (s : State) (samples : List (Bool × BitVec 32)) (bytes : List (Beat 8 1 Side)) : Prop :=
  ∃ out, AxisFifo.Ledger s.logFifo (samples.map sampleWord) out ∧
    out.flatMap wordBytes = bytes ++ Downsize.left s.adapter

section Upstream

variable {s : State} {i : Inputs} {samples : List (Bool × BitVec 32)} {bytes : List (Beat 8 1 Side)}

theorem accepted_sample (s : State) (i : Inputs) :
    AxisFifo.acceptedAt s.logFifo (logFifoPort s i) = (sampleAt s i).map sampleWord := by
  cases hvalid : AxisLogger.cTvalid s.framer <;> cases hready : AxisFifo.sAxisTready s.logFifo <;>
    simp [AxisFifo.acceptedAt, AxisFifo.accepts, logFifoPort, sampleAt, AxisLogger.taken, framerPort, hvalid,
      hready, sampleWord, AxisLogger.cTdata]

theorem unpack_taken (s : State) (i : Inputs) :
    (AxisFifo.takenAt s.logFifo (logFifoPort s i)).flatMap wordBytes =
      if (adapterPort s i).sAxisTvalid && Downsize.sAxisTready s.adapter then
        Downsize.unpack (adapterPort s i).sAxis
      else [] := by
  have htaken : AxisFifo.takenAt s.logFifo (logFifoPort s i) =
      if AxisFifo.mAxisTvalid s.logFifo && Downsize.sAxisTready s.adapter then
        [(AxisFifo.top s.logFifo).data]
      else [] := rfl
  show _ = if AxisFifo.mAxisTvalid s.logFifo && Downsize.sAxisTready s.adapter then
    wordBytes (AxisFifo.top s.logFifo).data else []
  rw [htaken]
  split
  · exact List.flatMap_singleton _ _
  · rfl

theorem Upstream.next (h : Upstream s samples bytes) (hr : i.usbRst = false) :
    Upstream (step s i) (samples ++ sampleAt s i) (bytes ++ byteAt s i) := by
  obtain ⟨out, hledger, hbytes⟩ := h
  have hnext := hledger.next (i := logFifoPort s i) (lossless 7 true) hr
  rw [accepted_sample, ← List.map_append] at hnext
  refine ⟨_, hnext, ?_⟩
  have hleft := Downsize.left_step (s := s.adapter) (i := adapterPort s i) (by decide) (by decide) hr
  rw [List.flatMap_append, hbytes, unpack_taken, List.append_assoc, hleft, List.append_assoc]
  rfl

/-- What the adapter hands over are the bytes of the samples, but for those that are still under way. -/
theorem Upstream.bytes_eq (h : Upstream s samples bytes) :
    bytes.map byteOf ++ (Downsize.left s.adapter ++ (AxisFifo.readable s.logFifo).flatMap wordBytes).map byteOf =
      samples.flatMap sampleBytes := by
  obtain ⟨out, hledger, hbytes⟩ := h
  have hall : ((samples.map sampleWord).flatMap wordBytes).map byteOf = samples.flatMap sampleBytes := by
    rw [List.map_flatMap, List.flatMap_map]
    exact List.flatMap_congr fun x _ => wordBytes_sampleWord x
  rw [← hall, ← hledger.readable_eq rfl, List.flatMap_append, hbytes, ← List.map_append, List.append_assoc]

end Upstream

/-! ## From `hex_dump` on -/

/-- The character that leaves the FIFO. -/
def textAt (s : State) (i : Inputs) : List (Bool × BitVec 8) :=
  (AxisFifo.takenAt s.textFifo (textFifoPort s i)).map byteOf

/-- `hex_dump` with what its FIFO holds. -/
def dumper (s : State) : HexDump.Dumper := ⟨s.hexDump, (AxisFifo.readable s.textFifo).map byteOf⟩

/-- The books of `hex_dump` and of its FIFO. -/
structure Downstream (s : State) (bytes text : List (Bool × BitVec 8)) : Prop where
  dumps : HexDump.Inv false (dumper s) bytes text
  stops : HexDump.Stops s.hexDump
  stored : ∃ words out, AxisFifo.Ledger s.textFifo words out

section Downstream

variable {s : State} {i : Inputs} {bytes text : List (Bool × BitVec 8)}

theorem accepted_text (s : State) (i : Inputs) :
    (AxisFifo.acceptedAt s.textFifo (textFifoPort s i)).map byteOf =
      HexDump.pushed s.hexDump (hexDumpPort s i) := by
  cases hvalid : s.hexDump.fvalid <;> cases hready : AxisFifo.sAxisTready s.textFifo <;>
    simp [AxisFifo.acceptedAt, AxisFifo.accepts, textFifoPort, HexDump.pushed, hexDumpPort, hvalid, hready,
      byteOf]

/-- The oldest word is the one at the output. -/
theorem delivered_dumper (s : State) (i : Inputs) : HexDump.delivered (dumper s) (hexDumpPort s i) = textAt s i := by
  cases hvalid : AxisFifo.mAxisTvalid s.textFifo with
  | false => simp [HexDump.delivered, hexDumpPort, textAt, AxisFifo.takenAt, hvalid]
  | true =>
      have hfirst : (AxisFifo.readable s.textFifo).take 1 = [(AxisFifo.top s.textFifo).data] := by
        have hitem : (AxisFifo.top s.textFifo).item = some (AxisFifo.top s.textFifo).data := if_pos hvalid
        rw [AxisFifo.readable, AxisFifo.pipe_eq, AxisFifo.contents_cons, hitem]
        rfl
      cases hready : s.uart.tx.sAxisTready with
      | false => simp [HexDump.delivered, hexDumpPort, textAt, AxisFifo.takenAt, textFifoPort, hready]
      | true =>
          simp [HexDump.delivered, hexDumpPort, textAt, AxisFifo.takenAt, textFifoPort, hvalid, hready, dumper,
            ← List.map_take, hfirst]

theorem dumper_step (h : ∃ words out, AxisFifo.Ledger s.textFifo words out) (hr : i.usbRst = false) :
    dumper (step s i) = HexDump.dumperStep false (dumper s) (hexDumpPort s i) := by
  obtain ⟨words, out, hledger⟩ := h
  have hreset : ¬(hexDumpPort s i).reset = true := Bool.eq_false_iff.mp hr
  have hmoved := hledger.readable_step (i := textFifoPort s i) (lossless 11 false) rfl hr
  have hnext : AxisFifo.readable (step s i).textFifo =
      (AxisFifo.readable s.textFifo ++ AxisFifo.acceptedAt s.textFifo (textFifoPort s i)).drop
        (AxisFifo.takenAt s.textFifo (textFifoPort s i)).length := by
    rw [← hmoved, List.drop_left]
    rfl
  have hle : (HexDump.delivered (dumper s) (hexDumpPort s i)).length ≤ (dumper s).fifo.length := by
    rw [HexDump.delivered]
    split
    · exact List.length_take_le' _ _
    · exact Nat.zero_le _
  rw [HexDump.dumperStep, if_neg hreset, dumper, hnext, List.map_drop, List.map_append, accepted_text]
  rw [← List.drop_append_of_le_length hle, delivered_dumper, textAt, List.length_map]
  rfl

theorem Downstream.next (h : Downstream s bytes text) (hr : i.usbRst = false)
    (heven : ∀ frame ∈ (Packets.frames (bytes ++ (byteAt s i).map byteOf)).done, frame.length % 2 = 0) :
    Downstream (step s i) (bytes ++ (byteAt s i).map byteOf) (text ++ textAt s i) := by
  have hbyte : (byteAt s i).map byteOf = HexDump.accepted (dumper s).fsm (hexDumpPort s i) := by
    cases hvalid : s.adapter.mAxisTvalid <;> cases hready : s.hexDump.tready <;>
      simp [byteAt, adapterPort, HexDump.accepted, HexDump.sTready, hexDumpPort, dumper, hvalid, hready, byteOf]
  rw [hbyte] at heven ⊢
  obtain ⟨hdumps, hstops⟩ := h.dumps.next_of_even h.stops (i := hexDumpPort s i) hr (fun _ => rfl) heven
  rw [← dumper_step h.stored hr, delivered_dumper] at hdumps
  rw [← dumper_step h.stored hr] at hstops
  obtain ⟨words, out, hledger⟩ := h.stored
  exact ⟨hdumps, hstops, _, _, hledger.next (i := textFifoPort s i) (lossless 11 false) hr⟩

end Downstream

/-! ## The whole chain -/

/-- The books of all the parts. -/
def Chain (s : State) (samples : List (Bool × BitVec 32)) (text : List (Bool × BitVec 8)) : Prop :=
  ∃ bytes, Upstream s samples bytes ∧ Downstream s (bytes.map byteOf) text

/-- What is dumped of some samples. -/
def dumpOf (samples : List (Bool × BitVec 32)) : List (Bool × BitVec 8) :=
  HexDump.dumpText false (samples.flatMap sampleBytes)

/-- Nothing is under way. -/
structure Drained (s : State) : Prop where
  logged : AxisFifo.readable s.logFifo = []
  unpacked : Downsize.left s.adapter = []
  written : s.hexDump.state < 0x3 ∨ s.hexDump.state = 0xd
  read : AxisFifo.readable s.textFifo = []

section Chain

variable {s : State} {i : Inputs} {samples : List (Bool × BitVec 32)} {text : List (Bool × BitVec 8)}

theorem Chain.next (h : Chain s samples text) (hr : i.usbRst = false) :
    Chain (step s i) (samples ++ sampleAt s i) (text ++ textAt s i) := by
  obtain ⟨bytes, hup, hdown⟩ := h
  have hup' := hup.next hr
  have heven := even_of_prefix ⟨_, hup'.bytes_eq⟩
  rw [List.map_append] at heven
  refine ⟨_, hup', ?_⟩
  rw [List.map_append]
  exact hdown.next hr heven

theorem chain_reset (s : State) (hr : i.usbRst = true) : Chain (step s i) [] [] := by
  have hrst : (adapterPort s i).rst = true := hr
  have hlog : AxisFifo.Ledger (step s i).logFifo [] [] := AxisFifo.ledger_reset (i := logFifoPort s i) hr
  have htext : AxisFifo.Ledger (step s i).textFifo [] [] := AxisFifo.ledger_reset (i := textFifoPort s i) hr
  have hleft : Downsize.left (step s i).adapter = [] := by
    simp [step, Downsize.left, Downsize.step, hrst]
  have hread : AxisFifo.readable (step s i).textFifo = [] := by
    have hnone := htext.readable_eq rfl
    rwa [List.nil_append] at hnone
  have hsame : dumper (step s i) = HexDump.dumperStep false (dumper s) (hexDumpPort s i) := by
    rw [dumper, hread, HexDump.dumperStep, if_pos (show (hexDumpPort s i).reset = true from hr)]
    rfl
  refine ⟨[], ⟨[], hlog, ?_⟩, ⟨?_, ?_, _, _, htext⟩⟩
  · rw [hleft]
    rfl
  · rw [hsame]
    exact HexDump.inv_of_reset false (dumper s) hr
  · have hidle : (step s i).hexDump.tready = false := by
      simp [step, HexDump.step, show (hexDumpPort s i).reset = true from hr]
    exact fun _ => hidle

/-- What has left the FIFO is the front of the text of the samples, and all of it when nothing is under
way. -/
theorem Chain.text_eq (h : Chain s samples text) :
    text <+: dumpOf samples ∧ (Drained s → text = dumpOf samples) := by
  obtain ⟨bytes, hup, hdown⟩ := h
  obtain ⟨left, htext, hphase⟩ := hdown.dumps
  have hbytes := hup.bytes_eq
  refine ⟨?_, fun hdrained => ?_⟩
  · have hfront : text <+: HexDump.dumpText false (bytes.map byteOf) := ⟨_, htext⟩
    exact hfront.trans (HexDump.dumpText_prefix false ⟨_, hbytes⟩)
  · rw [hdrained.logged, hdrained.unpacked] at hbytes
    have hall : bytes.map byteOf = samples.flatMap sampleBytes := by simpa using hbytes
    have hfifo : (dumper s).fifo = [] := congrArg (List.map byteOf) hdrained.read
    have hleft : left = [] := hphase.left_eq_nil hdrained.written
    rw [hfifo, hleft, hall, List.append_nil, List.append_nil] at htext
    exact htext

end Chain

end MiscVerilogCores.UsbUlpiCore
