import MiscVerilogCores.Library.Text
import MiscVerilogCores.Model.TelemetryTool
import MiscVerilogCores.Verification.Telemetry.Chain

/-! # The words of the dump

Each sample is one word of the text, its low half in front, and the tool takes its fields from fixed bits of
the sample. -/

namespace MiscVerilogCores.UsbUlpiCore

open Segments TelemetryTool

/-! ## Digits -/

/-- Digit `k` of a sample, counted from the lowest. -/
def nibble (w : BitVec 32) (k : ℕ) : BitVec 4 := w.extractLsb' (4 * k) 4

def digit (n : BitVec 4) : Char := n.toNat.digitChar.toUpper

theorem hexDigit_eq : ∀ n : BitVec 4, HexDump.hexDigit n = HexDump.ascii (digit n) := by decide

theorem toNibble_digit : ∀ n : BitVec 4, toNibble (digit n) = some n.toNat := by decide

theorem digit_ne_dash : ∀ n : BitVec 4, digit n ≠ '-' := by decide

theorem digit_not_space : ∀ n : BitVec 4, isSpace (digit n) = false := by decide

/-- The word that a sample is written as. -/
def token (x : Bool × BitVec 32) : List Char :=
  [digit (nibble x.2 3), digit (nibble x.2 2), digit (nibble x.2 1), digit (nibble x.2 0), '-',
    digit (nibble x.2 7), digit (nibble x.2 6), digit (nibble x.2 5), digit (nibble x.2 4)]

/-- The character behind it. -/
def stop (x : Bool × BitVec 32) : Char := if x.1 then '\n' else ' '

theorem readable_token (stop : Bool × BitVec 32 → Char) (hstop : ∀ x, isSpace (stop x) = true) :
    Text.Readable isSpace token stop := by
  refine ⟨fun _ => List.cons_ne_nil _ _, fun x c hc => ?_, hstop⟩
  simp only [token, List.mem_cons, List.not_mem_nil, or_false] at hc
  rcases hc with rfl | rfl | rfl | rfl | rfl | rfl | rfl | rfl | rfl
  all_goals first | exact digit_not_space _ | rfl

/-! ## The text of the samples -/

theorem segment_high (w : BitVec 32) (k : ℕ) :
    (segment 8 w k).extractLsb' 4 4 = nibble w (2 * k + 1) := by
  ext i hi
  simp only [Segments.segment, nibble, BitVec.getElem_extractLsb', BitVec.getLsbD_extractLsb']
  rw [decide_eq_true (show 4 + i < 8 by omega), Bool.true_and]
  congr 1
  omega

theorem segment_low (w : BitVec 32) (k : ℕ) :
    (segment 8 w k).extractLsb' 0 4 = nibble w (2 * k) := by
  ext i hi
  simp only [Segments.segment, nibble, BitVec.getElem_extractLsb', BitVec.getLsbD_extractLsb']
  rw [decide_eq_true (show 0 + i < 8 by omega), Bool.true_and]
  congr 1
  omega

/-- The text of one sample. -/
def sampleText (x : Bool × BitVec 32) : List (Bool × BitVec 8) :=
  HexDump.wordText false (segment 8 x.2 0) (some (segment 8 x.2 1)) false (HexDump.ascii '-') ++
    HexDump.wordText false (segment 8 x.2 2) (some (segment 8 x.2 3)) x.1 (HexDump.ascii (stop x))

theorem sampleText_eq (x : Bool × BitVec 32) :
    (sampleText x).map Prod.snd = (token x ++ [stop x]).map HexDump.ascii := by
  simp [sampleText, HexDump.wordText, HexDump.byteText, HexDump.character, segment_high, segment_low, token,
    hexDigit_eq]

/-- The unfinished frame has whole samples. -/
theorem length_frame (samples : List (Bool × BitVec 32)) :
    (Packets.frames (samples.flatMap sampleBytes)).frame.length % 4 = 0 := by
  induction samples using List.reverseRecOn with
  | nil => rfl
  | append_singleton samples x ih =>
      obtain ⟨last, w⟩ := x
      rw [List.flatMap_append, List.flatMap_singleton, Packets.frames, List.foldl_append]
      change (Packets.frames (samples.flatMap sampleBytes)).frame.length % 4 = 0 at ih
      cases last with
      | false => simpa [sampleBytes, Packets.Frames.push, Packets.frames] using ih
      | true => simp [sampleBytes, Packets.Frames.push]

theorem frame_concat (bytes : List (Bool × BitVec 8)) (b : BitVec 8) :
    (Packets.frames (bytes ++ [(false, b)])).frame = (Packets.frames bytes).frame ++ [b] := by
  simp [Packets.Frames.push]

/-- With a sample more, its text comes behind the others. -/
theorem dumpOf_concat (samples : List (Bool × BitVec 32)) (x : Bool × BitVec 32) :
    dumpOf (samples ++ [x]) = dumpOf samples ++ sampleText x := by
  obtain ⟨last, w⟩ := x
  have hwhole := length_frame samples
  rw [dumpOf, dumpOf, List.flatMap_append, List.flatMap_singleton]
  generalize samples.flatMap sampleBytes = bytes at hwhole ⊢
  -- the four bytes, one after the other
  have hframe₁ := frame_concat bytes (segment 8 w 0)
  have hframe₂ : (Packets.frames (bytes ++ [(false, segment 8 w 0)] ++ [(false, segment 8 w 1)])).frame =
      (Packets.frames bytes).frame ++ [segment 8 w 0, segment 8 w 1] := by
    rw [frame_concat, hframe₁, List.append_assoc]
    rfl
  have hframe₃ : (Packets.frames (bytes ++ [(false, segment 8 w 0)] ++ [(false, segment 8 w 1)] ++
        [(false, segment 8 w 2)])).frame =
      ((Packets.frames bytes).frame ++ [segment 8 w 0, segment 8 w 1]) ++ [segment 8 w 2] := by
    rw [frame_concat, hframe₂]
  have heven₂ : ((Packets.frames bytes).frame ++ [segment 8 w 0, segment 8 w 1]).length % 2 = 0 := by
    rw [List.length_append]
    show ((Packets.frames bytes).frame.length + 2) % 2 = 0
    omega
  have hdash : HexDump.dashAfter true (Packets.frames bytes).frame = true := by
    rw [HexDump.dashAfter, beq_iff_eq, eq_comm, decide_eq_true_iff]
    omega
  have hblank : HexDump.dashAfter true ((Packets.frames bytes).frame ++ [segment 8 w 0, segment 8 w 1]) = false := by
    rw [HexDump.dashAfter_concat, hdash]
    rfl
  have hsplit : bytes ++ sampleBytes (last, w) = bytes ++ [(false, segment 8 w 0)] ++ [(false, segment 8 w 1)] ++
      [(false, segment 8 w 2)] ++ [(last, segment 8 w 3)] := by
    simp [sampleBytes]
  rw [hsplit, HexDump.dumpText_second hframe₃ heven₂, HexDump.dumpText_first (hframe₂ ▸ heven₂),
    HexDump.dumpText_second hframe₁ (by omega), HexDump.dumpText_first (by omega), hdash, hblank,
    List.append_assoc]
  cases last <;> rfl

/-- The text is made of the words of the samples. -/
theorem dumpOf_eq (samples : List (Bool × BitVec 32)) :
    (dumpOf samples).map Prod.snd = (Text.written token stop samples).map HexDump.ascii := by
  induction samples using List.reverseRecOn with
  | nil => rfl
  | append_singleton samples x ih =>
      rw [dumpOf_concat, List.map_append, ih, sampleText_eq, ← List.map_append, Text.written_concat]

/-! ## The tool -/

/-- The entry of a sample: where the tool looks for its fields. -/
def entryOf (w : BitVec 32) : Option Entry := do
  let tok ← UsbToken.all[(w.extractLsb' 20 4).toNat]?
  let usb ← UsbState.all[(w.extractLsb' 16 2).toNat]?
  let trn ← Transact.all[(w.extractLsb' 12 3).toNat]?
  let blk ← BulkState.all[(w.extractLsb' 8 3).toNat]?
  let ctl ← CtrlState.all[(w.extractLsb' 4 4).toNat]?
  let phy ← PhyState.all[(w.extractLsb' 0 4).toNat]?
  let uls ← LineState.all[(w.extractLsb' 30 1).toNat]?
  return {
    usbReset := w.getLsbD 28
    usbEndpt := BitVec.ofNat 8 (w.extractLsb' 24 4).toNat
    usbToken := tok
    usbState := usb
    tokPing := w.getLsbD 18
    crcError := w.getLsbD 15
    transact := trn
    usbSof := w.getLsbD 11
    blkState := blk
    ctlState := ctl
    phyState := phy
    ctlCycle := w.getLsbD 29
    ctlError := w.getLsbD 19
    usbLS := uls }

/-! The fields of a digit. -/

theorem nibble_low : ∀ n : BitVec 4, n.toNat &&& 7 = (n.extractLsb' 0 3).toNat := by decide

theorem nibble_lower : ∀ n : BitVec 4, n.toNat &&& 3 = (n.extractLsb' 0 2).toNat := by decide

theorem nibble_line : ∀ n : BitVec 4, (n.toNat &&& 6) >>> 2 = (n.extractLsb' 2 1).toNat := by decide

theorem nibble_bits : ∀ n : BitVec 4, ((n.toNat &&& 1) != 0) = n.getLsbD 0 ∧
    ((n.toNat &&& 2) != 0) = n.getLsbD 1 ∧ ((n.toNat &&& 4) != 0) = n.getLsbD 2 ∧
    ((n.toNat &&& 8) != 0) = n.getLsbD 3 ∧ decide (8 ≤ n.toNat) = n.getLsbD 3 := by
  decide

theorem extract_nibble (w : BitVec 32) (k start len : ℕ) (h : start + len ≤ 4) :
    (nibble w k).extractLsb' start len = w.extractLsb' (4 * k + start) len := by
  ext i hi
  simp only [nibble, BitVec.getElem_extractLsb', BitVec.getLsbD_extractLsb']
  rw [decide_eq_true (show start + i < 4 by omega), Bool.true_and, Nat.add_assoc]

theorem bit_nibble (w : BitVec 32) (k j : ℕ) (h : j + 1 ≤ 4) :
    (nibble w k).getLsbD j = w.getLsbD (4 * k + j) := by
  rw [nibble, BitVec.getLsbD_extractLsb', decide_eq_true (show j < 4 from h), Bool.true_and]

/-- A word of the text is read as the sample that it was written for. -/
theorem decodeTelemetry_token (x : Bool × BitVec 32) :
    decodeTelemetry (toTokens (token x)) = entryOf x.2 := by
  have htokens : toTokens (token x) = [digit (nibble x.2 3), digit (nibble x.2 2), digit (nibble x.2 1),
      digit (nibble x.2 0), digit (nibble x.2 7), digit (nibble x.2 6), digit (nibble x.2 5),
      digit (nibble x.2 4)] := by
    simp [toTokens, token, digit_ne_dash]
  have hbits (k : ℕ) := nibble_bits (nibble x.2 k)
  rw [htokens]
  simp only [decodeTelemetry, List.getElem?_cons_zero, List.getElem?_cons_succ, Option.bind_some,
    toNibble_digit, Option.bind_eq_bind, nibble_low, nibble_lower, nibble_line, (hbits _).1, (hbits _).2.1,
    (hbits _).2.2.1, (hbits _).2.2.2.1, (hbits _).2.2.2.2, extract_nibble, bit_nibble, Nat.reduceLeDiff,
    Nat.reduceMul, Nat.reduceAdd]
  rfl

end MiscVerilogCores.UsbUlpiCore
