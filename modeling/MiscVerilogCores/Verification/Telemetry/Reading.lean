import MiscVerilogCores.Verification.Telemetry.Printing
import MiscVerilogCores.Verification.Telemetry.Tokens

/-! # Reading the telemetry

What a host receives on the line, saved to a file, is read by the tool as the samples, and these are some of
the signals that were logged, in order. -/

namespace MiscVerilogCores.UsbUlpiCore

open Clocked TelemetryTool

/-! ## Files -/

/-- The content of a file that the received bytes are saved to. -/
def fileOf (bytes : List (BitVec 8)) : List Char := bytes.map fun b => Char.ofNat b.toNat

theorem fileOf_ascii {text : List Char} (h : ∀ c ∈ text, c.toNat < 256) :
    fileOf (text.map HexDump.ascii) = text := by
  rw [fileOf, List.map_map]
  refine (List.map_congr_left fun c hc => ?_).trans (List.map_id text)
  show Char.ofNat (BitVec.ofNat 8 c.toNat).toNat = c
  rw [BitVec.toNat_ofNat, Nat.mod_eq_of_lt (h c hc), Char.ofNat_toNat]

theorem digit_small : ∀ n : BitVec 4, (digit n).toNat < 256 := by decide

theorem isSpace_stop (x : Bool × BitVec 32) : isSpace (stop x) = true := by
  obtain ⟨last, w⟩ := x
  cases last <;> rfl

theorem written_small (samples : List (Bool × BitVec 32)) :
    ∀ c ∈ Text.written token stop samples, c.toNat < 256 := by
  intro c hc
  obtain ⟨x, -, hc⟩ := List.mem_flatMap.mp hc
  obtain hc | hc := List.mem_append.mp hc
  · simp only [token, List.mem_cons, List.not_mem_nil, or_false] at hc
    rcases hc with rfl | rfl | rfl | rfl | rfl | rfl | rfl | rfl | rfl
    all_goals first | exact digit_small _ | decide
  · rw [List.mem_singleton.mp hc, stop]
    split <;> decide

theorem fileOf_dump (samples : List (Bool × BitVec 32)) :
    fileOf ((dumpOf samples).map Prod.snd) = Text.written token stop samples := by
  rw [dumpOf_eq, fileOf_ascii (written_small samples)]

/-! ## Entries -/

/-- A line is cut into the same words as the whole text. -/
theorem parseTelemetry_eq (text : List Char) :
    parseTelemetry text = (Text.wordsBy isSpace text).map fun word => decodeTelemetry (toTokens word) := by
  have hline : ∀ c, (c == '\n') = true → isSpace c = true := by
    intro c hc
    rw [eq_of_beq hc]
    rfl
  rw [← Text.flatMap_wordsBy_linesBy hline text, List.map_flatMap]
  rfl

theorem map_token (samples : List (Bool × BitVec 32)) :
    (samples.map token).map (fun word => decodeTelemetry (toTokens word)) =
      samples.map fun x => entryOf x.2 := by
  rw [List.map_map]
  exact List.map_congr_left fun x _ => decodeTelemetry_token x

theorem parseTelemetry_written {stop : Bool × BitVec 32 → Char} (hstop : ∀ x, isSpace (stop x) = true)
    (samples : List (Bool × BitVec 32)) :
    parseTelemetry (Text.written token stop samples) = samples.map fun x => entryOf x.2 := by
  rw [parseTelemetry_eq, (readable_token stop hstop).wordsBy_written, map_token]

/-- Of the front of the text, all but perhaps the last of the entries are right. -/
theorem parseTelemetry_prefix {text : List Char} {samples : List (Bool × BitVec 32)}
    (h : text <+: Text.written token stop samples) :
    (parseTelemetry text).dropLast <+: samples.map fun x => entryOf x.2 := by
  rw [parseTelemetry_eq, ← List.map_dropLast, ← map_token]
  exact ((readable_token stop isSpace_stop).wordsBy_of_written h).map _

/-! ## Signals -/

/-- What is there to be logged in a cycle. -/
def logged (i : Inputs) : BitVec 32 := i.ignW ++ i.sigW

/-- What the framer presents. -/
def presented (s : State) : List (BitVec 32) :=
  if AxisLogger.cTvalid s.framer then [AxisLogger.cTdata s.framer] else []

theorem presented_step (s : State) (i : Inputs) : (presented (step s i)).Sublist [logged i] := by
  have hframer : (step s i).framer = AxisLogger.step s.framer (framerPort s i) := rfl
  rw [presented]
  split
  · rename_i hvalid
    have hrun : ¬((framerPort s i).reset || !(framerPort s i).enableI) = true := by
      intro hreset
      rw [hframer, AxisLogger.step, if_pos hreset] at hvalid
      exact Bool.false_ne_true hvalid
    have hdata : AxisLogger.cTdata (step s i).framer = logged i := by
      rw [hframer, AxisLogger.step, if_neg hrun]
      rfl
    rw [hdata]
  · exact List.nil_sublist _

/-- The samples are some of what was there, in order. -/
theorem samples_sublist (s : State) (is : List Inputs) :
    ((samples s is).map Prod.snd).Sublist (presented s ++ is.map logged) := by
  induction is generalizing s with
  | nil => exact List.nil_sublist _
  | cons i is ih =>
      rw [samples, emitted_cons, List.map_append]
      refine List.Sublist.append ?_ ((ih (step s i)).trans ?_)
      · rw [sampleAt, AxisLogger.taken, presented]
        cases AxisLogger.cTvalid s.framer with
        | false => exact List.nil_sublist _
        | true =>
            rw [Bool.true_and, if_pos rfl]
            split
            · exact List.Sublist.refl _
            · exact List.nil_sublist _
      · exact (presented_step s i).append_right _

/-! ## Runs -/

/-- From the bytes that a host receives, the tool gets the entries of some of the logged signals. -/
structure ReadsBack (s : State) (is : List Inputs) (arrived : List (BitVec 8)) (log : List (BitVec 32)) :
    Prop where
  signals : log.Sublist (is.map logged)
  front : (parseTelemetry (fileOf arrived)).dropLast <+: log.map entryOf
  all : Drained (run step s is) → (run step s is).uart.tx.busy = false →
    parseTelemetry (fileOf arrived) = log.map entryOf

end MiscVerilogCores.UsbUlpiCore
