import MiscVerilogCores.Model.Driver
import MiscVerilogCores.Verification.Telemetry.Reading

/-! # The driver and the line

The driver reads the bytes of the samples from an endpoint. The text that it writes has the same words as the
text on the line, and is the same text if the frames have eight samples; the fields that it shows are the
signals. -/

namespace MiscVerilogCores.UsbUlpiCore

open Driver Segments TelemetryTool

/-! ## Halves of a sample -/

/-- Two bytes as the driver puts them together. -/
def pairing (lo hi : BitVec 8) : BitVec 16 := (hi.setWidth 16 <<< 8) ||| lo.setWidth 16

theorem toNat_pairing (lo hi : BitVec 8) : (pairing lo hi).toNat = hi.toNat * 256 + lo.toNat := by
  have hlo := lo.isLt
  have hhi := hi.isLt
  rw [pairing, BitVec.toNat_or, BitVec.toNat_shiftLeft, BitVec.toNat_setWidth, BitVec.toNat_setWidth,
    Nat.mod_eq_of_lt (by omega), Nat.mod_eq_of_lt (by omega), Nat.shiftLeft_eq,
    Nat.mod_eq_of_lt (by omega), ← Nat.shiftLeft_eq, ← Nat.shiftLeft_add_eq_or_of_lt hlo, Nat.shiftLeft_eq]

theorem digit_high (b : BitVec 8) : digit (b.extractLsb' 4 4) = (b.toNat / 16).digitChar.toUpper := by
  have hb := b.isLt
  rw [digit, BitVec.extractLsb'_toNat, Nat.shiftRight_eq_div_pow, Nat.mod_eq_of_lt (by omega)]

theorem digit_low (b : BitVec 8) : digit (b.extractLsb' 0 4) = (b.toNat % 16).digitChar.toUpper := by
  rw [digit, BitVec.extractLsb'_toNat, Nat.shiftRight_zero]

theorem upperHex_pairing (lo hi : BitVec 8) : Text.upperHex 4 (pairing lo hi).toNat =
    [digit (hi.extractLsb' 4 4), digit (hi.extractLsb' 0 4), digit (lo.extractLsb' 4 4),
      digit (lo.extractLsb' 0 4)] := by
  have hlo := lo.isLt
  have hhi := hi.isLt
  rw [Text.upperHex_eq (by decide) (pairing lo hi).isLt, toNat_pairing, digit_high, digit_low, digit_high,
    digit_low]
  have h₃ : (hi.toNat * 256 + lo.toNat) / 16 / 16 / 16 % 16 = hi.toNat / 16 := by omega
  have h₂ : (hi.toNat * 256 + lo.toNat) / 16 / 16 % 16 = hi.toNat % 16 := by omega
  have h₁ : (hi.toNat * 256 + lo.toNat) / 16 % 16 = lo.toNat / 16 := by omega
  have h₀ : (hi.toNat * 256 + lo.toNat) % 16 = lo.toNat % 16 := by omega
  simp only [Text.hexDigits, h₃, h₂, h₁, h₀, List.nil_append, List.cons_append]

/-- The halves of a sample, the lower one in front. -/
def halves (w : BitVec 32) : List (BitVec 16) :=
  [pairing (segment 8 w 0) (segment 8 w 1), pairing (segment 8 w 2) (segment 8 w 3)]

/-- The bytes of some samples, as they are read. -/
def bytesOf (samples : List (Bool × BitVec 32)) : List (BitVec 8) :=
  (samples.flatMap sampleBytes).map Prod.snd

theorem bytesOf_cons (x : Bool × BitVec 32) (samples : List (Bool × BitVec 32)) :
    bytesOf (x :: samples) =
      segment 8 x.2 0 :: segment 8 x.2 1 :: segment 8 x.2 2 :: segment 8 x.2 3 :: bytesOf samples := rfl

/-! ## The loop -/

theorem push_pair (words : List (BitVec 16)) (low : BitVec 16) (lo hi : BitVec 8) :
    (Pairing.push (Pairing.push ⟨words, false, low⟩ lo) hi) =
      ⟨words ++ [pairing lo hi], false, lo.setWidth 16⟩ := rfl

theorem foldl_push (samples : List (Bool × BitVec 32)) (words : List (BitVec 16)) (low : BitVec 16) :
    ((bytesOf samples).foldl Pairing.push ⟨words, false, low⟩).words =
      words ++ samples.flatMap fun x => halves x.2 := by
  induction samples generalizing words low with
  | nil => exact (List.append_nil _).symm
  | cons x samples ih =>
      rw [bytesOf_cons, List.foldl_cons, List.foldl_cons, push_pair, List.foldl_cons, List.foldl_cons, push_pair,
        ih, List.flatMap_cons, halves, List.append_assoc, List.append_assoc]
      rfl

theorem separator_even (k : ℕ) : separator (2 * k) = '-' := by
  have hcases : ∀ j < 8, separator (2 * j) = '-' := by decide
  have hsame : 2 * k % 16 = 2 * (k % 8) % 16 := by omega
  rw [← hcases (k % 8) (Nat.mod_lt k (by decide)), separator, separator, hsame]

/-- The character behind a sample, if there are eight samples in a line. -/
def eighth (k : ℕ) : Char := if k % 8 = 7 then '\n' else ' '

theorem separator_odd (k : ℕ) : separator (2 * k + 1) = eighth k := by
  have hcases : ∀ j < 8, separator (2 * j + 1) = eighth j := by decide
  have hsame : (2 * k + 1) % 16 = (2 * (k % 8) + 1) % 16 := by omega
  have hmod : eighth k = eighth (k % 8) := by rw [eighth, eighth, Nat.mod_mod]
  rw [hmod, ← hcases (k % 8) (Nat.mod_lt k (by decide)), separator, separator, hsame]

/-- The text of the words from one on. -/
def dumpFrom (k : ℕ) (words : List (BitVec 16)) : List Char :=
  (words.zipIdx k).flatMap fun (w, count) => Text.upperHex 4 w.toNat ++ [separator count]

theorem dumpFrom_halves (k : ℕ) (x : Bool × BitVec 32) (words : List (BitVec 16)) :
    dumpFrom (2 * k) (halves x.2 ++ words) = token x ++ eighth k :: dumpFrom (2 * (k + 1)) words := by
  simp only [dumpFrom, halves, List.cons_append, List.nil_append, List.zipIdx_cons, List.flatMap_cons,
    upperHex_pairing, segment_high, segment_low, separator_even, separator_odd]
  rfl

theorem dumpFrom_flatMap (k : ℕ) (samples : List (Bool × BitVec 32)) :
    dumpFrom (2 * k) (samples.flatMap fun x => halves x.2) =
      Text.written (fun x => token x.1) (fun x => eighth x.2) (samples.zipIdx k) := by
  induction samples generalizing k with
  | nil => rfl
  | cons x samples ih =>
      rw [List.flatMap_cons, dumpFrom_halves, ih, List.zipIdx_cons, Text.written_cons]

/-- The dump has a word for each sample. -/
theorem hexdump_bytesOf (first : BitVec 8) (samples : List (Bool × BitVec 32)) :
    hexdump first (bytesOf samples) =
      Text.written (fun x => token x.1) (fun x => eighth x.2) samples.zipIdx := by
  rw [← dumpFrom_flatMap 0 samples, hexdump, dumpFrom, foldl_push, List.nil_append]

/-! ## A part of the bytes -/

theorem words_prefix_push (s : Pairing) (bytes : List (BitVec 8)) :
    s.words <+: (bytes.foldl Pairing.push s).words := by
  induction bytes generalizing s with
  | nil => exact List.prefix_rfl
  | cons b bytes ih =>
      refine List.IsPrefix.trans ?_ (ih (s.push b))
      rw [Pairing.push]
      split
      · exact List.prefix_append _ _
      · exact List.prefix_rfl

/-- More bytes only add to the text. -/
theorem hexdump_prefix (first : BitVec 8) {bytes bytes' : List (BitVec 8)} (h : bytes <+: bytes') :
    hexdump first bytes <+: hexdump first bytes' := by
  obtain ⟨more, rfl⟩ := h
  obtain ⟨words, hwords⟩ := words_prefix_push (bytes.foldl Pairing.push ⟨[], false, first.setWidth 16⟩) more
  rw [hexdump, hexdump, List.foldl_append, ← hwords, List.zipIdx_append, List.flatMap_append]
  exact List.prefix_append _ _

theorem toHexdump_cons (b : BitVec 8) (bytes : List (BitVec 8)) :
    ReadLogger.toHexdump (b :: bytes) = hexdump b (b :: bytes) := rfl

theorem toHexdump_prefix {bytes : List (BitVec 8)} {samples : List (Bool × BitVec 32)}
    (h : bytes <+: bytesOf samples) (hne : bytes ≠ []) :
    ReadLogger.toHexdump bytes <+:
      Text.written (fun x => token x.1) (fun x => eighth x.2) samples.zipIdx := by
  cases bytes with
  | nil => exact absurd rfl hne
  | cons b bytes =>
      rw [toHexdump_cons, ← hexdump_bytesOf b samples]
      exact hexdump_prefix b h

/-- Four bytes are put together again. -/
theorem append_segments (w : BitVec 32) :
    (segment 8 w 3 ++ segment 8 w 2 ++ segment 8 w 1 ++ segment 8 w 0 : BitVec 32) = w := by
  simp only [Segments.segment]
  rw [BitVec.extractLsb'_append_extractLsb'_eq_extractLsb' (by rfl),
    BitVec.extractLsb'_append_extractLsb'_eq_extractLsb' (by rfl),
    BitVec.extractLsb'_append_extractLsb'_eq_extractLsb' (by rfl)]
  exact BitVec.extractLsb'_eq_self

theorem samples_bytesOf (samples : List (Bool × BitVec 32)) :
    ReadLogger.samples (bytesOf samples) = samples.map Prod.snd := by
  induction samples with
  | nil => rfl
  | cons x samples ih =>
      rw [bytesOf_cons, ReadLogger.samples, ih, append_segments, List.map_cons]

/-- The whole samples of a part of the bytes are the first ones. -/
theorem samples_prefix : ∀ {bytes bytes' : List (BitVec 8)}, bytes <+: bytes' →
    ReadLogger.samples bytes <+: ReadLogger.samples bytes'
  | [], _, _ | [_], _, _ | [_, _], _, _ | [_, _, _], _, _ => List.nil_prefix
  | b₀ :: b₁ :: b₂ :: b₃ :: bytes, _, ⟨more, hmore⟩ => by
      rw [← hmore, List.cons_append, List.cons_append, List.cons_append, List.cons_append, ReadLogger.samples,
        ReadLogger.samples]
      exact List.cons_prefix_cons.mpr ⟨rfl, samples_prefix ⟨more, rfl⟩⟩

/-! ## Signals -/

theorem toNat_append {m n : ℕ} (x : BitVec m) (y : BitVec n) : (x ++ y).toNat = x.toNat * 2 ^ n + y.toNat := by
  rw [BitVec.toNat_append, ← Nat.shiftLeft_add_eq_or_of_lt y.isLt, Nat.shiftLeft_eq]

theorem toNat_sample (g : Signals) : g.sample.toNat =
    g.crcErrorO.toNat * 2 ^ 31 + g.sofW.toNat * 2 ^ 20 + g.ep3W.toNat * 2 ^ 16 + g.ep2W.toNat * 2 ^ 12 +
      g.ep1W.toNat * 2 ^ 8 + g.pidW.toNat * 2 ^ 4 + g.reW.toNat * 2 ^ 3 + g.stW.toNat := by
  simp only [Signals.sample, Signals.ignW, Signals.sigW, toNat_append, BitVec.toNat_ofBool]
  omega

/-- Some bits of a sample. -/
theorem toNat_field (val : BitVec 32) (start len : ℕ) (hlen : len < 32) :
    ((val >>> start) &&& BitVec.ofNat 32 (2 ^ len - 1)).toNat = val.toNat / 2 ^ start % 2 ^ len := by
  have hmask : (2 ^ len - 1) % 2 ^ 32 = 2 ^ len - 1 := by
    have hle : 2 ^ len ≤ 2 ^ 32 := Nat.pow_le_pow_right (by decide) (by omega)
    exact Nat.mod_eq_of_lt (by omega)
  rw [BitVec.toNat_and, BitVec.toNat_ushiftRight, BitVec.toNat_ofNat, hmask, Nat.and_two_pow_sub_one_eq_mod,
    Nat.shiftRight_eq_div_pow]

/-- The fields of a sample are the signals. -/
structure Shows (val : BitVec 32) (g : Signals) : Prop where
  sof : (ReadLogger.sof val).toNat = g.sofW.toNat
  pid : (ReadLogger.pid val).toNat = g.pidW.toNat
  ep1 : (ReadLogger.ep1 val).toNat = g.ep1W.toNat
  ep2 : (ReadLogger.ep2 val).toNat = g.ep2W.toNat
  ep3 : (ReadLogger.ep3 val).toNat = g.ep3W.toNat
  rx : ReadLogger.rx val = if g.reW then "RX" else "  "
  state : (val &&& 0x07).toNat = g.stW.toNat

theorem shows_sample (g : Signals) : Shows g.sample g := by
  have hall := toNat_sample g
  have hcrc := Bool.toNat_le g.crcErrorO
  have hre := Bool.toNat_le g.reW
  have hsof := g.sofW.isLt
  have hep3 := g.ep3W.isLt
  have hep2 := g.ep2W.isLt
  have hep1 := g.ep1W.isLt
  have hpid := g.pidW.isLt
  have hst := g.stW.isLt
  have hbit : ((g.sample >>> 3) &&& 0x01).toNat = g.reW.toNat :=
    (toNat_field g.sample 3 1 (by decide)).trans (by omega)
  refine ⟨?_, ?_, ?_, ?_, ?_, ?_, ?_⟩
  · exact (toNat_field g.sample 20 11 (by decide)).trans (by omega)
  · exact (toNat_field g.sample 4 4 (by decide)).trans (by omega)
  · exact (toNat_field g.sample 8 4 (by decide)).trans (by omega)
  · exact (toNat_field g.sample 12 4 (by decide)).trans (by omega)
  · exact (toNat_field g.sample 16 4 (by decide)).trans (by omega)
  · have hiff : (g.sample >>> 3) &&& 0x01 = 0x01 ↔ g.reW = true := by
      rw [← BitVec.toNat_inj, hbit]
      cases g.reW <;> decide
    simp only [ReadLogger.rx, hiff]
  · have hfield := toNat_field g.sample 0 3 (by decide)
    rw [BitVec.ushiftRight_zero] at hfield
    exact hfield.trans (by omega)

theorem exists_getElem? {α : Type} (xs : List α) {n : ℕ} (h : n < xs.length) : ∃ x, xs[n]? = some x :=
  ⟨_, List.getElem?_eq_getElem h⟩

/-- The tool knows of twelve states where the core logs a PID, and of thirteen where it logs the state behind
an event of the receiver; a sample has no entry if there are more. -/
theorem isSome_entryOf (g : Signals) :
    (entryOf g.sample).isSome = true ↔ g.pidW.toNat < 12 ∧ g.reW.toNat * 8 + g.stW.toNat < 13 := by
  have hall := toNat_sample g
  have hpid := g.pidW.isLt
  have hst := g.stW.isLt
  have hre := Bool.toNat_le g.reW
  have hctl : (g.sample.extractLsb' 4 4).toNat = g.pidW.toNat := by
    rw [BitVec.extractLsb'_toNat, Nat.shiftRight_eq_div_pow]
    omega
  have hphy : (g.sample.extractLsb' 0 4).toNat = g.reW.toNat * 8 + g.stW.toNat := by
    rw [BitVec.extractLsb'_toNat, Nat.shiftRight_zero]
    omega
  obtain ⟨tok, htok⟩ := exists_getElem? UsbToken.all (g.sample.extractLsb' 20 4).isLt
  obtain ⟨usb, husb⟩ := exists_getElem? UsbState.all (g.sample.extractLsb' 16 2).isLt
  obtain ⟨trn, htrn⟩ := exists_getElem? Transact.all (g.sample.extractLsb' 12 3).isLt
  obtain ⟨blk, hblk⟩ := exists_getElem? BulkState.all (g.sample.extractLsb' 8 3).isLt
  obtain ⟨uls, huls⟩ := exists_getElem? LineState.all
    (Nat.lt_trans (g.sample.extractLsb' 30 1).isLt (by decide))
  rw [entryOf, htok, husb, htrn, hblk, huls, hctl, hphy]
  by_cases hc : g.pidW.toNat < 12
  · obtain ⟨ctl, hctl⟩ := exists_getElem? CtrlState.all hc
    by_cases hp : g.reW.toNat * 8 + g.stW.toNat < 13
    · obtain ⟨phy, hphy⟩ := exists_getElem? PhyState.all hp
      rw [hctl, hphy]
      exact iff_of_true rfl ⟨hc, hp⟩
    · rw [hctl, List.getElem?_eq_none (l := PhyState.all) (Nat.le_of_not_lt hp)]
      exact iff_of_false Bool.false_ne_true fun h => hp h.2
  · rw [List.getElem?_eq_none (l := CtrlState.all) (Nat.le_of_not_lt hc)]
    exact iff_of_false Bool.false_ne_true fun h => hc h.1

/-! ## What is read -/

/-- The frames have eight samples. -/
def Eights (log : List (Bool × BitVec 32)) : Prop :=
  ∀ k x, log[k]? = some x → x.1 = decide (k % 8 = 7)

theorem written_eights {log : List (Bool × BitVec 32)} (k : ℕ)
    (h : ∀ j x, log[j]? = some x → x.1 = decide ((k + j) % 8 = 7)) :
    Text.written (fun x => token x.1) (fun x => eighth x.2) (log.zipIdx k) = Text.written token stop log := by
  induction log generalizing k with
  | nil => rfl
  | cons x log ih =>
      have hstop : eighth k = stop x := by
        rw [stop, h 0 x rfl, eighth]
        exact if_congr (by simp) rfl rfl
      have hrest := ih (k + 1) fun j y hy => by
        rw [h (j + 1) y hy, Nat.add_right_comm, Nat.add_assoc]
      rw [List.zipIdx_cons, Text.written_cons, Text.written_cons, hrest, hstop]

theorem readable_eighth : Text.Readable isSpace (fun x : (Bool × BitVec 32) × ℕ => token x.1)
    fun x => eighth x.2 := by
  have hread := readable_token stop isSpace_stop
  refine ⟨fun x => hread.token_ne x.1, fun x => hread.token_sep x.1, fun x => ?_⟩
  show isSpace (if x.2 % 8 = 7 then '\n' else ' ') = true
  split <;> rfl

theorem map_token_zipIdx (log : List (Bool × BitVec 32)) :
    (log.zipIdx.map fun x => token x.1).map (fun word => decodeTelemetry (toTokens word)) =
      log.map fun x => entryOf x.2 := by
  have hfst : (log.zipIdx.map Prod.fst).map token = log.map token := by rw [List.zipIdx_map_fst]
  rw [List.map_map] at hfst
  exact (congrArg _ hfst).trans (map_token log)

theorem parseTelemetry_eighth (log : List (Bool × BitVec 32)) :
    parseTelemetry (Text.written (fun x => token x.1) (fun x => eighth x.2) log.zipIdx) =
      log.map fun x => entryOf x.2 := by
  rw [parseTelemetry_eq, readable_eighth.wordsBy_written, map_token_zipIdx]

/-- What the driver makes of some bytes of a log: samples, a text for the tool, and the text on the line. -/
structure DriverReads (log : List (Bool × BitVec 32)) (bytes : List (BitVec 8)) : Prop where
  samples : ReadLogger.samples bytes <+: log.map Prod.snd
  entries : (parseTelemetry (ReadLogger.toHexdump bytes)).dropLast <+: log.map fun x => entryOf x.2
  text : Eights log → ReadLogger.toHexdump bytes <+: fileOf ((dumpOf log).map Prod.snd)
  telemetry : Telemetry.toHexdump bytes = some (ReadLogger.toHexdump bytes)

/-- Of a log of signals, the driver reads the samples from the front of its bytes, and all from all of them;
its text has the same entries for the tool as the text on the line, and is that text if the frames have eight
samples. -/
theorem driverReads (signals : List (Bool × Signals)) {bytes : List (BitVec 8)} (hne : bytes ≠ [])
    (h : bytes <+: bytesOf (signals.map fun x => (x.1, x.2.sample))) :
    let log := signals.map fun x => (x.1, x.2.sample)
    DriverReads log bytes ∧ List.Forall₂ (fun x y => Shows x.2 y.2) log signals ∧
      ReadLogger.samples (bytesOf log) = log.map Prod.snd ∧
        parseTelemetry (ReadLogger.toHexdump (bytesOf log)) =
          parseTelemetry (fileOf ((dumpOf log).map Prod.snd)) := by
  intro log
  have htext := toHexdump_prefix h hne
  refine ⟨⟨?_, ?_, fun heights => ?_, ?_⟩, ?_, samples_bytesOf log, ?_⟩
  · exact samples_bytesOf log ▸ samples_prefix h
  · rw [parseTelemetry_eq, ← List.map_dropLast, ← map_token_zipIdx]
    exact (readable_eighth.wordsBy_of_written htext).map _
  · rw [fileOf_dump, ← written_eights 0 fun j x hx => by rw [heights j x hx, Nat.zero_add]]
    exact htext
  · cases bytes with
    | nil => exact absurd rfl hne
    | cons b bytes => rw [toHexdump_cons, Telemetry.toHexdump]
  · exact List.forall₂_map_left_iff.mpr (List.forall₂_same.mpr fun x _ => shows_sample x.2)
  · have hdump : ReadLogger.toHexdump (bytesOf log) =
        Text.written (fun x => token x.1) (fun x => eighth x.2) log.zipIdx := by
      cases hbytes : bytesOf log with
      | nil => exact absurd (List.prefix_nil.mp (hbytes ▸ h)) hne
      | cons b bytes =>
          rw [toHexdump_cons, ← hbytes]
          exact hexdump_bytesOf b log
    rw [hdump, fileOf_dump, parseTelemetry_eighth]
    exact (parseTelemetry_written isSpace_stop log).symm

/-- A reset, and an OUT token for the third endpoint. -/
def twoSignals : List (Bool × Signals) :=
  [(false, ⟨0, 0, 0, 0, false, 0, false, 0⟩), (false, ⟨4, 0, 0, 1, true, 1, false, 77⟩)]

/-- The last byte has not been read yet. -/
theorem driverReads_two :
    let log := twoSignals.map fun x => (x.1, x.2.sample)
    DriverReads log ((bytesOf log).take 7) ∧ List.Forall₂ (fun x y => Shows x.2 y.2) log twoSignals ∧
      ReadLogger.samples (bytesOf log) = log.map Prod.snd ∧
        parseTelemetry (ReadLogger.toHexdump (bytesOf log)) =
          parseTelemetry (fileOf ((dumpOf log).map Prod.snd)) :=
  driverReads twoSignals (by decide) (List.take_prefix 7 _)

end MiscVerilogCores.UsbUlpiCore
