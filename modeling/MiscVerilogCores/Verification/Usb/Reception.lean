import MiscVerilogCores.Library.Clocked
import MiscVerilogCores.Model.UlpiDecoder
import MiscVerilogCores.Verification.Usb.Crc

/-! # Receiving a packet

The registers of the decoder as functions of the bytes of the packet that is on its way: which
of them was the first to look like a PID, and what has followed it. -/

namespace MiscVerilogCores.UlpiDecoder

open Clocked Usb

/-! ## The cycles of a packet -/

/-- The PHY keeps receiving: it hands over a byte, or an RX CMD with `RxActive` set. -/
structure Receiving (i : Inputs) : Prop where
  reset : i.reset = false
  dir : i.ulpiDir = true
  active : i.ulpiNxt = false → i.ulpiData.extractLsb' 4 2 = rxActive

/-- The packet ends with an RX CMD without `RxActive`, or `dir` falls. -/
structure Ending (i : Inputs) : Prop where
  reset : i.reset = false
  nxt : i.ulpiNxt = false
  ends : i.ulpiDir = true → i.ulpiData.extractLsb' 4 2 ≠ rxActive

/-- The bytes handed over in some cycles. -/
def bytes (is : List Inputs) : List (BitVec 8) :=
  (is.filter Inputs.ulpiNxt).map Inputs.ulpiData

/-! ## What the decoder makes of the bytes -/

/-- The first byte that looks like a PID, and the bytes behind it. -/
def afterPid : List (BitVec 8) → Option (BitVec 8 × List (BitVec 8))
  | [] => none
  | b :: bs => if isPid b then some (b, bs) else afterPid bs

/-- The two registers that the bytes are shifted through. -/
def shifted (regs : BitVec 8 × BitVec 8) (bs : List (BitVec 8)) : BitVec 8 × BitVec 8 :=
  bs.foldl (fun regs b => (regs.2, b)) regs

/-- A byte that looks like the PID of a start of frame, as far as `sof_q` is concerned. -/
def looksSof (b : BitVec 8) : Bool := isPid b && decide (pidKind (pidOf b) = tokSof)

/-- `sof_q`, in a packet with the PID byte `p`: a token keeps the bytes behind it from setting it. -/
def sofMark (p : BitVec 8) (rest : List (BitVec 8)) : Bool :=
  looksSof p || (!isToken (pidOf p) && rest.any looksSof)

theorem afterPid_concat (bs : List (BitVec 8)) (b : BitVec 8) :
    afterPid (bs ++ [b]) =
      match afterPid bs with
      | some (p, rest) => some (p, rest ++ [b])
      | none => if isPid b then some (b, []) else none := by
  induction bs with
  | nil => rfl
  | cons b' bs ih =>
      by_cases hb : isPid b' = true
      · simp [afterPid, hb]
      · simp [afterPid, hb, ih]

/-! ## Registers -/

/-- No PID has been seen since the last packet. -/
structure Hunting (s : State) : Prop where
  cyc : s.cycQ = false
  tok : s.tokQ = false
  hsk : s.hskQ = false
  sof : s.sofQ = false
  stb : s.stbQ = false

/-- The byte `p` was taken for the PID of the packet, and `rest` came behind it. -/
structure Locked (s : State) (p : BitVec 8) (rest : List (BitVec 8)) : Prop where
  cyc : s.cycQ = true
  tok : s.tokQ = isToken (pidOf p)
  hsk : s.hskQ = isHandshake (pidOf p)
  sof : s.sofQ = sofMark p rest
  tuser : s.tuser = pidOf p
  crc : s.crc16Q = crc16s rest
  stb : s.stbQ = !rest.isEmpty
  vld : s.vldQ = decide (2 ≤ rest.length)

section Step

variable {s : State} {i : Inputs} {p : BitVec 8} {rest : List (BitVec 8)}

theorem Receiving.rxEndW (h : Receiving i) : rxEndW i = false := by
  cases hn : i.ulpiNxt
  · simp [UlpiDecoder.rxEndW, h.dir, hn, h.active hn]
  · simp [UlpiDecoder.rxEndW, h.dir, hn]

theorem Ending.rxEndW (h : Ending i) : rxEndW i = true := by
  cases hd : i.ulpiDir
  · simp [UlpiDecoder.rxEndW, hd]
  · simp [UlpiDecoder.rxEndW, hd, h.nxt, h.ends hd]

theorem pidVldW_eq (h : Receiving i) (hd : s.dirQ = true) :
    pidVldW s i = (i.ulpiNxt && isPid i.ulpiData) := by
  simp [pidVldW, h.dir, hd]

theorem Hunting.step (h : Hunting s) (hi : Receiving i) (hd : s.dirQ = true)
    (hpid : (i.ulpiNxt && isPid i.ulpiData) = false) : Hunting (UlpiDecoder.step s i) := by
  rw [← pidVldW_eq hi hd] at hpid
  refine ⟨?_, ?_, ?_, ?_, ?_⟩ <;>
    simp [UlpiDecoder.step, sofNext, stbNext, hi.reset, hi.rxEndW, hpid, h.cyc, h.tok, h.hsk, h.sof]

theorem Hunting.lock (h : Hunting s) (hi : Receiving i) (hd : s.dirQ = true)
    (hn : i.ulpiNxt = true) (hpid : isPid i.ulpiData = true) :
    Locked (UlpiDecoder.step s i) i.ulpiData [] := by
  have hvld : pidVldW s i = true := by rw [pidVldW_eq hi hd, hn, hpid]; rfl
  refine ⟨?_, ?_, ?_, ?_, ?_, ?_, ?_, ?_⟩ <;>
    simp [UlpiDecoder.step, sofNext, stbNext, hi.reset, hi.rxEndW, hi.dir, hd, hn, hpid, hvld, h.cyc, h.tok, h.hsk,
      h.sof, h.stb, rxPidW, istokenW, sofMark, looksSof, crc16s]

/-- An RX CMD leaves the registers of the packet as they are. -/
theorem Locked.command (h : Locked s p rest) (hi : Receiving i) (hd : s.dirQ = true)
    (hn : i.ulpiNxt = false) : Locked (UlpiDecoder.step s i) p rest := by
  have hvld : pidVldW s i = false := by rw [pidVldW_eq hi hd, hn]; rfl
  refine ⟨?_, ?_, ?_, ?_, ?_, ?_, ?_, ?_⟩ <;>
    simp [UlpiDecoder.step, sofNext, stbNext, hi.reset, hi.rxEndW, hn, hvld, h.cyc, h.tok, h.hsk,
      h.sof, h.tuser, h.crc, h.stb, h.vld]

theorem sofMark_concat (p : BitVec 8) (rest : List (BitVec 8)) (b : BitVec 8) :
    sofMark p (rest ++ [b]) = (sofMark p rest || (!isToken (pidOf p) && looksSof b)) := by
  simp only [sofMark, List.any_append, List.any_cons, List.any_nil, Bool.or_false]
  cases looksSof p <;> cases isToken (pidOf p) <;> simp

theorem Locked.byte (h : Locked s p rest) (hi : Receiving i) (hd : s.dirQ = true)
    (hn : i.ulpiNxt = true) : Locked (UlpiDecoder.step s i) p (rest ++ [i.ulpiData]) := by
  have hvld : pidVldW s i = isPid i.ulpiData := by rw [pidVldW_eq hi hd, hn, Bool.true_and]
  have hcrc : crc16s (rest ++ [i.ulpiData]) = crc16 i.ulpiData (crc16s rest) := by
    rw [crc16s, List.foldl_concat]
    rfl
  have hlen : decide (2 ≤ (rest ++ [i.ulpiData]).length) = !rest.isEmpty := by
    cases rest <;> simp
  refine ⟨?_, ?_, ?_, ?_, ?_, ?_, ?_, ?_⟩
  · simp [UlpiDecoder.step, hi.reset, hi.rxEndW, hvld, h.cyc]
  · simp [UlpiDecoder.step, hi.reset, hi.rxEndW, hvld, h.cyc, h.tok]
  · simp [UlpiDecoder.step, hi.reset, hi.rxEndW, hvld, h.cyc, h.hsk]
  · rw [sofMark_concat, ← h.sof, ← h.tok]
    simp only [UlpiDecoder.step, sofNext, hi.reset, hi.rxEndW, hvld, looksSof, rxPidW]
    cases s.tokQ <;> cases isPid i.ulpiData <;> cases s.sofQ <;> simp
  · simp [UlpiDecoder.step, hi.reset, hvld, h.cyc, h.tuser]
  · simp [UlpiDecoder.step, h.cyc, hn, hcrc, crc16W, h.crc]
  · simp [UlpiDecoder.step, stbNext, hi.reset, hi.dir, hd, hn, h.cyc]
  · rw [hlen]
    simp [UlpiDecoder.step, hi.reset, hi.rxEndW, hn, h.stb]

/-- The bytes are shifted through two registers. -/
theorem regs_step (hi : Receiving i) (hd : s.dirQ = true) :
    ((UlpiDecoder.step s i).outQ, (UlpiDecoder.step s i).datQ) =
      shifted (s.outQ, s.datQ) (bytes [i]) := by
  cases hn : i.ulpiNxt <;>
    simp [UlpiDecoder.step, datNext, shifted, bytes, hi.reset, hi.rxEndW, hi.dir, hd, hn]

end Step

/-! ## Outputs -/

/-- A beat on the output stream. -/
structure Beat where
  keep : Bool
  last : Bool
  user : BitVec 4
  data : BitVec 8
deriving DecidableEq

/-- The beat on the output port. -/
def beat (s : State) : List Beat :=
  if s.tvalid then [⟨s.tkeep, s.tlast, s.tuser, s.tdata⟩] else []

/-- `tok_recv_o`, `sof_recv_o`, `hsk_recv_o` and `usb_recv_o`. -/
structure Strobes where
  tok : Bool
  sof : Bool
  hsk : Bool
  usb : Bool
deriving DecidableEq

def Strobes.none : Strobes := ⟨false, false, false, false⟩

def Strobes.or (a b : Strobes) : Strobes :=
  ⟨a.tok || b.tok, a.sof || b.sof, a.hsk || b.hsk, a.usb || b.usb⟩

@[simp] theorem Strobes.none_or (a : Strobes) : Strobes.none.or a = a := by
  simp [Strobes.or, Strobes.none]

def strobes (s : State) : Strobes :=
  ⟨s.tokRecvQ, s.sofRecvQ, s.hskRecvQ, s.usbRecvQ⟩

/-- What has been seen of a packet: its bytes, the beats that were put out and the strobes that
were raised. -/
structure Log where
  bytes : List (BitVec 8)
  beats : List Beat
  strobes : Strobes

def Log.start : Log :=
  ⟨[], [], Strobes.none⟩

/-- Registered outputs are seen after the edge. -/
def Log.watch (m : Log) (s : State) (i : Inputs) : Log where
  bytes := m.bytes ++ UlpiDecoder.bytes [i]
  beats := m.beats ++ beat (step s i)
  strobes := m.strobes.or (UlpiDecoder.strobes (step s i))

/-- The beats put out for the packet so far. -/
structure Output (p : BitVec 8) (rest : List (BitVec 8)) (beats : List Beat) : Prop where
  data : (beats.filter Beat.keep).map Beat.data = rest.take (rest.length - 2)
  last : ∀ b ∈ beats, b.last = false
  user : ∀ b ∈ beats, b.user = pidOf p

/-- The decoder, which was in state `s₀` before the packet, while it is on its way. -/
structure Tracks (s₀ s : State) (m : Log) : Prop where
  dir : s.dirQ = true
  regs : (s.outQ, s.datQ) = shifted (s₀.outQ, s₀.datQ) m.bytes
  error : s.crcErrorFlag = s₀.crcErrorFlag
  quiet : m.strobes = Strobes.none
  phase : match afterPid m.bytes with
    | none => Hunting s ∧ m.beats = []
    | some (p, rest) => Locked s p rest ∧ Output p rest m.beats


section Track

variable {s₀ s : State} {i : Inputs} {m : Log} {p : BitVec 8} {rest : List (BitVec 8)}
  {beats : List Beat}

theorem afterPid_eq_some {bs : List (BitVec 8)} (h : afterPid bs = some (p, rest)) :
    ∃ junk, bs = junk ++ p :: rest ∧ isPid p = true ∧ ∀ b ∈ junk, isPid b = false := by
  induction bs with
  | nil => simp [afterPid] at h
  | cons b bs ih =>
      by_cases hb : isPid b = true
      · obtain ⟨rfl, rfl⟩ : b = p ∧ bs = rest := by simpa [afterPid, hb] using h
        exact ⟨[], rfl, hb, by simp⟩
      · obtain ⟨junk, rfl, hp, hjunk⟩ := ih (by simpa [afterPid, hb] using h)
        exact ⟨b :: junk, rfl, hp, by simpa [hb] using hjunk⟩

theorem shifted_concat (regs : BitVec 8 × BitVec 8) (bs : List (BitVec 8)) (b : BitVec 8) :
    shifted regs (bs ++ [b]) = ((shifted regs bs).2, b) := by
  simp [shifted]

theorem beat_step (hr : i.reset = false) :
    beat (step s i) =
      if s.cycQ then [⟨emits s i, rxEndW i, (step s i).tuser, (step s i).tdata⟩] else [] := by
  cases hc : s.cycQ <;> simp [beat, step, hr, hc]

theorem strobes_step (hi : Receiving i) : strobes (step s i) = Strobes.none := by
  simp [strobes, Strobes.none, step, tokenEnds, hi.rxEndW]

theorem Output.concat (h : Output p rest beats) {rest' : List (BitVec 8)} {b : Beat}
    (hlast : b.last = false) (huser : b.user = pidOf p)
    (hdata : rest'.take (rest'.length - 2) =
      rest.take (rest.length - 2) ++ if b.keep then [b.data] else []) :
    Output p rest' (beats ++ [b]) := by
  refine ⟨?_, fun b' hb => ?_, fun b' hb => ?_⟩
  · rw [hdata, List.filter_append, List.map_append, h.data]
    cases hk : b.keep <;> simp [hk]
  · rcases List.mem_append.mp hb with hb | hb
    · exact h.last b' hb
    · rw [List.mem_singleton.mp hb, hlast]
  · rcases List.mem_append.mp hb with hb | hb
    · exact h.user b' hb
    · rw [List.mem_singleton.mp hb, huser]

/-- The beat after a cycle inside a packet. -/
theorem Locked.beat_step (h : Locked s p rest) (hi : Receiving i) :
    beat (step s i) = [⟨emits s i, false, pidOf p, if emits s i then s.outQ else i.undef⟩] := by
  have huser : (step s i).tuser = pidOf p := by simp [step, hi.reset, h.cyc, h.tuser]
  have hdata : (step s i).tdata = if emits s i then s.outQ else i.undef := by
    simp [step, hi.reset]
  rw [UlpiDecoder.beat_step hi.reset, h.cyc, if_pos rfl, hi.rxEndW, huser, hdata]

theorem Locked.output_command (h : Locked s p rest) (ho : Output p rest beats) (hi : Receiving i)
    (hn : i.ulpiNxt = false) : Output p rest (beats ++ beat (step s i)) := by
  have hno : emits s i = false := by simp [emits, hn]
  rw [h.beat_step hi, hno]
  exact ho.concat rfl rfl (by simp)

/-- A byte pushes out the one two places before it. -/
theorem Locked.output_byte (h : Locked s p rest) (ho : Output p rest beats) (hi : Receiving i)
    (hn : i.ulpiNxt = true) {regs : BitVec 8 × BitVec 8} {junk : List (BitVec 8)}
    (hregs : (s.outQ, s.datQ) = shifted regs (junk ++ p :: rest)) :
    Output p (rest ++ [i.ulpiData]) (beats ++ beat (step s i)) := by
  have hemits : emits s i = decide (2 ≤ rest.length) := by
    rw [emits, hn, h.stb, h.vld]
    cases rest <;> simp
  rw [h.beat_step hi]
  apply ho.concat rfl rfl
  rcases List.eq_nil_or_concat' rest with rfl | ⟨rest, x, rfl⟩
  · simp [hemits]
  rcases List.eq_nil_or_concat' rest with rfl | ⟨rest, y, rfl⟩
  · simp [hemits]
  · have hout : s.outQ = y := by
      rw [← List.cons_append, ← List.append_assoc, shifted_concat, ← List.cons_append,
        ← List.append_assoc, shifted_concat] at hregs
      exact congrArg Prod.fst hregs
    have hyes : emits s i = true := by simp [hemits]
    rw [hyes, if_pos rfl, if_pos rfl, hout]
    simp [List.take_append]

theorem Tracks.next (h : Tracks s₀ s m) (hi : Receiving i) :
    Tracks s₀ (step s i) (m.watch s i) := by
  have hregs : ((step s i).outQ, (step s i).datQ) =
      shifted (s₀.outQ, s₀.datQ) (m.bytes ++ bytes [i]) := by
    rw [regs_step hi h.dir, h.regs]
    simp [shifted]
  refine ⟨by simp [step, hi.dir], hregs, ?_, ?_, ?_⟩
  · simp [step, flagsNext, hi.reset, hi.rxEndW, h.error]
  · simp only [Log.watch]
    rw [h.quiet, strobes_step hi]
    rfl
  · have hphase := h.phase
    simp only [Log.watch]
    rcases hafter : afterPid m.bytes with _ | ⟨p, rest⟩ <;> simp only [hafter] at hphase
    · obtain ⟨hhunt, hbeats⟩ := hphase
      have hnobeat : beat (step s i) = [] := by simp [beat_step hi.reset, hhunt.cyc]
      rw [hbeats, hnobeat]
      cases hn : i.ulpiNxt
      · have hbytes : bytes [i] = [] := by simp [bytes, hn]
        simp only [hbytes, List.append_nil, hafter]
        exact ⟨hhunt.step hi h.dir (by simp [hn]), trivial⟩
      · have hbytes : bytes [i] = [i.ulpiData] := by simp [bytes, hn]
        simp only [hbytes, afterPid_concat, hafter]
        cases hp : isPid i.ulpiData
        · exact ⟨hhunt.step hi h.dir (by simp [hp]), rfl⟩
        · exact ⟨hhunt.lock hi h.dir hn hp, by simp, by simp, by simp⟩
    · obtain ⟨hlock, hout⟩ := hphase
      cases hn : i.ulpiNxt
      · have hbytes : bytes [i] = [] := by simp [bytes, hn]
        simp only [hbytes, List.append_nil, hafter]
        exact ⟨hlock.command hi h.dir hn, hlock.output_command hout hi hn⟩
      · have hbytes : bytes [i] = [i.ulpiData] := by simp [bytes, hn]
        obtain ⟨junk, hjunk, -⟩ := afterPid_eq_some hafter
        simp only [hbytes, afterPid_concat, hafter]
        exact ⟨hlock.byte hi h.dir hn, hlock.output_byte hout hi hn (hjunk ▸ h.regs)⟩

end Track

/-! ## The end of a packet -/

/-- `rx_crc5_w == dat_q[7:3]`, of the two registers behind the bytes. -/
def tokenOk (regs : BitVec 8 × BitVec 8) : Bool :=
  crc5 ((regs.2.setWidth 3 : BitVec 3) ++ regs.1) == regs.2.extractLsb' 3 5

/-- The strobes raised at the end of a packet in which `p` was taken for the PID. -/
def lockedStrobes (regs : BitVec 8 × BitVec 8) (p : BitVec 8) (rest : List (BitVec 8)) : Strobes where
  tok := tokenOk regs && isToken (pidOf p) && !sofMark p rest
  sof := tokenOk regs && sofMark p rest
  hsk := isHandshake (pidOf p)
  usb := !isToken (pidOf p) && crc16s rest == 0x800d

/-- The strobes raised for a packet of these bytes, with `regs` in the two registers before. -/
def packetStrobes (regs : BitVec 8 × BitVec 8) (bs : List (BitVec 8)) : Strobes :=
  match afterPid bs with
  | none => Strobes.none
  | some (p, rest) => lockedStrobes (shifted regs bs) p rest

section End

variable {s₀ s : State} {i : Inputs} {m : Log} {p : BitVec 8} {rest : List (BitVec 8)}

theorem Hunting.strobes_step (h : Hunting s) (i : Inputs) :
    strobes (UlpiDecoder.step s i) = Strobes.none := by
  simp [strobes, Strobes.none, UlpiDecoder.step, tokenEnds, h.cyc, h.hsk]

theorem Locked.strobes_step (h : Locked s p rest) (hi : Ending i) :
    strobes (step s i) = lockedStrobes (s.outQ, s.datQ) p rest := by
  simp [strobes, lockedStrobes, step, tokenEnds, hi.rxEndW, h.cyc, h.tok, h.hsk, h.sof, h.crc,
    crc5Ok, tokenW, tokenOk, crc16Ok]

theorem Ending.hunting (hi : Ending i) : Hunting (step s i) := by
  have hno : pidVldW s i = false := by simp [pidVldW, hi.nxt]
  refine ⟨?_, ?_, ?_, ?_, ?_⟩ <;>
    simp [step, sofNext, stbNext, hi.reset, hi.rxEndW, hi.nxt, hno]

end End

/-! ## Whole packets -/

/-- No packet is on its way unless `cyc_q` says so. -/
def Clean (s : State) : Prop :=
  s.cycQ = false → Hunting s

theorem rxEndW_of_pidVldW {s : State} {i : Inputs} (h : pidVldW s i = true) :
    rxEndW i = false := by
  simp only [pidVldW, Bool.and_eq_true] at h
  simp [rxEndW, h.1.1.1, h.1.1.2]

theorem Clean.next {s : State} (h : Clean s) (i : Inputs) : Clean (step s i) := by
  intro hcyc
  by_cases hr : i.reset = true
  · refine ⟨hcyc, ?_, ?_, ?_, ?_⟩ <;> simp [step, sofNext, stbNext, hr]
  by_cases hend : rxEndW i = true
  · have hno : pidVldW s i = false := by
      by_contra hvld
      simp [rxEndW_of_pidVldW (by simpa using hvld)] at hend
    have hnodata : (i.ulpiDir && i.ulpiNxt) = false := by
      cases hd : i.ulpiDir <;> cases hn : i.ulpiNxt <;> simp [rxEndW, hd, hn] at hend ⊢
    refine ⟨hcyc, ?_, ?_, ?_, ?_⟩ <;>
      simp [step, sofNext, stbNext, hr, hend, hno, Bool.and_assoc, hnodata]
  · have hquiet : s.cycQ = false ∧ pidVldW s i = false := by
      cases hvld : pidVldW s i <;> simp [step, hr, hend, hvld] at hcyc ⊢
      exact hcyc
    have hidle := h hquiet.1
    refine ⟨hcyc, ?_, ?_, ?_, ?_⟩ <;>
      simp [step, sofNext, stbNext, hr, hend, hquiet.1, hquiet.2, hidle.tok, hidle.hsk, hidle.sof]

/-- The state that a run from reset has reached. -/
def reached (s : State) (i : Inputs) (is : List Inputs) : State :=
  run step (afterReset s i) is

theorem clean_reached (s : State) (i : Inputs) (is : List Inputs) : Clean (reached s i is) := by
  have hreset : Clean (afterReset s i) := by
    intro hcyc
    refine ⟨hcyc, ?_, ?_, ?_, ?_⟩ <;> simp [afterReset, step, sofNext, stbNext]
  exact run_invariant Clean (fun s i h _ => h.next i) hreset
    (along_of_forall (fun _ _ => trivial) _ is)

/-- The state and the log after some cycles of a packet. -/
def packet (s : State) (is : List Inputs) : State × Log :=
  run (watched step Log.watch) (s, Log.start) is

/-- The decoder is idle and `dir` is high: the next cycle is the first of a packet. -/
structure Start (s : State) : Prop where
  cyc : s.cycQ = false
  dir : s.dirQ = true

section Packets

variable {s : State} {mid : List Inputs} {last : Inputs}

theorem tracks_start (hs : Start s) (hclean : Clean s) : Tracks s s Log.start :=
  ⟨hs.dir, rfl, rfl, rfl, hclean hs.cyc, rfl⟩

theorem tracks_packet (hs : Start s) (hclean : Clean s) (hmid : ∀ i ∈ mid, Receiving i) :
    Tracks s (packet s mid).1 (packet s mid).2 := by
  let P (q : State × Log) : Prop := Tracks s q.1 q.2
  have hall : Along (watched step Log.watch) (fun _ i => Receiving i) (s, Log.start) mid :=
    along_of_inputs _ _ hmid
  exact run_invariant P (fun q i h hi => h.next hi) (tracks_start hs hclean) hall

theorem bytes_packet (s : State) (is : List Inputs) : (packet s is).2.bytes = bytes is := by
  have hgen : ∀ q : State × Log,
      (run (watched step Log.watch) q is).2.bytes = q.2.bytes ++ bytes is := by
    induction is with
    | nil => simp [bytes]
    | cons i is ih =>
        intro q
        rw [run_cons, ih]
        simp only [watched_snd, Log.watch, List.append_assoc]
        cases hn : i.ulpiNxt <;> simp [bytes, hn]
  exact hgen _

theorem packet_concat (s : State) (mid : List Inputs) (last : Inputs) :
    packet s (mid ++ [last]) =
      (step (packet s mid).1 last, (packet s mid).2.watch (packet s mid).1 last) := by
  rw [packet, run_append]
  rfl

/-- The strobes of a packet depend on its bytes, and on what was in the byte registers before. -/
theorem strobes_packet (hs : Start s) (hclean : Clean s) (hmid : ∀ i ∈ mid, Receiving i)
    (hlast : Ending last) :
    (packet s (mid ++ [last])).2.strobes = packetStrobes (s.outQ, s.datQ) (bytes mid) := by
  have htrack := tracks_packet hs hclean hmid
  have hphase := htrack.phase
  have hregs := htrack.regs
  rw [bytes_packet] at hphase hregs
  rw [packet_concat, Log.watch, htrack.quiet, Strobes.none_or, packetStrobes]
  rcases hafter : afterPid (bytes mid) with _ | ⟨p, rest⟩ <;> simp only [hafter] at hphase ⊢
  · exact hphase.1.strobes_step last
  · rw [hphase.1.strobes_step hlast, hregs]

end Packets

end MiscVerilogCores.UlpiDecoder
