import MiscVerilogCores.Verification.Usb.Grammar
import Mathlib.Data.List.ReduceOption
import Mathlib.Tactic.Tauto

/-! # Tokens, and the data packets behind them

What the decoder reports of a token, and what it shows of the packets of a transaction to the
logic that follows the output stream. -/

namespace MiscVerilogCores.UlpiDecoder

open Clocked Usb

/-! ## The bytes on the output stream -/

/-- The byte on the output port. -/
def kept (s : State) : Option (BitVec 8) :=
  if s.tvalid && s.tkeep then some s.tdata else none

theorem toList_kept (s : State) : (kept s).toList = ((beat s).filter Beat.keep).map Beat.data := by
  cases hv : s.tvalid <;> cases hk : s.tkeep <;> simp [kept, beat, hv, hk]

theorem beats_packet (s : State) (is : List Inputs) :
    ((packet s is).2.beats.filter Beat.keep).map Beat.data =
      emitted step (fun s i => (kept (step s i)).toList) s is := by
  have hgen : ∀ q : State × Log,
      ((run (watched step Log.watch) q is).2.beats.filter Beat.keep).map Beat.data =
        (q.2.beats.filter Beat.keep).map Beat.data ++
          emitted step (fun s i => (kept (step s i)).toList) q.1 is := by
    induction is with
    | nil => simp
    | cons i is ih =>
        intro q
        rw [run_cons, ih]
        simp [Log.watch, toList_kept, List.filter_append, List.map_append]
  exact hgen _

section Edges

variable {s : State} {i : Inputs} {p : BitVec 8} {rest : List (BitVec 8)}

theorem kept_step_of_idle (h : s.cycQ = false) : kept (step s i) = none := by
  simp [kept, step, h]

theorem kept_step_of_no_nxt (h : i.ulpiNxt = false) : kept (step s i) = none := by
  simp [kept, step, emits, h]

theorem Locked.kept_step (h : Locked s p rest) (hlen : rest.length < 2) :
    kept (UlpiDecoder.step s i) = none := by
  have hvld : s.vldQ = false := by
    rw [h.vld]
    simp [hlen]
  simp [kept, UlpiDecoder.step, emits, hvld]

/-- Between packets no PID comes by. -/
theorem Hunting.gap (h : Hunting s) (hno : pidVldW s i = false) : Hunting (UlpiDecoder.step s i) := by
  refine ⟨?_, ?_, ?_, ?_, ?_⟩ <;>
    simp [UlpiDecoder.step, sofNext, stbNext, hno, h.cyc, h.tok, h.hsk, h.sof, h.stb]

end Edges

/-! ## The fields of a token -/

/-- The fields of a token, after the bytes behind its PID. -/
def TokenField (s : State) : List (BitVec 8) → Prop
  | [] => s.lowQ = true
  | [b₀] => s.lowQ = false ∧ s.addrQ = b₀.setWidth 7 ∧ s.endpQ.extractLsb' 0 1 = BitVec.ofBool b₀.msb
  | [b₀, b₁] => s.addrQ = b₀.setWidth 7 ∧ s.endpQ = (b₁.setWidth 3 : BitVec 3) ++ BitVec.ofBool b₀.msb
  | _ => True

section Fields

variable {s₀ s : State} {i : Inputs} {m : Log} {p : BitVec 8} {rest : List (BitVec 8)}

theorem Hunting.fields (h : Hunting s) (hi : Receiving i) (hd : s.dirQ = true)
    (hn : i.ulpiNxt = true) (hpid : isPid i.ulpiData = true)
    (htok : isToken (pidOf i.ulpiData) = true) : TokenField (UlpiDecoder.step s i) [] := by
  have hvld : pidVldW s i = true := by rw [pidVldW_eq hi hd, hn, hpid]; rfl
  simp [TokenField, UlpiDecoder.step, lowNext, hi.reset, h.tok, hvld, istokenW, rxPidW, htok]

theorem Locked.fields (h : Locked s p rest) (hf : TokenField s rest) (hi : Receiving i)
    (htok : isToken (pidOf p) = true) (hsof : looksSof p = false) :
    TokenField (UlpiDecoder.step s i) (rest ++ bytes [i]) := by
  have ht : s.tokQ = true := h.tok.trans htok
  have hs : s.sofQ = false := by rw [h.sof, sofMark, hsof, htok]; rfl
  cases hn : i.ulpiNxt
  · have hlow : (UlpiDecoder.step s i).lowQ = s.lowQ := by simp [UlpiDecoder.step, lowNext, tokenByte, hi.reset, ht, hn]
    have haddr : (UlpiDecoder.step s i).addrQ = s.addrQ := by
      simp [UlpiDecoder.step, tokenField, tokenByte, hi.reset, ht, hn]
    have hendp : (UlpiDecoder.step s i).endpQ = s.endpQ := by
      simp [UlpiDecoder.step, tokenField, tokenByte, hi.reset, ht, hn]
    have hbytes : bytes [i] = [] := by simp [bytes, hn]
    rw [hbytes, List.append_nil]
    rcases rest with _ | ⟨b₀, _ | ⟨b₁, _ | ⟨b₂, rest⟩⟩⟩
    · exact hlow.trans hf
    · exact ⟨hlow.trans hf.1, haddr.trans hf.2.1, hendp ▸ hf.2.2⟩
    · exact ⟨haddr.trans hf.1, hendp.trans hf.2⟩
    · trivial
  · have hbytes : bytes [i] = [i.ulpiData] := by simp [bytes, hn]
    rw [hbytes]
    rcases rest with _ | ⟨b₀, _ | ⟨b₁, rest⟩⟩
    · have hl : s.lowQ = true := hf
      have hendp : (UlpiDecoder.step s i).endpQ =
          s.endpQ.extractLsb' 1 3 ++ BitVec.ofBool i.ulpiData.msb := by
        simp [UlpiDecoder.step, tokenField, tokenByte, hi.reset, ht, hn, hl, hs]
      refine ⟨?_, ?_, ?_⟩
      · simp [UlpiDecoder.step, lowNext, tokenByte, hi.reset, ht, hn, hl]
      · simp [UlpiDecoder.step, tokenField, tokenByte, hi.reset, ht, hn, hl, hs]
      · rw [hendp]
        exact BitVec.extractLsb'_append_eq_right
    · obtain ⟨hl, ha, he⟩ := hf
      refine ⟨?_, ?_⟩
      · simp [UlpiDecoder.step, tokenField, tokenByte, hi.reset, ht, hn, hl, hs, ha]
      · simp [UlpiDecoder.step, tokenField, tokenByte, hi.reset, ht, hn, hl, hs, he]
    · cases rest <;> trivial

/-- An RX CMD, or the fall of `dir`, leaves the fields as they are. -/
theorem Locked.fields_end (h : Locked s p rest) (hi : Ending i) (htok : isToken (pidOf p) = true) :
    (UlpiDecoder.step s i).addrQ = s.addrQ ∧ (UlpiDecoder.step s i).endpQ = s.endpQ := by
  simp [UlpiDecoder.step, tokenField, tokenByte, hi.reset, h.tok.trans htok, hi.nxt]

theorem Tracks.fields (h : Tracks s₀ s m)
    (hf : ∀ rest, afterPid m.bytes = some (p, rest) → TokenField s rest) (hi : Receiving i)
    (htok : isToken (pidOf p) = true) (hsof : looksSof p = false) :
    ∀ rest, afterPid (m.watch s i).bytes = some (p, rest) → TokenField (step s i) rest := by
  intro rest hrest
  have hphase := h.phase
  rw [Log.watch] at hrest
  rcases hafter : afterPid m.bytes with _ | ⟨p', front⟩ <;> simp only [hafter] at hphase
  · cases hn : i.ulpiNxt
    · have hbytes : bytes [i] = [] := by simp [bytes, hn]
      simp [hbytes, hafter] at hrest
    · have hbytes : bytes [i] = [i.ulpiData] := by simp [bytes, hn]
      rw [hbytes, afterPid_concat, hafter] at hrest
      cases hp : isPid i.ulpiData
      · simp [hp] at hrest
      · obtain ⟨rfl, rfl⟩ : i.ulpiData = p ∧ [] = rest := by simpa [hp] using hrest
        exact hphase.1.fields hi h.dir hn hp htok
  · cases hn : i.ulpiNxt
    · have hbytes : bytes [i] = [] := by simp [bytes, hn]
      rw [hbytes, List.append_nil, hafter] at hrest
      obtain ⟨rfl, rfl⟩ : p' = p ∧ front = rest := by simpa using hrest
      simpa [hbytes] using hphase.1.fields (hf front hafter) hi htok hsof
    · have hbytes : bytes [i] = [i.ulpiData] := by simp [bytes, hn]
      rw [hbytes, afterPid_concat, hafter] at hrest
      obtain ⟨rfl, rfl⟩ : p' = p ∧ front ++ [i.ulpiData] = rest := by simpa using hrest
      simpa [hbytes] using hphase.1.fields (hf front hafter) hi htok hsof

end Fields

/-! ## A whole token -/

/-- The bytes of a token for an end-point of a device. -/
def TokenFor (pid : BitVec 4) (addr : BitVec 7) (endp : BitVec 4) (bs : List (BitVec 8)) : Prop :=
  ∃ b₀ b₁, bs = [pidByte pid, b₀, b₁] ∧ TokenChecked b₀ b₁ ∧ b₀.setWidth 7 = addr ∧
    (b₁.setWidth 3 : BitVec 3) ++ BitVec.ofBool b₀.msb = endp

/-- What the decoder shows in the cycle after a token. -/
structure TokenHeard (s : State) (pid : BitVec 4) (addr : BitVec 7) (endp : BitVec 4) : Prop where
  tok : s.tokRecvQ = true
  hsk : s.hskRecvQ = false
  user : s.tuser = pid
  addr : s.addrQ = addr
  endp : s.endpQ = endp
  hunting : Hunting s
  vld : s.vldQ = false

section Token

variable {s : State} {mid : List Inputs} {last : Inputs} {pid : BitVec 4} {addr : BitVec 7}
  {endp : BitVec 4}

theorem packet_fst (s : State) (is : List Inputs) : (packet s is).1 = run step s is :=
  run_watched_fst step Log.watch (s, Log.start) is

theorem bytes_append (is js : List Inputs) : bytes (is ++ js) = bytes is ++ bytes js := by
  simp [bytes]

theorem length_bytes_le (is : List Inputs) : (bytes is).length ≤ is.length := by
  rw [bytes, List.length_map]
  exact List.length_filter_le _ _

theorem fields_packet {p : BitVec 8} (hs : Start s) (hclean : Clean s)
    (hmid : ∀ i ∈ mid, Receiving i) (htok : isToken (pidOf p) = true) (hsof : looksSof p = false) :
    ∀ rest, afterPid (packet s mid).2.bytes = some (p, rest) →
      TokenField (packet s mid).1 rest := by
  let P (q : State × Log) : Prop :=
    Tracks s q.1 q.2 ∧ ∀ rest, afterPid q.2.bytes = some (p, rest) → TokenField q.1 rest
  have hall : Along (watched step Log.watch) (fun _ i => Receiving i) (s, Log.start) mid :=
    along_of_inputs _ _ hmid
  have hstart : P (s, Log.start) :=
    ⟨tracks_start hs hclean, fun rest h => by simp [Log.start, afterPid] at h⟩
  exact (run_invariant P (fun q i h hi => ⟨h.1.next hi, h.1.fields h.2 hi htok hsof⟩) hstart hall).2

theorem not_isHandshake {pid : BitVec 4} (h : isToken pid = true) : isHandshake pid = false := by
  revert pid
  decide

/-- Every token with the right check bits is reported, with its fields. -/
theorem tokenHeard (hs : Start s) (hclean : Clean s) (hmid : ∀ i ∈ mid, Receiving i)
    (hlast : Ending last) (hbytes : TokenFor pid addr endp (bytes mid))
    (htok : isToken pid = true) (hsof : looksSof (pidByte pid) = false) :
    TokenHeard (run step s (mid ++ [last])) pid addr endp := by
  obtain ⟨b₀, b₁, hbytes, hchecked, haddr, hendp⟩ := hbytes
  have htok' : isToken (pidOf (pidByte pid)) = true := by rwa [pidOf_pidByte]
  have htrack := tracks_packet hs hclean hmid
  have hfields := fields_packet hs hclean hmid htok' hsof
  have hphase := htrack.phase
  have hregs := htrack.regs
  have hafter : afterPid (bytes mid) = some (pidByte pid, [b₀, b₁]) := by
    simp [hbytes, afterPid]
  rw [bytes_packet] at hphase hregs hfields
  simp only [hafter] at hphase
  obtain ⟨haddr', hendp'⟩ := hfields _ hafter
  have hok : tokenOk ((packet s mid).1.outQ, (packet s mid).1.datQ) = true := by
    have hshift : shifted (s.outQ, s.datQ) (bytes mid) = (b₀, b₁) := by
      rw [hbytes]
      rfl
    rw [hregs, hshift]
    exact (tokenOk_iff b₀ b₁).mpr hchecked
  have hmark : sofMark (pidByte pid) [b₀, b₁] = false := by
    rw [sofMark, hsof, htok']
    rfl
  have hhsk : isHandshake (pidOf (pidByte pid)) = false := not_isHandshake htok'
  have hrun : run step s (mid ++ [last]) = step (packet s mid).1 last := by
    rw [run_append, packet_fst]
    rfl
  obtain ⟨hlock, -⟩ := hphase
  have hstrobes := hlock.strobes_step hlast
  obtain ⟨ha, he⟩ := hlock.fields_end hlast htok'
  rw [hrun]
  refine ⟨?_, ?_, ?_, ?_, ?_, hlast.hunting, ?_⟩
  · exact (congrArg Strobes.tok hstrobes).trans (by simp [lockedStrobes, hok, htok, hmark])
  · exact (congrArg Strobes.hsk hstrobes).trans hhsk
  · simp [step, hlast.reset, hlock.cyc, hlock.tuser]
  · exact ha.trans (haddr'.trans haddr)
  · exact he.trans (hendp'.trans hendp)
  · simp [step, hlast.rxEndW]

/-- A token puts out no bytes. -/
theorem kept_token (hs : Start s) (hclean : Clean s) (hmid : ∀ i ∈ mid, Receiving i)
    (hlast : Ending last) (hbytes : TokenFor pid addr endp (bytes mid)) :
    Along step (fun s i => kept (step s i) = none) s (mid ++ [last]) := by
  obtain ⟨b₀, b₁, hbytes, -⟩ := hbytes
  rw [along_append]
  refine ⟨along_of_edges fun pre i post hsplit => ?_, kept_step_of_no_nxt hlast.nxt, trivial⟩
  have hpre : ∀ j ∈ pre, Receiving j := fun j hj => hmid j (by simp [hsplit, hj])
  have htrack := tracks_packet hs hclean hpre
  have hphase := htrack.phase
  rw [bytes_packet] at hphase
  rw [← packet_fst]
  cases hn : i.ulpiNxt
  · exact kept_step_of_no_nxt hn
  rcases hafter : afterPid (bytes pre) with _ | ⟨p, rest⟩ <;> simp only [hafter] at hphase
  · exact kept_step_of_idle hphase.1.cyc
  · apply hphase.1.kept_step
    obtain ⟨junk, hjunk, -⟩ := afterPid_eq_some hafter
    have hlen := congrArg List.length hbytes
    have hi : bytes [i] = [i.ulpiData] := by simp [bytes, hn]
    rw [hsplit, bytes_append, ← List.singleton_append, bytes_append, hi, hjunk] at hlen
    simp at hlen
    omega

end Token

/-! ## Behind a token -/

/-- No packet begins. -/
structure Pausing (s : State) (i : Inputs) : Prop where
  reset : i.reset = false
  quiet : pidVldW s i = false

/-- An edge at which nothing is reported that would begin or end a transaction, and only the
packet ID `pid` is shown for a packet. -/
structure Behind (pid : BitVec 4) (s : State) (i : Inputs) : Prop where
  tok : (step s i).tokRecvQ = false
  hsk : (step s i).hskRecvQ = false
  user : (step s i).cycQ = true → (step s i).tuser = pid

/-- Between packets, with nothing on the output port. -/
structure Between (s : State) : Prop where
  hunting : Hunting s
  kept : kept s = none

/-- The bytes on the output port in the cycles of a run. -/
def shown (s : State) (is : List Inputs) : List (Option (BitVec 8)) :=
  emitted step (fun s _ => [kept s]) s is

section Behind

variable {s : State} {i : Inputs} {is mid : List Inputs} {last : Inputs} {pid : BitVec 4}
  {rest : List (BitVec 8)}

theorem reduceOption_emitted (f : State → Inputs → Option (BitVec 8)) (s : State)
    (is : List Inputs) :
    (emitted step (fun s i => [f s i]) s is).reduceOption =
      emitted step (fun s i => (f s i).toList) s is := by
  induction is generalizing s with
  | nil => rfl
  | cons i is ih =>
      rw [emitted_cons, emitted_cons, List.reduceOption_append, ih]
      cases f s i <;> rfl

theorem Between.next (h : Between s) (hi : Pausing s i) : Between (step s i) :=
  ⟨h.hunting.gap hi.quiet, kept_step_of_idle h.hunting.cyc⟩

theorem Between.behind (h : Between s) (hi : Pausing s i) (pid : BitVec 4) : Behind pid s i := by
  have hstrobes := h.hunting.strobes_step i
  refine ⟨congrArg Strobes.tok hstrobes, congrArg Strobes.hsk hstrobes, fun hcyc => ?_⟩
  simp [(h.hunting.gap hi.quiet).cyc] at hcyc

theorem Between.run (h : Between s) (his : Along step Pausing s is) (pid : BitVec 4) :
    Between (run step s is) ∧ (shown s is).reduceOption = [] ∧
      Along step (Behind pid) s is := by
  induction is generalizing s with
  | nil => exact ⟨h, rfl, trivial⟩
  | cons i is ih =>
      obtain ⟨hend, hshown, hbehind⟩ := ih (h.next his.1) his.2
      refine ⟨hend, ?_, h.behind his.1 pid, hbehind⟩
      rw [shown, emitted_cons, h.kept]
      exact hshown

/-- A data packet shows its payload. -/
theorem data_behind (hs : Start s) (hclean : Clean s) (hkept : kept s = none)
    (hmid : ∀ i ∈ mid, Receiving i) (hlast : Ending last) (hpid : pidClass pid = pidData)
    (hbytes : bytes mid = pidByte pid :: rest) :
    Between (run step s (mid ++ [last])) ∧
      (shown s (mid ++ [last])).reduceOption = rest.take (rest.length - 2) ∧
      Along step (Behind pid) s (mid ++ [last]) := by
  obtain ⟨htok, hhsk⟩ := class_data hpid
  have hafter : afterPid (bytes mid) = some (pidByte pid, rest) := by simp [hbytes, afterPid]
  have htrack := tracks_packet hs hclean hmid
  have hphase := htrack.phase
  rw [bytes_packet] at hphase
  simp only [hafter] at hphase
  obtain ⟨hlock, hout⟩ := hphase
  refine ⟨?_, ?_, ?_⟩
  · rw [run_append]
    exact ⟨hlast.hunting, kept_step_of_no_nxt hlast.nxt⟩
  · rw [shown, emitted_concat, List.reduceOption_append, reduceOption_emitted, ← beats_packet,
      hout.data, hkept]
    rfl
  · rw [along_append]
    refine ⟨along_of_edges fun pre i post hsplit => ?_, ?_, trivial⟩
    · have hpre : ∀ j ∈ pre ++ [i], Receiving j := fun j hj => hmid j (by
        rw [hsplit]
        simp only [List.mem_append, List.mem_cons, List.mem_nil_iff, or_false] at hj ⊢
        tauto)
      have hstrobes : strobes (step (run step s pre) i) = Strobes.none :=
        strobes_step (hpre i (by simp))
      refine ⟨congrArg Strobes.tok hstrobes, congrArg Strobes.hsk hstrobes, fun hcyc => ?_⟩
      have htrack' := (tracks_packet hs hclean hpre).phase
      have hstep : (packet s (pre ++ [i])).1 = step (run step s pre) i := by
        rw [packet_fst, run_append]
        rfl
      rw [bytes_packet, hstep] at htrack'
      rcases hafter' : afterPid (bytes (pre ++ [i])) with _ | ⟨p, front⟩ <;>
        simp only [hafter'] at htrack'
      · rw [htrack'.1.cyc] at hcyc
        cases hcyc
      · -- The first byte of the packet is the one taken for the PID.
        obtain ⟨junk, hjunk, -, hno⟩ := afterPid_eq_some hafter'
        rw [hsplit, List.append_cons, bytes_append, hjunk] at hbytes
        have hp : p = pidByte pid := by
          cases junk with
          | nil => simpa using congrArg List.head? hbytes
          | cons b junk =>
              have hb : b = pidByte pid := by simpa using congrArg List.head? hbytes
              have hbad := hno b (by simp)
              simp [hb] at hbad
        rw [htrack'.1.tuser, hp, pidOf_pidByte]
    · have hstrobes := hlock.strobes_step hlast
      rw [← packet_fst]
      refine ⟨(congrArg Strobes.tok hstrobes).trans ?_, (congrArg Strobes.hsk hstrobes).trans ?_,
        fun hcyc => ?_⟩
      · simp [lockedStrobes, htok]
      · simpa [lockedStrobes] using hhsk
      · simp [hlast.hunting.cyc] at hcyc

end Behind

end MiscVerilogCores.UlpiDecoder
