import MiscVerilogCores.Verification.Usb.Tokens

/-! # What the decoder reports of the packets on the bus

The tokens, the bytes and the strobes that come out of the decoder, in the order in which they do. -/

namespace MiscVerilogCores.UlpiDecoder

open Clocked Usb

/-- What the decoder tells the logic of a transaction. Starts of frames are left out, since the bytes of
a data packet can be taken for one. -/
inductive Report where
  | token (pid : BitVec 4) (addr : BitVec 7) (endp : BitVec 4)
  | handshake (pid : BitVec 4)
  | byte (pid : BitVec 4) (data : BitVec 8)
  /-- A packet has ended, and its check sum is right. -/
  | received (pid : BitVec 4)
deriving DecidableEq

/-- What is reported by the strobes. -/
def struck (s : State) : List Report :=
  (if s.tokRecvQ then [.token s.tuser s.addrQ s.endpQ] else []) ++
    (if s.hskRecvQ then [.handshake s.tuser] else []) ++
    if s.usbRecvQ then [.received s.tuser] else []

/-- What is on the output ports. -/
def reports (s : State) : List Report :=
  (kept s).toList.map (Report.byte s.tuser) ++ struck s

/-- What is reported at the edges of a run, seen after them. -/
def reported (s : State) (is : List Inputs) : List Report :=
  emitted step (fun s i => reports (step s i)) s is

section Reported

variable {s : State} {i : Inputs} {is js mid : List Inputs} {last : Inputs} {pid : BitVec 4}
  {addr : BitVec 7} {endp : BitVec 4}

theorem reported_cons (s : State) (i : Inputs) (is : List Inputs) :
    reported s (i :: is) = reports (step s i) ++ reported (step s i) is := rfl

theorem reported_append (s : State) (is js : List Inputs) :
    reported s (is ++ js) = reported s is ++ reported (run step s is) js :=
  emitted_append step _ s is js

theorem struck_eq_nil (h : strobes s = Strobes.none) : struck s = [] := by
  have htok : s.tokRecvQ = false := congrArg Strobes.tok h
  have hhsk : s.hskRecvQ = false := congrArg Strobes.hsk h
  have husb : s.usbRecvQ = false := congrArg Strobes.usb h
  simp [struck, htok, hhsk, husb]

/-- Between packets nothing is reported. -/
theorem Hunting.reports_step (h : Hunting s) (i : Inputs) :
    reports (UlpiDecoder.step s i) = [] := by
  rw [reports, kept_step_of_idle h.cyc, struck_eq_nil (h.strobes_step i)]
  rfl

theorem Hunting.reported_gap (h : Hunting s)
    (his : Along UlpiDecoder.step (fun s i => pidVldW s i = false) s is) :
    reported s is = [] ∧ Hunting (run UlpiDecoder.step s is) := by
  induction is generalizing s with
  | nil => exact ⟨rfl, h⟩
  | cons i is ih =>
      obtain ⟨hrest, hend⟩ := ih (h.gap his.1) his.2
      refine ⟨?_, hend⟩
      rw [reported_cons, h.reports_step i]
      exact hrest

/-- While a packet is on its way, only its bytes are reported. -/
theorem reported_receiving (hmid : ∀ i ∈ mid, Receiving i) :
    reported s mid =
      ((packet s mid).2.beats.filter Beat.keep).map fun b => Report.byte b.user b.data := by
  have hgen : ∀ q : State × Log, ∀ is : List Inputs, (∀ i ∈ is, Receiving i) →
      ((run (watched step Log.watch) q is).2.beats.filter Beat.keep).map
          (fun b => Report.byte b.user b.data) =
        (q.2.beats.filter Beat.keep).map (fun b => Report.byte b.user b.data) ++
          reported q.1 is := by
    intro q is his
    induction is generalizing q with
    | nil => simp [reported]
    | cons i is ih =>
        obtain ⟨hi, his⟩ := List.forall_mem_cons.mp his
        have hbeat : ((beat (step q.1 i)).filter Beat.keep).map
            (fun b => Report.byte b.user b.data) = reports (step q.1 i) := by
          rw [reports, struck_eq_nil (strobes_step hi), List.append_nil]
          cases hv : (step q.1 i).tvalid <;> cases hk : (step q.1 i).tkeep <;>
            simp [kept, beat, hv, hk]
        rw [run_cons, ih _ his, reported_cons, ← hbeat]
        simp [Log.watch, List.filter_append, List.map_append]
  exact (hgen (s, Log.start) mid hmid).symm

/-- The edge that ends a packet shows no byte. -/
theorem reported_packet (s : State) (mid : List Inputs) (hlast : Ending last) :
    reported s (mid ++ [last]) = reported s mid ++ struck (step (packet s mid).1 last) := by
  rw [reported_append, packet_fst]
  have hone : reported (run step s mid) [last] = struck (step (run step s mid) last) := by
    rw [reported_cons, reports, kept_step_of_no_nxt hlast.nxt]
    exact List.append_nil _
  rw [hone]

/-- A token with the right check bits is reported, and nothing else. -/
theorem reported_token (hs : Start s) (hclean : Clean s) (hmid : ∀ i ∈ mid, Receiving i)
    (hlast : Ending last) (hbytes : TokenFor pid addr endp (bytes mid))
    (htok : isToken pid = true) (hsof : looksSof (pidByte pid) = false) :
    reported s (mid ++ [last]) = [.token pid addr endp] := by
  have hheard := tokenHeard hs hclean hmid hlast hbytes htok hsof
  have hnone : reported s mid = [] := by
    have hkept := ((along_append step _ s mid [last]).mp (kept_token hs hclean hmid hlast hbytes)).1
    have hquiet : ∀ s is, (∀ i ∈ is, Receiving i) →
        Along step (fun s i => kept (step s i) = none) s is → reported s is = [] := by
      intro s is his hkept
      induction is generalizing s with
      | nil => rfl
      | cons i is ih =>
          obtain ⟨hi, his⟩ := List.forall_mem_cons.mp his
          rw [reported_cons, reports, hkept.1, struck_eq_nil (strobes_step hi)]
          exact ih _ his hkept.2
    exact hquiet s mid hmid hkept
  have hend : step (packet s mid).1 last = run step s (mid ++ [last]) := by
    rw [run_append, packet_fst]
    rfl
  obtain ⟨b₀, b₁, hbytes, -⟩ := hbytes
  have hphase := (tracks_packet hs hclean hmid).phase
  rw [bytes_packet] at hphase
  simp only [show afterPid (bytes mid) = some (pidByte pid, [b₀, b₁]) by simp [hbytes, afterPid]]
    at hphase
  have hstrobes := hphase.1.strobes_step hlast
  have husb : (step (packet s mid).1 last).usbRecvQ = false :=
    (congrArg Strobes.usb hstrobes).trans (by simp [lockedStrobes, htok])
  rw [reported_packet s mid hlast, hnone, struck, husb, hend, hheard.tok, hheard.hsk,
    hheard.user, hheard.addr, hheard.endp]
  rfl

/-- A data packet is reported byte by byte, and as received if its check sum is right. -/
theorem reported_data {rest : List (BitVec 8)} (hs : Start s) (hclean : Clean s)
    (hmid : ∀ i ∈ mid, Receiving i) (hlast : Ending last) (hpid : pidClass pid = pidData)
    (hbytes : bytes mid = pidByte pid :: rest) :
    reported s (mid ++ [last]) =
      (rest.take (rest.length - 2)).map (Report.byte pid) ++
        if crc16s rest = 0x800d then [.received pid] else [] := by
  obtain ⟨htok, hhsk⟩ := class_data hpid
  have hphase := (tracks_packet hs hclean hmid).phase
  rw [bytes_packet] at hphase
  simp only [show afterPid (bytes mid) = some (pidByte pid, rest) by simp [hbytes, afterPid]]
    at hphase
  obtain ⟨hlock, hout⟩ := hphase
  have hmap : reported s mid = (rest.take (rest.length - 2)).map (Report.byte pid) := by
    rw [reported_receiving hmid, ← hout.data, List.map_map]
    apply List.map_congr_left
    intro b hb
    rw [hout.user b (List.mem_of_mem_filter hb), pidOf_pidByte]
    rfl
  have hstrobes := hlock.strobes_step hlast
  have htoken : (step (packet s mid).1 last).tokRecvQ = false :=
    (congrArg Strobes.tok hstrobes).trans (by simp [lockedStrobes, htok])
  have hhandshake : (step (packet s mid).1 last).hskRecvQ = false :=
    (congrArg Strobes.hsk hstrobes).trans (by simp [lockedStrobes, hhsk])
  have husb : (step (packet s mid).1 last).usbRecvQ = (crc16s rest == 0x800d) :=
    (congrArg Strobes.usb hstrobes).trans (by simp [lockedStrobes, htok])
  have huser : (step (packet s mid).1 last).tuser = pid := by
    simp [step, hlast.reset, hlock.cyc, hlock.tuser]
  rw [reported_packet s mid hlast, hmap, struck, htoken, hhandshake, husb, huser]
  by_cases hcrc : crc16s rest = 0x800d <;> simp [hcrc]

end Reported

end MiscVerilogCores.UlpiDecoder
