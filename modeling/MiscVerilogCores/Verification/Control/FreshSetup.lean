import MiscVerilogCores.Verification.Control.CorruptedSetup

/-! # SETUP transactions start control transfers

An intact SETUP packet starts its request if the parser is clear. What an abandoned transfer has
left there is not cleared by the next token. -/

namespace MiscVerilogCores.UsbUlpiTop

open Clocked Usb

variable {ABITS : ℕ} {p : Params}

/-- The packet starts one request, and once the device has acknowledged it the request is the one
in the packet, and the next stage begins with a DATA1 packet. -/
structure StartsFresh (s : State ABITS p) (is : List Inputs) (payload : List (BitVec 8)) : Prop where
  once : (requests s is).length = 1
  decoded : ∀ ack : Inputs, ack.reset = false → ack.hskSent = true →
    (step (run step s is) ack).stdreq.parser.encoded = payload
  parity : ∀ ack : Inputs, ack.reset = false → ack.hskSent = true →
    (step (run step s is) ack).stdreq.parQ = true

/-- The control logic takes the packet, and its parser is clear. -/
structure Clear (s : State ABITS p) : Prop where
  listens : Listens s
  xcptr : (entry s).xcptr = 0
  reqCycle : (entry s).reqCycle = false

/-- Every packet of eight bytes with its check sum starts a fresh control transfer. -/
def AlwaysFresh (s : State ABITS p) : Prop :=
  ∀ (c : Cycles) (payload : List (BitVec 8)) (crc₀ crc₁ : BitVec 8), payload.length = 8 →
    wire crc₀ ++ wire crc₁ = checkBits payload → SetupData s c (payload ++ [crc₀, crc₁]) →
      StartsFresh s c.all payload

section Fresh

variable {s : State ABITS p} {is : List Inputs} {c : Cycles} {rest payload : List (BitVec 8)}

theorem Listening.awaiting (h : Listening s) (his : Along step Behind s is) (hlen : 2 ≤ is.length) :
    Awaiting (Clocked.run step s is).stdreq := by
  obtain ⟨i, j, is, rfl⟩ : ∃ i j js, is = i :: j :: js := by
    match is, hlen with
    | i :: j :: js, _ => exact ⟨i, j, js, rfl⟩
  let P (s : State ABITS p) : Prop := Awaiting s.stdreq
  have hstart : P (step (step s i) j) := (h.armed his.1).awaiting his.2.1
  have hend : P (Clocked.run step (step (step s i) j) is) :=
    run_invariant P (fun s i h hi => h.armed.awaiting hi) hstart his.2.2
  exact hend

theorem SetupData.two_le_length (h : SetupData s c rest) : 2 ≤ c.all.length := by
  have hlen := congrArg List.length h.bytes
  have hle := UlpiDecoder.length_bytes_le (c.mid.map decInputs)
  simp [Cycles.all] at hlen hle ⊢
  omega

/-- What the parser holds once the packet is over, and at the acknowledgement. -/
theorem AtToken.parser_end (h : AtToken s) (hclean : UlpiDecoder.Clean s.dec) (hl : Listens s)
    (hd : SetupData s c rest) (ack : Inputs) :
    (step (run step s c.all) ack).stdreq.parser =
      (run Stdreq.Parser.absorb (entry s) (UlpiDecoder.shown s.dec (c.all.map decInputs))).rest
        false := by
  obtain ⟨hedges, -, hbetween⟩ := hd.behind h.between hclean
  obtain ⟨hend, hentry, -⟩ := (h.listening hl).run hedges
  rw [hend.parser_step ack, hentry, hbetween.kept]
  rfl

theorem AtToken.startsFresh (h : AtToken s) (hclean : UlpiDecoder.Clean s.dec)
    (hsettled : Settled s) (hclear : Clear s) {crc₀ crc₁ : BitVec 8} (hlen : payload.length = 8)
    (hd : SetupData s c (payload ++ [crc₀, crc₁])) : StartsFresh s c.all payload := by
  obtain ⟨hedges, hshown, -⟩ := hd.behind h.between hclean
  have hlistening := h.listening hclear.listens
  have hbytes : (UlpiDecoder.shown s.dec (c.all.map decInputs)).reduceOption = payload := by
    rw [hshown]
    simp
  refine ⟨?_, fun ack _ _ => ?_, fun ack hreset hsent => ?_⟩
  · rw [(hlistening.run hedges).2.2]
    apply Stdreq.Parser.length_started hclear.reqCycle hsettled.entry_start
    rw [hclear.xcptr, hbytes, hlen]
    rfl
  · rw [h.parser_end hclean hclear.listens hd ack, Stdreq.Parser.encoded_rest,
      Stdreq.Parser.encoded_of_clear hclear.xcptr (by rw [hbytes, hlen]), hbytes]
  · have hawaiting := hlistening.awaiting hedges hd.two_le_length
    simp [step, Stdreq.step, Stdreq.parNext, stdreqInputs, hreset, hsent, hawaiting.state]

/-- From a parser that is not at its first byte, the request type is not written. -/
theorem AtToken.rtype_end (h : AtToken s) (hclean : UlpiDecoder.Clean s.dec) (hl : Listens s)
    (hx : (entry s).xcptr ≠ 0) (hd : SetupData s c rest) (ack : Inputs) :
    (step (run step s c.all) ack).stdreq.parser.rtype = (entry s).rtype := by
  rw [h.parser_end hclean hl hd ack]
  exact Stdreq.Parser.rtype_of_ne_zero hx

/-- A request of eight zeros, and one that differs in its first byte. -/
def zeroRequest : List (BitVec 8) := List.replicate 8 0

def readRequest : List (BitVec 8) := 0x80 :: List.replicate 7 0

/-- Two packets tell whether the parser is clear. -/
theorem AtToken.clear (h : AtToken s) (hclean : UlpiDecoder.Clean s.dec) (hsettled : Settled s)
    (hfresh : AlwaysFresh s) : Clear s := by
  have hcyc := h.heard.hunting.cyc
  have hzero := setupData_dataCycles hcyc (zeroRequest ++ [0xbf, 0xf4]) 0
  have hread := setupData_dataCycles hcyc (readRequest ++ [0xb7, 0x94]) 0
  have hfresh₀ := hfresh _ _ _ _ rfl (by decide +kernel) hzero
  have hfresh₁ := hfresh _ _ _ _ rfl (by decide +kernel) hread
  have hstarts : StartsRequest s 8 := by
    by_contra hno
    have hnone := (h.requests_eq_nil_iff hclean hsettled.entry_start hzero).mpr hno
    have honce := hfresh₀.once
    rw [hnone] at honce
    cases honce
  refine ⟨hstarts.1, ?_, hstarts.2.1⟩
  by_contra hx
  let ack : Inputs := { (default : Inputs) with hskSent := true }
  have hrtype : ∀ {q : Stdreq.Parser} {b : BitVec 8} {bs : List (BitVec 8)},
      q.encoded = b :: bs → q.rtype = b := fun h => (List.cons.inj h).1
  have h₀ := (h.rtype_end hclean hstarts.1 hx hzero ack).symm.trans
    (hrtype (hfresh₀.decoded ack rfl rfl))
  have h₁ := (h.rtype_end hclean hstarts.1 hx hread ack).symm.trans
    (hrtype (hfresh₁.decoded ack rfl rfl))
  exact absurd (h₀.symm.trans h₁) (by decide)

end Fresh

/-- Every intact SETUP packet starts a fresh control transfer exactly when it finds the parser clear,
from any state that a run from reset has reached. -/
theorem alwaysFresh_iff_clear (s₀ : State ABITS p) (i₀ : Inputs) (is mid : List Inputs)
    (last : Inputs) (ht : SetupToken (reached s₀ i₀ is) mid last) :
    AlwaysFresh (reached s₀ i₀ (is ++ (mid ++ [last]))) ↔
      Clear (reached s₀ i₀ (is ++ (mid ++ [last]))) := by
  have hat := ht.atToken
  have hclean := clean_reached s₀ i₀ (is ++ (mid ++ [last]))
  have hsettled := ht.settled (clean_reached s₀ i₀ is)
  rw [← reached_append] at hsettled
  constructor
  · exact hat.clear hclean hsettled
  · intro hclear c payload crc₀ crc₁ hlen _ hd
    exact hat.startsFresh hclean hsettled hclear hlen hd

/-- The first transaction after reset. -/
theorem alwaysFresh_iff_clear_reset :
    AlwaysFresh (reached (default : State 3 smallParams) resetCycle
        ([resetCycle] ++ (busCycles setupBytes ++ [busEnds]))) ↔
      Clear (reached (default : State 3 smallParams) resetCycle
        ([resetCycle] ++ (busCycles setupBytes ++ [busEnds]))) :=
  alwaysFresh_iff_clear default resetCycle [resetCycle] (busCycles setupBytes) busEnds
    setupToken_reset

/-- A SETUP transaction whose packet was cut off behind its first byte. -/
def cutOff : List Inputs :=
  [resetCycle] ++ (busCycles setupBytes ++ [busEnds]) ++ (dataCycles [0x80, 0x06, 0x00] 1).all

theorem setupToken_cutOff :
    SetupToken (reached (default : State 3 smallParams) resetCycle cutOff) (busCycles setupBytes)
      busEnds := by
  apply setupToken_busCycles
  · exact ⟨by decide +kernel, by decide +kernel⟩
  · have haddr : (run step (reached (default : State 3 smallParams) resetCycle cutOff)
        (busCycles setupBytes ++ [busEnds])).usbAddrQ = 0 := by decide +kernel
    rw [haddr]
    exact tokenFor_setupBytes

/-- The transaction after it does not start a fresh transfer. -/
theorem not_alwaysFresh :
    ¬ ∀ (s₀ : State 3 smallParams) (i₀ : Inputs) (is mid : List Inputs) (last : Inputs),
      SetupToken (reached s₀ i₀ is) mid last → AlwaysFresh (reached s₀ i₀ (is ++ (mid ++ [last]))) := by
  intro h
  have hfresh := h default resetCycle cutOff (busCycles setupBytes) busEnds setupToken_cutOff
  have hsettled := setupToken_cutOff.settled (clean_reached _ _ _)
  rw [← reached_append] at hsettled
  have hclear := setupToken_cutOff.atToken.clear (clean_reached _ _ _) hsettled hfresh
  have hx : (entry (reached (default : State 3 smallParams) resetCycle
      (cutOff ++ (busCycles setupBytes ++ [busEnds])))).xcptr ≠ 0 := by decide +kernel
  exact hx hclear.xcptr

end MiscVerilogCores.UsbUlpiTop
