import MiscVerilogCores.Model.UsbUlpiTop
import MiscVerilogCores.Verification.Control.Parser
import MiscVerilogCores.Verification.Usb.Tokens

/-! # SETUP transactions

Which requests the control pipe is given on account of a SETUP transaction: those that the
parser starts from the bytes of its DATA0 packet, if the control logic takes the token. -/

namespace MiscVerilogCores.UsbUlpiTop

open Clocked Usb

variable {ABITS : ℕ} {p : Params}

/-- The state that a run from reset has reached. -/
def reached (s : State ABITS p) (i : Inputs) (is : List Inputs) : State ABITS p :=
  run step (afterReset s i) is

/-! ## The decoder, as a part of the core -/

theorem dec_step (s : State ABITS p) (i : Inputs) :
    (step s i).dec = UlpiDecoder.step s.dec (decInputs i) := rfl

theorem dec_run (s : State ABITS p) (is : List Inputs) :
    (run step s is).dec = run UlpiDecoder.step s.dec (is.map decInputs) :=
  run_part dec_step s is

theorem clean_reached (s : State ABITS p) (i : Inputs) (is : List Inputs) :
    UlpiDecoder.Clean (reached s i is).dec := by
  rw [reached, dec_run]
  exact UlpiDecoder.clean_reached s.dec i.dec (is.map decInputs)

theorem clean_run {s : State ABITS p} (h : UlpiDecoder.Clean s.dec) (is : List Inputs) :
    UlpiDecoder.Clean (run step s is).dec :=
  run_invariant (fun s : State ABITS p => UlpiDecoder.Clean s.dec)
    (fun _ i h _ => h.next (decInputs i)) h (along_of_forall (fun _ _ => trivial) s is)

/-! ## The cycles of a SETUP transaction -/

/-- A SETUP token for end-point 0 of the device: `mid` brings its bytes and `last` ends it, and
the device is not sending. -/
structure SetupToken (s : State ABITS p) (mid : List Inputs) (last : Inputs) : Prop where
  start : UlpiDecoder.Start s.dec
  receiving : ∀ i ∈ mid, UlpiDecoder.Receiving (decInputs i)
  ending : UlpiDecoder.Ending (decInputs last)
  bytes : UlpiDecoder.TokenFor usbpidSetup (run step s (mid ++ [last])).usbAddrQ 0
    (UlpiDecoder.bytes (mid.map decInputs))
  silent : ∀ i ∈ mid ++ [last], i.hskSent = false

/-- Neither the host nor the device begins a packet. -/
structure Pausing (s : State ABITS p) (i : Inputs) : Prop where
  dec : UlpiDecoder.Pausing s.dec (decInputs i)
  silent : i.hskSent = false

/-- The cycles behind a SETUP token: a gap, those that bring the bytes of a data packet, the one
that ends it, and a pause. -/
structure Cycles where
  gap : List Inputs
  mid : List Inputs
  last : Inputs
  pause : List Inputs

def Cycles.all (c : Cycles) : List Inputs := c.gap ++ (c.mid ++ [c.last]) ++ c.pause

/-- The cycles bring a DATA0 packet, with the bytes `rest` behind its PID. -/
structure SetupData (s : State ABITS p) (c : Cycles) (rest : List (BitVec 8)) : Prop where
  gap : Along step Pausing s c.gap
  start : UlpiDecoder.Start (run step s c.gap).dec
  receiving : ∀ i ∈ c.mid, UlpiDecoder.Receiving (decInputs i)
  ending : UlpiDecoder.Ending (decInputs c.last)
  bytes : UlpiDecoder.bytes (c.mid.map decInputs) = UlpiDecoder.pidByte usbpidData0 :: rest
  silent : ∀ i ∈ c.mid ++ [c.last], i.hskSent = false
  pause : Along step Pausing (run step s (c.gap ++ (c.mid ++ [c.last]))) c.pause

/-- An edge behind the token. -/
structure Behind (s : State ABITS p) (i : Inputs) : Prop where
  reset : i.reset = false
  silent : i.hskSent = false
  dec : UlpiDecoder.Behind usbpidData0 s.dec (decInputs i)

section Edges

variable {s : State ABITS p} {is : List Inputs} {c : Cycles} {rest : List (BitVec 8)}

theorem along_dec {ok : UlpiDecoder.State → UlpiDecoder.Inputs → Prop}
    (h : Along UlpiDecoder.step ok s.dec (is.map decInputs)) :
    Along step (fun s i => ok s.dec (decInputs i)) s is :=
  along_part dec_step h

theorem along_pausing (h : Along step Pausing s is) :
    Along UlpiDecoder.step UlpiDecoder.Pausing s.dec (is.map decInputs) := by
  induction is generalizing s with
  | nil => trivial
  | cons i is ih => exact ⟨h.1.dec, ih h.2⟩

theorem between_pausing (hs : UlpiDecoder.Between s.dec) (h : Along step Pausing s is) :
    UlpiDecoder.Between (run step s is).dec ∧
      (UlpiDecoder.shown s.dec (is.map decInputs)).reduceOption = [] ∧ Along step Behind s is := by
  obtain ⟨hend, hshown, hbehind⟩ := hs.run (along_pausing h) usbpidData0
  rw [dec_run]
  refine ⟨hend, hshown, (h.and (along_dec hbehind)).mono ?_⟩
  exact fun s i hi => ⟨hi.1.dec.reset, hi.1.silent, hi.2⟩

theorem shown_append (s : State ABITS p) (is js : List Inputs) :
    UlpiDecoder.shown s.dec ((is ++ js).map decInputs) =
      UlpiDecoder.shown s.dec (is.map decInputs) ++
        UlpiDecoder.shown (run step s is).dec (js.map decInputs) := by
  rw [List.map_append, UlpiDecoder.shown, emitted_append, dec_run]
  rfl

/-- Behind the token the stream shows the payload of the packet, and no other packet. -/
theorem SetupData.behind (h : SetupData s c rest) (hs : UlpiDecoder.Between s.dec)
    (hclean : UlpiDecoder.Clean s.dec) :
    Along step Behind s c.all ∧
      (UlpiDecoder.shown s.dec (c.all.map decInputs)).reduceOption =
        rest.take (rest.length - 2) ∧
      UlpiDecoder.Between (run step s c.all).dec := by
  obtain ⟨hgap, hshown, hbehind⟩ := between_pausing hs h.gap
  have hmid : ∀ i ∈ c.mid.map decInputs, UlpiDecoder.Receiving i := by
    intro i hi
    obtain ⟨j, hj, rfl⟩ := List.mem_map.mp hi
    exact h.receiving j hj
  obtain ⟨hend, hdata, hpacket⟩ := UlpiDecoder.data_behind h.start (clean_run hclean c.gap)
    hgap.kept hmid h.ending rfl h.bytes
  have hmap : c.mid.map decInputs ++ [decInputs c.last] = (c.mid ++ [c.last]).map decInputs := by
    simp
  rw [hmap] at hend hdata hpacket
  rw [← dec_run, ← run_append] at hend
  obtain ⟨hwait, hnone, hlast⟩ := between_pausing hend h.pause
  have hedges : Along step Behind (run step s c.gap) (c.mid ++ [c.last]) := by
    have hreset : ∀ i ∈ c.mid ++ [c.last], i.reset = false ∧ i.hskSent = false := by
      intro i hi
      refine ⟨?_, h.silent i hi⟩
      rcases List.mem_append.mp hi with hi | hi
      · exact (h.receiving i hi).reset
      · rw [List.mem_singleton.mp hi]
        exact h.ending.reset
    exact ((along_of_inputs step _ hreset).and (along_dec hpacket)).mono
      fun s i hi => ⟨hi.1.1, hi.1.2, hi.2⟩
  refine ⟨?_, ?_, ?_⟩
  · rw [Cycles.all, along_append, along_append]
    exact ⟨⟨hbehind, hedges⟩, hlast⟩
  · rw [Cycles.all, shown_append, shown_append, List.reduceOption_append, List.reduceOption_append,
      hshown, hdata, hnone]
    simp
  · rw [Cycles.all, run_append]
    exact hwait

end Edges

/-! ## Taking the packet -/

/-- The token is one that the control logic takes. -/
structure Selected (s : State ABITS p) : Prop where
  state : s.stdreq.state = .idle
  token : UlpiDecoder.TokenHeard s.dec usbpidSetup s.usbAddrQ 0

/-- The DATA0 packet is awaited. -/
structure Awaiting (r : Stdreq.State) : Prop where
  state : r.state = .setup
  cyc : r.cycQ = true

/-- It is, at the latest after the next edge. -/
structure Armed (r : Stdreq.State) : Prop where
  cyc : r.cycQ = true
  state : r.state = .setup ∨ r.state = .idle ∧ r.selQ = true

/-- The control logic takes the bytes of the packet: it is ready for them before the decoder has
shifted the first of them to its output. -/
structure Listening (s : State ABITS p) : Prop where
  phase : Selected s ∨ Armed s.stdreq
  stb : s.dec.stbQ = true → Armed s.stdreq
  vld : s.dec.vldQ = true → Awaiting s.stdreq
  user : s.dec.cycQ = true → s.dec.tuser = usbpidData0
  taken : UlpiDecoder.kept s.dec ≠ none → s.stdreq.reqQ = true ∧ s.stdreq.cycQ = true

/-- The parser, as the next edge finds it. -/
def entry (s : State ABITS p) : Stdreq.Parser :=
  if s.stdreq.cycQ then s.stdreq.parser else s.stdreq.parser.clear

/-- The request that is started by an edge. -/
def request (s : State ABITS p) (i : Inputs) : List Stdreq.Parser :=
  if (step s i).stdreq.parser.reqStart then [(step s i).stdreq.parser] else []

/-- The requests in some cycles, one for each cycle in which `req_start_o` is high. -/
def requests (s : State ABITS p) (is : List Inputs) : List Stdreq.Parser :=
  emitted step request s is

section Listening

variable {s : State ABITS p} {i : Inputs} {is : List Inputs}

theorem Selected.armed (h : Selected s) (hi : Behind s i) : Armed (step s i).stdreq := by
  have hsel : Stdreq.selW true s.stdreq (stdreqInputs s i) = true := by
    simp [Stdreq.selW, stdreqInputs, h.state, h.token.tok, h.token.addr, h.token.user,
      h.token.endp]
  have hreset : (stdreqInputs s i).reset = false := hi.reset
  have hcyc : (step s i).stdreq.cycQ = true := by simp [step, Stdreq.step, hreset, hsel]
  have hselQ : (step s i).stdreq.selQ = true := by simp [step, Stdreq.step, hreset, hsel]
  have hstate : (step s i).stdreq.state = .setup ∨ (step s i).stdreq.state = .idle := by
    simp only [step, Stdreq.step, Stdreq.snext, stdreqInputs, hi.reset, h.state]
    cases s.stdreq.cycQ <;> cases s.stdreq.selQ <;> simp
  exact ⟨hcyc, hstate.imp_right fun h => ⟨h, hselQ⟩⟩

theorem Armed.endW (h : Armed s.stdreq) (j : Stdreq.Inputs) : Stdreq.endW s.stdreq j = false := by
  rcases h.state with hs | ⟨hs, -⟩ <;> simp [Stdreq.endW, hs]

theorem Armed.awaiting (h : Armed s.stdreq) (hi : Behind s i) : Awaiting (step s i).stdreq := by
  refine ⟨?_, by simp [step, Stdreq.step, stdreqInputs, hi.reset, h.endW, h.cyc]⟩
  rcases h.state with hs | ⟨hs, hsel⟩
  · simp [step, Stdreq.step, Stdreq.snext, stdreqInputs, hi.reset, hi.silent, h.cyc, hs]
  · simp [step, Stdreq.step, Stdreq.snext, stdreqInputs, hi.reset, h.cyc, hs, hsel]

theorem Awaiting.armed {r : Stdreq.State} (h : Awaiting r) : Armed r :=
  ⟨h.cyc, Or.inl h.state⟩

theorem Listening.armed (h : Listening s) (hi : Behind s i) : Armed (step s i).stdreq := by
  rcases h.phase with hsel | harmed
  · exact hsel.armed hi
  · exact (harmed.awaiting hi).armed

/-- The decoder shows a byte once two more are behind it. -/
theorem kept_step_ne_none (h : UlpiDecoder.kept (step s i).dec ≠ none) :
    s.dec.cycQ = true ∧ s.dec.vldQ = true := by
  rw [dec_step] at h
  simp only [UlpiDecoder.kept, UlpiDecoder.step, UlpiDecoder.emits, ne_eq, ite_eq_right_iff,
    Bool.and_eq_true] at h
  simp only [reduceCtorEq, imp_false, not_not] at h
  exact ⟨h.1.2, h.2.2.2⟩

theorem Listening.next (h : Listening s) (hi : Behind s i) : Listening (step s i) := by
  have harmed := h.armed hi
  refine ⟨Or.inr harmed, fun _ => harmed, fun hvld => ?_, hi.dec.user, fun hkept => ?_⟩
  · -- A byte reaches the output register from the register before it.
    have hbefore : s.dec.stbQ = true ∨ s.dec.vldQ = true := by
      simp only [dec_step, UlpiDecoder.step] at hvld
      by_contra hno
      simp_all
    rcases hbefore with hstb | hvld
    · exact (h.stb hstb).awaiting hi
    · exact (h.vld hvld).armed.awaiting hi
  · obtain ⟨hcyc, hvld⟩ := kept_step_ne_none hkept
    refine ⟨?_, harmed.cyc⟩
    simp [step, Stdreq.step, Stdreq.reqW, stdreqInputs, hi.reset, (h.vld hvld).state, h.user hcyc]

theorem not_takes (h : UlpiDecoder.kept s.dec = none) (i : Inputs) :
    Stdreq.takes s.stdreq (stdreqInputs s i) = false := by
  have hvalid : (s.dec.tvalid && s.dec.tkeep) = false := by simpa [UlpiDecoder.kept] using h
  rw [Stdreq.takes, Bool.and_assoc]
  exact (congrArg _ hvalid).trans (Bool.and_false _)

theorem Listening.parser_step (h : Listening s) (i : Inputs) :
    (step s i).stdreq.parser = (entry s).absorb (UlpiDecoder.kept s.dec) := by
  have hend : Stdreq.endW s.stdreq (stdreqInputs s i) = false := by
    rcases h.phase with hsel | harmed
    · simp [Stdreq.endW, hsel.state]
    · exact harmed.endW _
  have hstep : (step s i).stdreq.parser = Stdreq.parserNext s.stdreq (stdreqInputs s i) := rfl
  rw [hstep, Stdreq.parserNext, hend, entry]
  rcases hkept : UlpiDecoder.kept s.dec with _ | b
  · rw [not_takes hkept]
    cases s.stdreq.cycQ <;> rfl
  · obtain ⟨hreq, hcyc⟩ := h.taken (by simp [hkept])
    obtain ⟨hvalid, rfl⟩ : (s.dec.tvalid = true ∧ s.dec.tkeep = true) ∧ s.dec.tdata = b := by
      simpa [UlpiDecoder.kept] using hkept
    have hyes : Stdreq.takes s.stdreq (stdreqInputs s i) = true := by
      simp [Stdreq.takes, stdreqInputs, hreq, hvalid]
    rw [hcyc, hyes]
    rfl

theorem Listening.entry_step (h : Listening s) (hi : Behind s i) :
    entry (step s i) = (entry s).absorb (UlpiDecoder.kept s.dec) := by
  rw [entry, (h.armed hi).cyc, if_pos rfl, h.parser_step i]

/-- The parser absorbs what the stream shows. -/
theorem Listening.run (h : Listening s) (his : Along step Behind s is) :
    Listening (Clocked.run step s is) ∧
      entry (Clocked.run step s is) =
        Clocked.run Stdreq.Parser.absorb (entry s) (UlpiDecoder.shown s.dec (is.map decInputs)) ∧
      requests s is = (entry s).started (UlpiDecoder.shown s.dec (is.map decInputs)) := by
  induction is generalizing s with
  | nil => exact ⟨h, rfl, rfl⟩
  | cons i is ih =>
      obtain ⟨hend, hentry, hrequests⟩ := ih (h.next his.1) his.2
      have hshown : UlpiDecoder.shown s.dec ((i :: is).map decInputs) =
          UlpiDecoder.kept s.dec :: UlpiDecoder.shown (step s i).dec (is.map decInputs) := rfl
      rw [h.entry_step his.1] at hentry hrequests
      rw [hshown]
      refine ⟨hend, hentry, ?_⟩
      rw [requests, emitted_cons, Stdreq.Parser.started_cons, ← hrequests, request,
        h.parser_step i]
      rfl

end Listening

/-! ## Not taking the packet -/

/-- The control logic does not take the bytes of the packet. -/
structure Deaf (s : State ABITS p) : Prop where
  state : s.stdreq.state ≠ .setup
  sel : s.stdreq.state = .idle → s.stdreq.selQ = false
  tok : s.stdreq.state = .idle → s.dec.tokRecvQ = false
  taken : UlpiDecoder.kept s.dec ≠ none → s.stdreq.reqQ = false

section Deaf

variable {s : State ABITS p} {i : Inputs} {is : List Inputs}

/-- Only a token that is taken leads to the setup stage. -/
theorem snext_ne_setup {r : Stdreq.State} (hstate : r.state ≠ .setup)
    (hsel : r.state = .idle → r.selQ = false) (j : Stdreq.Inputs) : Stdreq.snext r j ≠ .setup := by
  rw [Stdreq.snext]
  cases r.cycQ with
  | false => simp
  | true =>
      cases hs : r.state with
      | idle => simp [hsel hs]
      | setup => exact absurd hs hstate
      | data => cases Stdreq.dataAckW r j <;> cases j.timeout <;> simp
      | status => cases r.endQ <;> simp

theorem Deaf.next (h : Deaf s) (hi : Behind s i) : Deaf (step s i) := by
  refine ⟨?_, fun _ => ?_, fun _ => hi.dec.tok, fun _ => ?_⟩
  · have hreset : (stdreqInputs s i).reset = false := hi.reset
    simpa [step, Stdreq.step, hreset] using snext_ne_setup h.state h.sel (stdreqInputs s i)
  · by_cases hs : s.stdreq.state = .idle
    · simp [step, Stdreq.step, Stdreq.selW, stdreqInputs, h.tok hs]
    · simp [step, Stdreq.step, Stdreq.selW, hs]
  · simp [step, Stdreq.step, Stdreq.reqW, h.state]

theorem Deaf.reqStart_step (h : Deaf s) (i : Inputs) :
    (step s i).stdreq.parser.reqStart = false := by
  have hstep : (step s i).stdreq.parser = Stdreq.parserNext s.stdreq (stdreqInputs s i) := rfl
  have hno : Stdreq.takes s.stdreq (stdreqInputs s i) = false := by
    by_cases hkept : UlpiDecoder.kept s.dec = none
    · exact not_takes hkept i
    · simp [Stdreq.takes, h.taken hkept]
  rw [hstep, Stdreq.parserNext, hno]
  cases s.stdreq.cycQ <;> rfl

theorem Deaf.requests (h : Deaf s) (his : Along step Behind s is) : requests s is = [] := by
  induction is generalizing s with
  | nil => rfl
  | cons i is ih =>
      rw [UsbUlpiTop.requests, emitted_cons, request, h.reqStart_step i]
      exact ih (h.next his.1) his.2

end Deaf

/-! ## The token -/

/-- The control logic is where it takes the DATA0 packet of a SETUP transaction. -/
def Listens (s : State ABITS p) : Prop :=
  s.stdreq.state = .idle ∨ s.stdreq.state = .setup

/-- The bytes of a packet start a request, `n` of them, from the state in which they find the
parser. -/
def StartsRequest (s : State ABITS p) (n : ℕ) : Prop :=
  Listens s ∧ (entry s).reqCycle = false ∧ 8 ≤ (entry s).xcptr.toNat + n

/-- The cycle after a SETUP token for end-point 0 of the device. -/
structure AtToken (s : State ABITS p) : Prop where
  heard : UlpiDecoder.TokenHeard s.dec usbpidSetup s.usbAddrQ 0
  kept : UlpiDecoder.kept s.dec = none
  framed : s.stdreq.state = .setup → s.stdreq.cycQ = true

section Token

variable {s : State ABITS p} {c : Cycles} {mid : List Inputs} {last : Inputs}
  {rest : List (BitVec 8)}

theorem AtToken.listening (h : AtToken s) (hl : Listens s) : Listening s := by
  have hstb : s.dec.stbQ ≠ true := by simp [h.heard.hunting.stb]
  have hvld : s.dec.vldQ ≠ true := by simp [h.heard.vld]
  have hcyc : s.dec.cycQ ≠ true := by simp [h.heard.hunting.cyc]
  refine ⟨?_, fun h => absurd h hstb, fun h => absurd h hvld, fun h => absurd h hcyc,
    fun hno => absurd h.kept hno⟩
  rcases hl with hs | hs
  · exact Or.inl ⟨hs, h.heard⟩
  · exact Or.inr ⟨h.framed hs, Or.inl hs⟩

theorem AtToken.deaf (h : AtToken s) (hl : ¬ Listens s) : Deaf s := by
  rw [Listens, not_or] at hl
  exact ⟨hl.2, fun hs => absurd hs hl.1, fun hs => absurd hs hl.1, fun hno => absurd h.kept hno⟩

theorem AtToken.between (h : AtToken s) : UlpiDecoder.Between s.dec :=
  ⟨h.heard.hunting, h.kept⟩

/-- A packet starts no request unless its bytes fill up the parser. -/
theorem AtToken.requests_eq_nil_iff (h : AtToken s) (hclean : UlpiDecoder.Clean s.dec)
    (hstart : (entry s).reqStart = false) (hd : SetupData s c rest) :
    requests s c.all = [] ↔ ¬ StartsRequest s (rest.length - 2) := by
  obtain ⟨hedges, hshown, -⟩ := hd.behind h.between hclean
  rw [StartsRequest]
  by_cases hl : Listens s
  · rw [((h.listening hl).run hedges).2.2, Stdreq.Parser.started_eq_nil_iff hstart, hshown]
    have hlen : (rest.take (rest.length - 2)).length = rest.length - 2 := by simp
    rw [hlen]
    cases (entry s).reqCycle <;> simp [hl]
  · rw [(h.deaf hl).requests hedges]
    simp [hl]

/-- The setup stage lies within the cycle of a transfer. -/
theorem framed_step (r : Stdreq.State) (j : Stdreq.Inputs) :
    (Stdreq.step true r j).state = .setup → (Stdreq.step true r j).cycQ = true := by
  intro hnext
  have hreset : j.reset = false := by
    cases hr : j.reset with
    | false => rfl
    | true => simp [Stdreq.step, hr] at hnext
  have hsnext : Stdreq.snext r j = .setup := by simpa [Stdreq.step, hreset] using hnext
  have hcyc : r.cycQ = true := by
    cases hq : r.cycQ with
    | true => rfl
    | false => simp [Stdreq.snext, hq] at hsnext
  have hend : Stdreq.endW r j = false := by
    cases hs : r.state with
    | status =>
        rw [Stdreq.snext, hcyc, hs] at hsnext
        cases hq : r.endQ <;> simp [hq] at hsnext
    | _ => simp [Stdreq.endW, hs]
  simp [Stdreq.step, hreset, hend, hcyc]

theorem framed_reached (s : State ABITS p) (i : Inputs) (is : List Inputs) :
    (reached s i is).stdreq.state = .setup → (reached s i is).stdreq.cycQ = true := by
  let P (s : State ABITS p) : Prop := s.stdreq.state = .setup → s.stdreq.cycQ = true
  have hstart : P (afterReset s i) := by
    intro h
    simp [afterReset, step, Stdreq.step, stdreqInputs] at h
  exact run_invariant P (fun s i _ _ => framed_step s.stdreq (stdreqInputs s i)) hstart
    (along_of_forall (fun _ _ => trivial) _ is)

theorem reached_append (s : State ABITS p) (i : Inputs) (is js : List Inputs) :
    reached s i (is ++ js) = run step (reached s i is) js :=
  run_append step _ is js

theorem SetupToken.dec_run_eq (s : State ABITS p) (mid : List Inputs) (last : Inputs) :
    (run step s (mid ++ [last])).dec =
      run UlpiDecoder.step s.dec (mid.map decInputs ++ [decInputs last]) := by
  rw [dec_run]
  simp

theorem SetupToken.receiving_map (h : SetupToken s mid last) :
    ∀ i ∈ mid.map decInputs, UlpiDecoder.Receiving i := by
  intro i hi
  obtain ⟨j, hj, rfl⟩ := List.mem_map.mp hi
  exact h.receiving j hj

/-- Every SETUP token is seen by the control logic, from any state that a run from reset has
reached. -/
theorem SetupToken.atToken {s₀ : State ABITS p} {i₀ : Inputs} {is : List Inputs}
    (h : SetupToken (reached s₀ i₀ is) mid last) : AtToken (reached s₀ i₀ (is ++ (mid ++ [last]))) := by
  refine ⟨?_, ?_, framed_reached s₀ i₀ _⟩
  · rw [reached_append, SetupToken.dec_run_eq]
    exact UlpiDecoder.tokenHeard h.start (clean_reached s₀ i₀ is) h.receiving_map h.ending h.bytes
      (by decide) (by decide)
  · rw [reached_append, run_append]
    exact UlpiDecoder.kept_step_of_no_nxt h.ending.nxt

end Token

/-! ## A host that keeps to the bus

Cycles in which only the decoder is given anything: an RX CMD before each byte, and `dir` falls
behind a packet. -/

def busCycle (i : UlpiDecoder.Inputs) : Inputs := { (default : Inputs) with dec := i }

/-- The cycles that bring some bytes. -/
def busCycles (bs : List (BitVec 8)) : List Inputs :=
  (UlpiDecoder.spaced bs).map busCycle

/-- `dir` falls. -/
def busEnds : Inputs := busCycle UlpiDecoder.dirFalls

/-- The cycles of a DATA0 packet, with a pause of `n` cycles behind it. -/
def dataCycles (rest : List (BitVec 8)) (n : ℕ) : Cycles where
  gap := [busCycle UlpiDecoder.activeCmd]
  mid := busCycles (UlpiDecoder.pidByte usbpidData0 :: rest)
  last := busEnds
  pause := List.replicate n (busCycle UlpiDecoder.activeCmd)

/-- A SETUP token for end-point 0 of a device without an address. -/
def setupBytes : List (BitVec 8) := [0x2d, 0x00, 0x10]

/-- A core with one bulk end-point of each kind, and no strings. -/
def smallParams : Params where
  useEp1Out := true
  useEp2In := true
  useEp3In := false
  useEp4Out := false
  endpoint1 := 1
  endpoint2 := 2
  endpoint3 := 3
  endpoint4 := 4
  maxPacketLength := 4
  maxTaTimer := 101
  maxEpTimer := 23
  ctl := ⟨[], [], [], List.replicate 18 0, List.replicate 18 0⟩

section Bus

variable {s : State ABITS p}

theorem receiving_busCycles (bs : List (BitVec 8)) :
    ∀ i ∈ busCycles bs, UlpiDecoder.Receiving (decInputs i) := by
  intro i hi
  obtain ⟨j, hj, rfl⟩ := List.mem_map.mp hi
  have hreceiving := UlpiDecoder.receiving_spaced bs j hj
  exact ⟨rfl, hreceiving.dir, hreceiving.active⟩

theorem bytes_busCycles (bs : List (BitVec 8)) :
    UlpiDecoder.bytes ((busCycles bs).map decInputs) = bs := by
  have hmap : ∀ is : List UlpiDecoder.Inputs,
      UlpiDecoder.bytes ((is.map busCycle).map decInputs) = UlpiDecoder.bytes is := by
    intro is
    induction is with
    | nil => rfl
    | cons i is ih =>
        have hone : UlpiDecoder.bytes [decInputs (busCycle i)] = UlpiDecoder.bytes [i] := by
          cases hn : i.ulpiNxt <;> simp [UlpiDecoder.bytes, decInputs, busCycle, hn]
        rw [List.map_cons, List.map_cons, ← List.singleton_append, UlpiDecoder.bytes_append, ih,
          hone, ← UlpiDecoder.bytes_append, List.singleton_append]
  rw [busCycles, hmap, UlpiDecoder.bytes_spaced]

theorem silent_busCycles (bs : List (BitVec 8)) :
    ∀ i ∈ busCycles bs ++ [busEnds], i.hskSent = false := by
  intro i hi
  rcases List.mem_append.mp hi with hi | hi
  · obtain ⟨j, -, rfl⟩ := List.mem_map.mp hi
    rfl
  · rw [List.mem_singleton.mp hi]
    rfl

theorem setupToken_busCycles {bs : List (BitVec 8)} (hs : UlpiDecoder.Start s.dec)
    (hbs : UlpiDecoder.TokenFor usbpidSetup (run step s (busCycles bs ++ [busEnds])).usbAddrQ 0 bs) :
    SetupToken s (busCycles bs) busEnds :=
  ⟨hs, receiving_busCycles bs, UlpiDecoder.ending_dirFalls, by rwa [bytes_busCycles],
    silent_busCycles bs⟩

theorem pausing_activeCmd (s : State ABITS p) : Pausing s (busCycle UlpiDecoder.activeCmd) := by
  refine ⟨⟨rfl, ?_⟩, rfl⟩
  simp [UlpiDecoder.pidVldW, decInputs, busCycle, UlpiDecoder.activeCmd, UlpiDecoder.dirCycle]

theorem along_pausing_replicate (s : State ABITS p) (n : ℕ) :
    Along step Pausing s (List.replicate n (busCycle UlpiDecoder.activeCmd)) := by
  induction n generalizing s with
  | zero => trivial
  | succ n ih => exact ⟨pausing_activeCmd s, ih _⟩

theorem setupData_dataCycles (hs : s.dec.cycQ = false) (rest : List (BitVec 8)) (n : ℕ) :
    SetupData s (dataCycles rest n) rest := by
  refine ⟨⟨pausing_activeCmd s, trivial⟩, ⟨?_, rfl⟩, receiving_busCycles _,
    UlpiDecoder.ending_dirFalls, bytes_busCycles _, silent_busCycles _,
    along_pausing_replicate _ n⟩
  simp [dataCycles, dec_step, UlpiDecoder.step, (pausing_activeCmd s).dec.quiet, hs]

theorem tokenFor_setupBytes : UlpiDecoder.TokenFor usbpidSetup 0 0 setupBytes :=
  ⟨0x00, 0x10, by decide, (UlpiDecoder.tokenOk_iff _ _).mp (by decide), by decide, by decide⟩

end Bus

end MiscVerilogCores.UsbUlpiTop
