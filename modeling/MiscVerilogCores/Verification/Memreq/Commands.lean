import MiscVerilogCores.Library.Clocked
import MiscVerilogCores.Model.Memreq

/-! # One command for each memory request

A request is a header of six bytes and, for a STORE, the bytes of the words behind it, unless `tlast`
cuts them short. The push strobe is set while the sixth byte is waited for, and the end flag follows
a counter that a cut leaves where it is; both are right if the sixth byte comes at once and no byte in
front of the last is taken while the end flag is high. -/

namespace MiscVerilogCores.Memreq

open Clocked

/-! ## What is asked for -/

/-- The command of a header. -/
def commandOf : List (BitVec 8) → Option Command
  | [cmd, len, adr0, adr1, adr2, idad] =>
      some ⟨cmd.msb, idad.extractLsb' 4 4, len, idad.setWidth 4 ++ (adr2 ++ (adr1 ++ adr0))⟩
  | _ => none

/-- The bytes behind the header. -/
def payloadLength (c : Command) : ℕ := if c.read then 0 else 4 * (c.len.toNat + 1)

/-- The header bytes and the number of payload bytes of the request that is being taken; the
commands of the headers so far, and those pushed; the payload bytes, with a flag on the last one of
each request, and those written. -/
structure Ledger where
  header : List (BitVec 8)
  left : ℕ
  commands : List Command
  pushed : List Command
  payload : List (Bool × BitVec 8)
  written : List (Bool × BitVec 8)

namespace Ledger

def empty : Ledger := ⟨[], 0, [], [], [], []⟩

/-- A byte of a request. -/
def byte (m : Ledger) (last : Bool) (d : BitVec 8) : Ledger :=
  if m.left = 0 then
    match commandOf (m.header ++ [d]) with
    | some c => { m with header := [], left := payloadLength c, commands := m.commands ++ [c] }
    | none => { m with header := m.header ++ [d] }
  else
    { m with
      payload := m.payload ++ [(last || m.left == 1, d)]
      left := if last then 0 else m.left - 1 }

def watch (m : Ledger) (s : State) (i : Inputs) : Ledger :=
  { (if i.sTvalid && sTready s i then m.byte i.sTlast i.sTdata else m) with
    pushed := m.pushed ++ Memreq.pushed s i
    written := m.written ++ Memreq.written s i }

end Ledger

/-- Requests, while the command FIFO is ready: `tlast` comes behind a header, or with the last byte of
the header of a FETCH. -/
structure Requests (m : Ledger) (i : Inputs) : Prop where
  reset : i.busReset = false
  ready : i.creadyW = true
  keep : i.sTvalid = true → i.sTkeep = true
  header : m.left = 0 → i.sTvalid = true → i.sTlast = true →
    m.header.length = 5 ∧ m.header.head?.any BitVec.msb = true

/-- The sixth byte of a header is taken as soon as it is asked for. -/
def SixthAtOnce (s : State) (i : Inputs) : Prop :=
  s.mopQ = .idad → i.sTvalid = true ∧ sTready s i = true

/-- While the end flag is high, only the last byte of a payload is taken, or of a FETCH. -/
def EndsInTime (s : State) (i : Inputs) : Prop :=
  i.sTvalid = true → sTready s i = true → s.endQ = true →
    s.mopQ = .busy ∧ s.cntQ = 1 ∨ s.mopQ = .idad ∧ s.cmdQ.msb = true

instance (m : Ledger) (i : Inputs) : Decidable (Requests m i) :=
  decidable_of_iff (i.busReset = false ∧ i.creadyW = true ∧ (i.sTvalid = true → i.sTkeep = true) ∧
      (m.left = 0 → i.sTvalid = true → i.sTlast = true →
        m.header.length = 5 ∧ m.header.head?.any BitVec.msb = true))
    ⟨fun h => ⟨h.1, h.2.1, h.2.2.1, h.2.2.2⟩, fun h => ⟨h.reset, h.ready, h.keep, h.header⟩⟩

instance (s : State) (i : Inputs) : Decidable (SixthAtOnce s i) := inferInstanceAs (Decidable (_ → _))

instance (s : State) (i : Inputs) : Decidable (EndsInTime s i) :=
  inferInstanceAs (Decidable (_ → _ → _ → _))

/-- The command that is being pushed. -/
def pending (s : State) : List Command := if cvalidW s then [cdataW s] else []

/-- The FSM waits for bytes of the request that it has begun, not for its response. -/
def Fsm.parsing : Fsm → Bool
  | .wadr | .wdat | .radr => true
  | _ => false

/-- Each header has been pushed once, or is being pushed, in order; the payloads are written, and
framed by their requests; the bytes of a request are asked for until its last, and then the FSM waits
for nothing but the response. -/
structure Exact (s : State) (m : Ledger) : Prop where
  commands : m.pushed ++ pending s = m.commands
  framing : m.written = m.payload
  asked : m.header ≠ [] ∨ m.left ≠ 0 → s.cycQ = true
  finished : s.cycQ = false → s.state.parsing = false

/-! ## The registers of a header -/

/-- The registers hold the bytes of a header that have been taken. -/
def Parsed (s : State) : List (BitVec 8) → Prop
  | [] => s.mopQ = .idle
  | [cmd] => s.mopQ = .size ∧ s.cmdQ = cmd
  | [cmd, len] => s.mopQ = .adr0 ∧ s.cmdQ = cmd ∧ s.lenQ = len
  | [cmd, len, adr0] => s.mopQ = .adr1 ∧ s.cmdQ = cmd ∧ s.lenQ = len ∧ s.adrQ.setWidth 8 = adr0
  | [cmd, len, adr0, adr1] =>
      s.mopQ = .adr2 ∧ s.cmdQ = cmd ∧ s.lenQ = len ∧ s.adrQ.setWidth 16 = adr1 ++ adr0
  | [cmd, len, adr0, adr1, adr2] =>
      s.mopQ = .idad ∧ s.cmdQ = cmd ∧ s.lenQ = len ∧
        s.adrQ.setWidth 24 = adr2 ++ (adr1 ++ adr0)
  | _ => False

/-- What `mopQ` is behind as many bytes of a header. -/
def asked : ℕ → Mop
  | 0 => .idle
  | 1 => .size
  | 2 => .adr0
  | 3 => .adr1
  | 4 => .adr2
  | 5 => .idad
  | _ => .busy

section Header

variable {s : State} {i : Inputs} {bs : List (BitVec 8)}

/-- The next byte of a header goes where it belongs. -/
theorem Parsed.byte (h : Parsed s bs) (hlen : bs.length < 5) :
    Parsed (parse s i) (bs ++ [i.sTdata]) := by
  match bs with
  | [] =>
    have hmop : s.mopQ = .idle := h
    simp [Parsed, parse, hmop]
  | [cmd] =>
    obtain ⟨hmop, hcmd⟩ := h
    simp [Parsed, parse, hmop, hcmd]
  | [cmd, len] =>
    obtain ⟨hmop, hcmd, hlen⟩ := h
    have hlow : (s.adrQ.extractLsb' 8 20 ++ i.sTdata).setWidth 8 = i.sTdata :=
      BitVec.setWidth_append_eq_right
    simpa [Parsed, parse, hmop, hcmd, hlen] using hlow
  | [cmd, len, adr0] =>
    obtain ⟨hmop, hcmd, hlen, hadr⟩ := h
    have hlow : (s.adrQ.extractLsb' 16 12 ++ (i.sTdata ++ adr0)).setWidth 16 = i.sTdata ++ adr0 :=
      BitVec.setWidth_append_eq_right
    simpa [Parsed, parse, hmop, hcmd, hlen, hadr] using hlow
  | [cmd, len, adr0, adr1] =>
    obtain ⟨hmop, hcmd, hlen, hadr⟩ := h
    have hlow : (s.adrQ.extractLsb' 24 4 ++ (i.sTdata ++ (adr1 ++ adr0))).setWidth 24 =
        i.sTdata ++ (adr1 ++ adr0) := BitVec.setWidth_append_eq_right
    simpa [Parsed, parse, hmop, hcmd, hlen, hadr] using hlow
  | _ :: _ :: _ :: _ :: _ :: _ =>
    simp at hlen
    omega

/-- A count of words, in bytes, as far as the counter goes. -/
theorem four_words (len : BitVec 8) :
    ((len.setWidth 9 + 1).setWidth 8 ++ 0#2 : BitVec 10) = BitVec.ofNat 10 (4 * (len.toNat + 1)) := by
  have hlt := len.isLt
  apply BitVec.eq_of_toNat_eq
  have happend := BitVec.toNat_append ((len.setWidth 9 + 1).setWidth 8) 0#2
  refine happend.trans ?_
  simp [Nat.shiftLeft_eq]
  omega

/-- With the sixth byte the registers hold the command. -/
theorem Parsed.last (h : Parsed s bs) (hlen : bs.length = 5) :
    ∃ c, commandOf (bs ++ [i.sTdata]) = some c ∧ cdataW (parse s i) = c ∧ s.cmdQ.msb = c.read ∧
      (parse s i).cntQ = BitVec.ofNat 10 (4 * (c.len.toNat + 1)) := by
  match bs with
  | [cmd, len, adr0, adr1, adr2] =>
    obtain ⟨hmop, rfl, rfl, hadr⟩ := h
    refine ⟨_, rfl, ?_, rfl, ?_⟩
    · simp [cdataW, parse, hmop, hadr]
    · rw [← four_words]
      simp [parse, hmop, incW]

/-- A shorter header is no command. -/
theorem commandOf_short {bs : List (BitVec 8)} (hlen : bs.length < 6) : commandOf bs = none := by
  match bs with
  | [] | [_] | [_, _] | [_, _, _] | [_, _, _, _] | [_, _, _, _, _] => rfl
  | _ :: _ :: _ :: _ :: _ :: _ :: _ =>
    simp at hlen
    omega

theorem Parsed.length_le (h : Parsed s bs) : bs.length ≤ 5 := by
  match bs with
  | [] | [_] | [_, _] | [_, _, _] | [_, _, _, _] | [_, _, _, _, _] => simp
  | _ :: _ :: _ :: _ :: _ :: _ :: _ => exact absurd h (by simp [Parsed])

/-- `mopQ` counts the bytes that have been taken. -/
theorem Parsed.mopQ_eq (h : Parsed s bs) : s.mopQ = asked bs.length := by
  match bs with
  | [] => exact h
  | [_] | [_, _] | [_, _, _] | [_, _, _, _] | [_, _, _, _, _] => exact h.1
  | _ :: _ :: _ :: _ :: _ :: _ :: _ => exact absurd h (by simp [Parsed])

theorem Parsed.mopQ_eq_idad (h : Parsed s bs) : s.mopQ = .idad ↔ bs.length = 5 := by
  have hasked : ∀ n ≤ 5, asked n = .idad ↔ n = 5 := by decide
  rw [h.mopQ_eq]
  exact hasked _ h.length_le

theorem Parsed.mopQ_ne_busy (h : Parsed s bs) : s.mopQ ≠ .busy := by
  have hasked : ∀ n ≤ 5, asked n ≠ .busy := by decide
  rw [h.mopQ_eq]
  exact hasked _ h.length_le

theorem Parsed.mopQ_eq_idle (h : Parsed s bs) : s.mopQ = .idle ↔ bs = [] := by
  have hasked : ∀ n ≤ 5, asked n = .idle ↔ n = 0 := by decide
  rw [h.mopQ_eq, ← List.length_eq_zero_iff]
  exact hasked _ h.length_le

/-- The first byte tells a FETCH. -/
theorem Parsed.msb_of_head (h : Parsed s bs) (hhead : bs.head?.any BitVec.msb = true) :
    s.cmdQ.msb = true := by
  match bs with
  | [] => simp at hhead
  | [_] => simpa [h.2] using hhead
  | [_, _] | [_, _, _] | [_, _, _, _] | [_, _, _, _, _] => simpa [h.2.1] using hhead
  | _ :: _ :: _ :: _ :: _ :: _ :: _ => exact absurd h (by simp [Parsed])

end Header

/-! ## The phases of a request -/

/-- What the registers are, between the bytes of requests. -/
inductive Phase (s : State) (m : Ledger) : Prop
  | closed (cyc : s.cycQ = false) (header : m.header = []) (left : m.left = 0)
      (wen : s.wenQ = false) (mop : s.mopQ ≠ .idad) (fsm : s.state.parsing = false)
  | header (cyc : s.cycQ = true) (parsed : Parsed s m.header) (left : m.left = 0)
      (wen : s.wenQ = false) (stb : s.stbQ = false)
      (fsm : s.state =
        if m.header = [] then .idle else if s.cmdQ.msb then .radr else .wadr)
  | payload (cyc : s.cycQ = true) (header : m.header = []) (pos : 0 < m.left) (le : m.left ≤ 1024)
      (mop : s.mopQ = .busy) (count : s.cntQ = BitVec.ofNat 10 m.left) (wen : s.wenQ = true)
      (last : m.left = 1 → s.endQ = true) (fsm : s.state = .wdat)

structure Inv (s : State) (m : Ledger) : Prop where
  phase : Phase s m
  commands : m.pushed ++ pending s = m.commands
  framing : m.written = m.payload

theorem Inv.exact {s : State} {m : Ledger} (h : Inv s m) : Exact s m := by
  refine ⟨h.commands, h.framing, ?_, ?_⟩
  · intro hbytes
    cases h.phase with
    | closed cyc header left => simp [header, left] at hbytes
    | header cyc => exact cyc
    | payload cyc => exact cyc
  · intro hcyc
    cases h.phase with
    | closed cyc header left wen mop fsm => exact fsm
    | header cyc => simp [cyc] at hcyc
    | payload cyc => simp [cyc] at hcyc

section Step

variable {s : State} {i : Inputs} {m : Ledger}

/-! ### The strobe -/

/-- What is being pushed is taken at once. -/
theorem pushed_eq_pending (hready : i.creadyW = true) : pushed s i = pending s := by
  simp [pushed, pending, hready]

/-- No push begins before the sixth byte is asked for. -/
theorem pending_step (hreset : i.busReset = false) (hready : i.creadyW = true)
    (hmop : s.mopQ ≠ .idad) : pending (step s i) = [] := by
  cases hstb : s.stbQ <;> simp [pending, cvalidW, step, hreset, hready, hmop, hstb]

/-- The sixth byte sets the strobe. -/
theorem pending_step_idad (hreset : i.busReset = false) (hmop : s.mopQ = .idad)
    (hstb : s.stbQ = false) : pending (step s i) = [cdataW (step s i)] := by
  simp [pending, cvalidW, step, hreset, hmop, hstb]

/-! ### The counter -/

theorem decW_eq_one {left : ℕ} (hle : left ≤ 1024) (hcount : s.cntQ = BitVec.ofNat 10 left) :
    decW s = 1 ↔ left = 2 := by
  rw [decW, hcount, ← BitVec.toNat_inj]
  simp [BitVec.toNat_sub]
  omega

theorem decW_eq_zero {left : ℕ} (hle : left ≤ 1024) (hcount : s.cntQ = BitVec.ofNat 10 left) :
    decW s = 0 ↔ left = 1 := by
  rw [decW, hcount, ← BitVec.toNat_inj]
  simp [BitVec.toNat_sub]
  omega

theorem decW_low {left : ℕ} (hpos : 0 < left) (hcount : s.cntQ = BitVec.ofNat 10 left) :
    (decW s).setWidth 10 = BitVec.ofNat 10 (left - 1) := by
  rw [decW, hcount, ← BitVec.toNat_inj]
  simp [BitVec.toNat_sub]
  omega

/-! ### The ports -/

/-- Without a byte only the push is seen. -/
theorem Ledger.watch_quiet (htaken : (i.sTvalid && sTready s i) = false) :
    m.watch s i = { m with
      pushed := m.pushed ++ Memreq.pushed s i
      written := m.written ++ Memreq.written s i } := by
  simp [Ledger.watch, htaken]

/-- No byte of a header is written. -/
theorem written_header (hwen : s.wenQ = false) : written s i = [] := by
  simp [written, svalidW, tkeepW, hwen]

/-- Each byte of a payload is written. -/
theorem written_payload (hready : i.creadyW = true) (hcyc : s.cycQ = true)
    (hwen : s.wenQ = true) :
    written s i = if i.sTvalid && sTready s i then [(tlastW s i, i.sTdata)] else [] := by
  simp [written, svalidW, tkeepW, sTready, hwen, hready, hcyc]

/-- The commands agree still if no header is complete. -/
theorem commands_step (hreset : i.busReset = false) (hready : i.creadyW = true)
    (hmop : s.mopQ ≠ .idad) (h : m.pushed ++ pending s = m.commands) :
    (m.pushed ++ pushed s i) ++ pending (step s i) = m.commands := by
  rw [pending_step hreset hready hmop, pushed_eq_pending hready, h, List.append_nil]

/-- Without a byte no request begins to be parsed. -/
theorem parsing_stateNext (hreset : i.busReset = false)
    (htaken : (i.sTvalid && sTready s i) = false) (hfsm : s.state.parsing = false) :
    (stateNext s i).parsing = false := by
  cases hstate : s.state with
  | wadr | wdat | radr => simp [hstate, Fsm.parsing] at hfsm
  | idle =>
    simp only [stateNext, hreset, hstate, htaken, Bool.false_and]
    rfl
  | resp | rdat | send | done =>
    simp only [stateNext, hreset, hstate]
    split
    · contradiction
    · split <;> rfl

/-! ### Between requests -/

/-- Outside of a request nothing is taken, and one begins with a valid byte. -/
theorem Inv.step_closed (h : Inv s m) (hreq : Requests m i) (hcyc : s.cycQ = false)
    (hheader : m.header = []) (hleft : m.left = 0) (hwen : s.wenQ = false) (hmop : s.mopQ ≠ .idad)
    (hfsm : s.state.parsing = false) : Inv (step s i) (m.watch s i) := by
  have htaken : (i.sTvalid && sTready s i) = false := by simp [sTready, hcyc]
  rw [Ledger.watch_quiet htaken, written_header hwen, List.append_nil]
  refine ⟨?_, commands_step hreq.reset hreq.ready hmop h.commands, h.framing⟩
  have hwen' : (step s i).wenQ = false := by simp [step, hreq.reset, hmop, htaken, hwen]
  have hmop' : (step s i).mopQ = .idle := by simp [step, header, hreq.reset, hcyc]
  have hstb' : (step s i).stbQ = false := by
    cases hstb : s.stbQ <;> simp [step, hreq.reset, hreq.ready, hmop, hstb]
  by_cases hbegins : begins s i = true
  · apply Phase.header
    · simp [step, hreq.reset, hbegins]
    · show Parsed (step s i) m.header
      rw [hheader]
      exact hmop'
    · exact hleft
    · exact hwen'
    · exact hstb'
    · have hidle : s.state = .idle := by simp_all [begins]
      simp [step, stateNext, hreq.reset, hidle, htaken, hheader]
  · apply Phase.closed
    · simp [step, hreq.reset, hbegins, hcyc]
    · exact hheader
    · exact hleft
    · exact hwen'
    · simp [hmop']
    · exact parsing_stateNext hreq.reset htaken hfsm

/-! ### In a header -/

/-- Only the parser changes what has been parsed. -/
theorem parsed_step {bs : List (BitVec 8)} (h : Parsed (Memreq.header s i) bs) :
    Parsed (step s i) bs := by
  match bs with
  | [] | [_] | [_, _] | [_, _, _] | [_, _, _, _] | [_, _, _, _, _] => exact h
  | _ :: _ :: _ :: _ :: _ :: _ :: _ => exact absurd h (by simp [Parsed])

theorem header_of_taken (hreset : i.busReset = false) (hcyc : s.cycQ = true)
    (htaken : (i.sTvalid && sTready s i) = true) : Memreq.header s i = parse s i := by
  simp [Memreq.header, hreset, hcyc, htaken]

theorem header_of_quiet (hreset : i.busReset = false) (hcyc : s.cycQ = true)
    (htaken : (i.sTvalid && sTready s i) = false) : Memreq.header s i = s := by
  simp [Memreq.header, hreset, hcyc, htaken]

theorem parse_cmdQ :
    (parse s i).cmdQ = if s.mopQ = .idle then i.sTdata else s.cmdQ := by
  cases hmop : s.mopQ <;> simp [parse, hmop]

section Header

variable (h : Inv s m) (hreq : Requests m i) (hcyc : s.cycQ = true)
  (hparsed : Parsed s m.header) (hleft : m.left = 0) (hwen : s.wenQ = false) (hstb : s.stbQ = false)
  (hfsm : s.state = if m.header = [] then .idle else if s.cmdQ.msb then .radr else .wadr)

include h hreq hcyc hparsed hleft hwen hstb hfsm

/-- A stall before the sixth byte changes nothing but the end flag. -/
theorem Inv.step_header_quiet (hmop : s.mopQ ≠ .idad)
    (htaken : (i.sTvalid && sTready s i) = false) : Inv (step s i) (m.watch s i) := by
  have hbegins : begins s i = false := by simp [begins, hcyc]
  have hsame : Memreq.header s i = s := header_of_quiet hreq.reset hcyc htaken
  rw [Ledger.watch_quiet htaken, written_header hwen, List.append_nil]
  refine ⟨?_, commands_step hreq.reset hreq.ready hmop h.commands, h.framing⟩
  apply Phase.header
  · simp [step, hreq.reset, hbegins, hcyc, htaken]
  · apply parsed_step
    rwa [hsame]
  · exact hleft
  · simp [step, hreq.reset, hmop, htaken, hwen]
  · simp [step, hreq.reset, hmop, hstb]
  · show stateNext s i = if m.header = [] then .idle
      else if (Memreq.header s i).cmdQ.msb then .radr else .wadr
    rw [hsame, ← hfsm]
    by_cases hnil : m.header = []
    · simp [stateNext, hreq.reset, hfsm, hnil, htaken]
    · cases hmsb : s.cmdQ.msb <;>
        simp [stateNext, hreq.reset, hfsm, hnil, hmsb, cmdEndW, hmop]

/-- One of the first five bytes is parsed, and the FSM goes with the first. -/
theorem Inv.step_header_byte (hlen : m.header.length < 5) (hend : s.endQ = false)
    (htaken : (i.sTvalid && sTready s i) = true) : Inv (step s i) (m.watch s i) := by
  have hbegins : begins s i = false := by simp [begins, hcyc]
  have hvalid : i.sTvalid = true := by simp_all
  have hmop : s.mopQ ≠ .idad := by
    rw [Ne, hparsed.mopQ_eq_idad]
    omega
  have hlast : tlastW s i = false := by
    have hnot : i.sTlast ≠ true := by
      intro hlast
      have hfive := (hreq.header hleft hvalid hlast).1
      omega
    simp [tlastW, hend, hnot]
  have hshort : commandOf (m.header ++ [i.sTdata]) = none := commandOf_short (by simp; omega)
  have hparse := header_of_taken hreq.reset hcyc htaken
  have hwatch : m.watch s i = { m with
      header := m.header ++ [i.sTdata]
      pushed := m.pushed ++ Memreq.pushed s i } := by
    simp [Ledger.watch, Ledger.byte, htaken, hleft, hshort, written_header hwen]
  rw [hwatch]
  refine ⟨?_, commands_step hreq.reset hreq.ready hmop h.commands, h.framing⟩
  apply Phase.header
  · simp [step, hreq.reset, hbegins, hcyc, hlast, hmop]
  · apply parsed_step
    rw [hparse]
    exact hparsed.byte hlen
  · exact hleft
  · simp [step, hreq.reset, hmop, hlast, hwen]
  · simp [step, hreq.reset, hmop, hstb]
  · show stateNext s i = if m.header ++ [i.sTdata] = [] then .idle
      else if (Memreq.header s i).cmdQ.msb then .radr else .wadr
    rw [hparse, parse_cmdQ]
    by_cases hnil : m.header = []
    · have hidle : s.mopQ = .idle := hparsed.mopQ_eq_idle.mpr hnil
      simp only [stateNext, hreq.reset, hfsm, hnil, htaken, hreq.keep hvalid, hidle]
      simp
    · have hne : s.mopQ ≠ .idle := fun hidle => hnil (hparsed.mopQ_eq_idle.mp hidle)
      cases hmsb : s.cmdQ.msb <;>
        simp [stateNext, hreq.reset, hfsm, hnil, hmsb, cmdEndW, hmop, hne]

/-- With the sixth byte the command is pushed, and a STORE goes on to its payload. -/
theorem Inv.step_header_last (hlen : m.header.length = 5)
    (hend : s.endQ = true → s.cmdQ.msb = true) (htaken : (i.sTvalid && sTready s i) = true) :
    Inv (step s i) (m.watch s i) := by
  have hbegins : begins s i = false := by simp [begins, hcyc]
  have hvalid : i.sTvalid = true := by simp_all
  have hmop : s.mopQ = .idad := hparsed.mopQ_eq_idad.mpr hlen
  have hnil : m.header ≠ [] := by
    intro hnil
    simp [hnil] at hlen
  have hparse := header_of_taken hreq.reset hcyc htaken
  have hbusy : (step s i).mopQ = .busy := by
    show (Memreq.header s i).mopQ = .busy
    simp [hparse, parse, hmop]
  obtain ⟨c, hcommand, hcdata, hread, hcount⟩ := hparsed.last (i := i) hlen
  have hpending : pending (step s i) = [c] := by
    rw [pending_step_idad hreq.reset hmop hstb, ← hcdata, ← hparse]
    rfl
  have hpushed : pushed s i = [] := by simp [pushed, cvalidW, hstb]
  have hcommands : (m.pushed ++ pushed s i) ++ pending (step s i) = m.commands ++ [c] := by
    have hidle : pending s = [] := by simp [pending, cvalidW, hstb]
    rw [hpushed, hpending, ← h.commands, hidle, List.append_nil]
  have hwatch : m.watch s i = { m with
      header := []
      left := payloadLength c
      commands := m.commands ++ [c]
      pushed := m.pushed ++ Memreq.pushed s i } := by
    simp [Ledger.watch, Ledger.byte, htaken, hleft, hcommand, written_header hwen]
  rw [hwatch]
  refine ⟨?_, hcommands, h.framing⟩
  cases hdir : c.read with
  | true =>
    rw [hdir] at hread
    apply Phase.closed
    · simp only [step, hreq.reset, hbegins, htaken, hmop, hread]
      simp
    · rfl
    · simp [payloadLength, hdir]
    · simp [step, hreq.reset, hread, hwen]
    · simp [hbusy]
    · show (stateNext s i).parsing = false
      simp [stateNext, hreq.reset, hfsm, hnil, hread, cmdEndW, hmop, Fsm.parsing]
  | false =>
    rw [hdir] at hread
    have hlen := c.len.isLt
    have hlast : tlastW s i = false := by
      have hnot : i.sTlast ≠ true := by
        intro hlast
        have hfetch := hparsed.msb_of_head (hreq.header hleft hvalid hlast).2
        simp [hread] at hfetch
      have hlow : s.endQ ≠ true := by
        intro hhigh
        simp [hend hhigh] at hread
      simp [tlastW, hlow, hnot]
    apply Phase.payload
    · simp [step, hreq.reset, hbegins, hcyc, hlast, hread]
    · rfl
    · simp [payloadLength, hdir]
    · simp [payloadLength, hdir]
      omega
    · exact hbusy
    · show (Memreq.header s i).cntQ = _
      simp [hparse, hcount, payloadLength, hdir]
    · simp [step, hreq.reset, hread, hmop, hfsm, hnil]
    · intro hone
      have hshort : payloadLength c = 1 := hone
      rw [payloadLength, hdir, if_neg Bool.false_ne_true] at hshort
      omega
    · show stateNext s i = .wdat
      simp [stateNext, hreq.reset, hfsm, hnil, hread, cmdEndW, hmop]

end Header

/-! ### In a payload -/

section Payload

variable (h : Inv s m) (hreq : Requests m i) (hcyc : s.cycQ = true) (hheader : m.header = [])
  (hpos : 0 < m.left) (hle : m.left ≤ 1024) (hmop : s.mopQ = .busy)
  (hcount : s.cntQ = BitVec.ofNat 10 m.left) (hwen : s.wenQ = true) (hfsm : s.state = .wdat)

include h hreq hcyc hheader hpos hle hmop hcount hwen hfsm

/-- A stall in a payload raises the end flag for its last byte. -/
theorem Inv.step_payload_quiet (htaken : (i.sTvalid && sTready s i) = false) :
    Inv (step s i) (m.watch s i) := by
  have hbegins : begins s i = false := by simp [begins, hcyc]
  have hsame : Memreq.header s i = s := header_of_quiet hreq.reset hcyc htaken
  have hwritten : written s i = [] := by
    rw [written_payload hreq.ready hcyc hwen, htaken]
    rfl
  rw [Ledger.watch_quiet htaken, hwritten, List.append_nil]
  refine ⟨?_, commands_step hreq.reset hreq.ready (by simp [hmop]) h.commands, h.framing⟩
  apply Phase.payload
  · simp [step, hreq.reset, hbegins, hcyc, htaken]
  · exact hheader
  · exact hpos
  · exact hle
  · show (Memreq.header s i).mopQ = .busy
    rw [hsame, hmop]
  · show (Memreq.header s i).cntQ = _
    rw [hsame, hcount]
  · simp [step, hreq.reset, hmop, htaken, hwen]
  · intro hone
    have hzero : decW s = 0 := (decW_eq_zero hle hcount).mpr hone
    have hquiet : (!i.sTvalid || !sTready s i) = true := by rw [← Bool.not_and, htaken]; rfl
    simp only [step, hreq.reset, hbegins, hquiet, hzero]
    simp
  · show stateNext s i = .wdat
    simp [stateNext, hreq.reset, hfsm, htaken]

/-- A byte of a payload is written, and the last ends the request. -/
theorem Inv.step_payload_byte (hend : s.endQ = (m.left == 1))
    (htaken : (i.sTvalid && sTready s i) = true) : Inv (step s i) (m.watch s i) := by
  have hbegins : begins s i = false := by simp [begins, hcyc]
  have hparse := header_of_taken hreq.reset hcyc htaken
  have hbusy : (step s i).mopQ = .busy := by
    show (Memreq.header s i).mopQ = .busy
    simp [hparse, parse, hmop]
  have hwatch : m.watch s i = { m with
      left := if i.sTlast then 0 else m.left - 1
      payload := m.payload ++ [(i.sTlast || m.left == 1, i.sTdata)]
      pushed := m.pushed ++ Memreq.pushed s i
      written := m.written ++ [(i.sTlast || m.left == 1, i.sTdata)] } := by
    simp [Ledger.watch, Ledger.byte, htaken, hpos.ne', written_payload hreq.ready hcyc hwen, tlastW,
      hend]
  rw [hwatch]
  refine ⟨?_, commands_step hreq.reset hreq.ready (by simp [hmop]) h.commands, by rw [h.framing]⟩
  cases hlast : i.sTlast || m.left == 1 with
  | true =>
    have htlast : tlastW s i = true := by rw [tlastW, hend, hlast]
    apply Phase.closed
    · simp only [step, hreq.reset, hbegins, htaken, htlast]
      simp
    · exact hheader
    · rcases (Bool.or_eq_true _ _).mp hlast with hcut | hone
      · simp [hcut]
      · simp [beq_iff_eq.mp hone]
    · simp [step, hreq.reset, hmop, htaken, htlast]
    · simp [hbusy]
    · show (stateNext s i).parsing = false
      simp only [stateNext, hreq.reset, hfsm, htaken, hend, hlast]
      rfl
  | false =>
    obtain ⟨hcut, hone⟩ := Bool.or_eq_false_iff.mp hlast
    have hone : m.left ≠ 1 := by simpa using hone
    have htlast : tlastW s i = false := by rw [tlastW, hend, hlast]
    apply Phase.payload
    · simp [step, hreq.reset, hbegins, hcyc, htlast, hmop]
    · exact hheader
    · simp [hcut]
      omega
    · simp [hcut]
      omega
    · exact hbusy
    · show (Memreq.header s i).cntQ = _
      simp [hparse, parse, hmop, hcut, decW_low hpos hcount]
    · simp [step, hreq.reset, hmop, htlast, hwen]
    · intro hnext
      have htwo : m.left = 2 := by
        simp [hcut] at hnext
        omega
      have hdec : decW s = 1 := (decW_eq_one hle hcount).mpr htwo
      simp only [step, hreq.reset, hbegins, htaken, hdec]
      simp
    · show stateNext s i = .wdat
      simp only [stateNext, hreq.reset, hfsm, htaken, hend, hlast]
      rfl

end Payload

/-! ## The run -/

/-- The sixth byte of each header at once, and nothing taken behind a stale end flag: one edge. -/
theorem Inv.step (h : Inv s m) (hreq : Requests m i) (hsixth : SixthAtOnce s i)
    (hends : EndsInTime s i) : Inv (Memreq.step s i) (m.watch s i) := by
  cases h.phase with
  | closed cyc header left wen mop fsm => exact h.step_closed hreq cyc header left wen mop fsm
  | header cyc parsed left wen stb fsm =>
    cases htaken : i.sTvalid && sTready s i with
    | false =>
      have hmop : s.mopQ ≠ .idad := by
        intro hmop
        simp [hsixth hmop] at htaken
      exact h.step_header_quiet hreq cyc parsed left wen stb fsm hmop htaken
    | true =>
      have hend (hend : s.endQ = true) : s.mopQ = .idad ∧ s.cmdQ.msb = true := by
        obtain ⟨hvalid, hready⟩ := (Bool.and_eq_true _ _).mp htaken
        exact (hends hvalid hready hend).resolve_left fun hbusy => parsed.mopQ_ne_busy hbusy.1
      rcases parsed.length_le.lt_or_eq with hlen | hlen
      · have hlow : s.endQ = false := by
          by_contra hhigh
          have hfive := parsed.mopQ_eq_idad.mp (hend (by simpa using hhigh)).1
          omega
        exact h.step_header_byte hreq cyc parsed left wen stb fsm hlen hlow htaken
      · exact h.step_header_last hreq cyc parsed left wen stb fsm hlen (fun hhigh => (hend hhigh).2)
          htaken
  | payload cyc header pos le mop count wen last fsm =>
    cases htaken : i.sTvalid && sTready s i with
    | false => exact h.step_payload_quiet hreq cyc header pos le mop count wen fsm htaken
    | true =>
      have hend : s.endQ = (m.left == 1) := by
        obtain ⟨hvalid, hready⟩ := (Bool.and_eq_true _ _).mp htaken
        cases hend : s.endQ with
        | true =>
          have hone : s.cntQ = 1 := by simpa [mop] using hends hvalid hready hend
          rw [count, ← BitVec.toNat_inj] at hone
          simp at hone
          have hleft : m.left = 1 := by omega
          simp [hleft]
        | false =>
          have hmore : m.left ≠ 1 := fun hone => by simp [last hone] at hend
          simp [hmore]
      exact h.step_payload_byte hreq cyc header pos le mop count wen fsm hend htaken

end Step

theorem inv_reset (s₀ : State) {r : Inputs} (hr : r.busReset = true) :
    Inv (step s₀ r) Ledger.empty := by
  refine ⟨.closed ?_ rfl rfl ?_ ?_ ?_, ?_, rfl⟩
  · simp [step, hr]
  · simp [step, hr]
  · simp [step, header, hr]
  · simp [step, stateNext, hr, Fsm.parsing]
  · simp [pending, cvalidW, step, hr, Ledger.empty]

/-- The parser with its ledger, after a reset. -/
def watchedRun (s₀ : State) (r : Inputs) (is : List Inputs) : State × Ledger :=
  run (watched step Ledger.watch) (step s₀ r, Ledger.empty) is

/-- In a run of requests whose edges also meet a condition, each header becomes one command, and each
payload is framed by its own request. -/
def AlwaysExact (ok : State → Inputs → Prop) : Prop :=
  ∀ (s₀ : State) (r : Inputs) (is : List Inputs), r.busReset = true →
    Along (watched step Ledger.watch) (fun q i => Requests q.2 i ∧ ok q.1 i)
      (step s₀ r, Ledger.empty) is →
    Exact (watchedRun s₀ r is).1 (watchedRun s₀ r is).2

/-- A cycle in which the FIFO, the adapter and the write response are ready, and a byte may be
offered. -/
def byteInputs (valid last : Bool) (data : BitVec 8) : Inputs where
  busReset := false
  sTvalid := valid
  sTkeep := valid
  sTlast := last
  sTdata := data
  sreadyW := true
  creadyW := true
  rvalidW := true
  bTvalid := true
  bTready := true
  bTlast := true
  mTvalid := true
  mTready := true
  mTlast := true
  muxQ := false
  selQ := false

def resetInputs : Inputs := { byteInputs false false 0 with busReset := true }

/-- Bytes one after the other, the first of them offered for a cycle before it is taken, without
`tlast`. -/
def request (ds : List (BitVec 8)) : List Inputs :=
  byteInputs true false (ds.headD 0) :: ds.map (byteInputs true false)

/-- Four cycles without a byte. -/
def pause : List Inputs := List.replicate 4 (byteInputs false false 0)

/-- While the sixth byte of a FETCH is late, the command is pushed without it. -/
theorem not_alwaysExact_endsInTime : ¬ AlwaysExact EndsInTime := by
  intro h
  let is := request [0x80, 3, 0x44, 0x55, 0x66] ++
    [byteInputs false false 0, byteInputs true true 0x77]
  have hexact := h default resetInputs is rfl (by decide +kernel)
  exact absurd hexact.commands (by decide +kernel)

/-- Behind a STORE that is cut two bytes short, the second byte of a header ends the next request. -/
theorem not_alwaysExact_sixthAtOnce : ¬ AlwaysExact SixthAtOnce := by
  intro h
  let is := request [0x01, 0, 0x11, 0x22, 0x33, 0x54, 1] ++ [byteInputs true true 2] ++ pause ++
    request [0x80, 3]
  have hexact := h default resetInputs is rfl (by decide +kernel)
  exact absurd (hexact.asked (by decide +kernel)) (by decide +kernel)

end MiscVerilogCores.Memreq
