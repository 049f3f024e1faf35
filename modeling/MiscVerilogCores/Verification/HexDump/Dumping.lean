import MiscVerilogCores.Library.Clocked
import MiscVerilogCores.Verification.HexDump.Text

/-! # Frames are dumped as text

What has been accepted is what has been delivered, what the FIFO holds, and what is left of the word
that is being pushed. When a frame ends with the first byte of a word, the FSM neither sets the
separator nor stops the source, and without Unicode it goes on in the wrong state. -/

namespace MiscVerilogCores.HexDump

open Clocked

/-! ## What is asked for -/

/-- Frames are to be dumped, and each beat has a byte. -/
structure Driven (i : Inputs) : Prop where
  reset : i.reset = false
  start : i.startDumpI = true
  keep : i.sTvalid = true → i.sTkeep = true

/-- A frame that ends with the first byte of a word finds a newline as the separator, in Unicode, and no
byte is offered while its word is pushed. -/
structure Whole (unicode : Bool) (s : State) (i : Inputs) : Prop where
  odd : s.state = 0x1 → i.sTvalid = true → i.sTlast = true →
    unicode = true ∧ s.wspace = ascii '\n'
  quiet : 0x3 ≤ s.state → s.tready = true → i.sTvalid = false

/-- The FIFO has room and passes its oldest word on. -/
def passes (i : Inputs) : Bool := i.fready && i.offers && i.mTready

/-- The bytes accepted in a run, with their `tlast`. -/
def bytesIn (unicode : Bool) (d : Dumper) (is : List Inputs) : List (Bool × BitVec 8) :=
  emitted (dumperStep unicode) (fun d i => accepted d.fsm i) d is

/-- The characters delivered in a run, with their `tlast`. -/
def textOut (unicode : Bool) (d : Dumper) (is : List Inputs) : List (Bool × BitVec 8) :=
  emitted (dumperStep unicode) delivered d is

/-- What is delivered is the text of what has been accepted: all of it when nothing is on the way, and
once the FIFO has moved often enough. -/
structure Dumps (unicode : Bool) (d : Dumper) (is : List Inputs) : Prop where
  order : textOut unicode d is <+: dumpText unicode (bytesIn unicode d is)
  complete : (run (dumperStep unicode) d is).fifo = [] →
    (run (dumperStep unicode) d is).fsm.state ∈ [0x0, 0x1, 0x2, 0xd] →
    textOut unicode d is = dumpText unicode (bytesIn unicode d is)
  prompt : ∀ pre post, is = pre ++ post →
    2 * ((dumpText unicode (bytesIn unicode d pre)).length - (textOut unicode d pre).length) + 1 ≤
      post.countP passes →
    dumpText unicode (bytesIn unicode d pre) <+: textOut unicode d is

/-! ## The characters of a word -/

/-- What the FSM pushes in a state. -/
def characterAt (s : State) (k : BitVec 4) : Bool × BitVec 8 :=
  (flast { s with state := k }, fdata { s with state := k })

/-- From a state on, these characters are pushed. -/
def Sends (unicode : Bool) (s : State) (k : BitVec 4) : List (Bool × BitVec 8) → Prop
  | [] => False
  | [w] => k = 0xc ∧ w = characterAt s k
  | w :: w' :: ws =>
      0x3 ≤ k ∧ k ≤ 0xb ∧ w = characterAt s k ∧
        Sends unicode s (snext unicode { s with state := k }) (w' :: ws)

section Words

variable {unicode : Bool} {s s' : State} {k : BitVec 4} {left : List (Bool × BitVec 8)}

theorem Sends.bounds (h : Sends unicode s k left) : 0x3 ≤ k ∧ k ≤ 0xc := by
  match left with
  | [] => exact absurd h id
  | [_] => simp [h.1]
  | _ :: _ :: _ =>
      have hlow := h.1
      have hhigh := h.2.1
      bv_omega

theorem Sends.congr (hsame : characterAt s' = characterAt s) (h : Sends unicode s k left) :
    Sends unicode s' k left := by
  induction left generalizing k with
  | nil => exact h
  | cons w left ih =>
      cases left with
      | nil => exact ⟨h.1, hsame ▸ h.2⟩
      | cons w' left => exact ⟨h.1, h.2.1, hsame ▸ h.2.2.1, ih h.2.2.2⟩

/-- The registers hold the characters of a word. -/
structure Registers (s : State) (lo : BitVec 8) (hi : Option (BitVec 8)) (last : Bool)
    (separator : BitVec 8) : Prop where
  low : [s.tbyte1, s.tbyte0] = byteText (some lo)
  high : [s.tbyte3, s.tbyte2] = byteText hi
  last : s.plast = last
  space : s.wspace = separator

theorem Registers.sends {lo : BitVec 8} {hi : Option (BitVec 8)} {last : Bool}
    {separator : BitVec 8} (h : Registers s lo hi last separator) :
    Sends unicode s (if unicode then 0x3 else 0x4) (wordText unicode lo hi last separator) := by
  rw [wordText, ← h.low, ← h.high, ← h.last, ← h.space]
  cases unicode <;>
    simp [Sends, character, characterAt, snext, flast, fdata]

end Words

/-! ## The phases of the FSM -/

/-- Where the FSM is, with the bytes of the frame that has not ended, and the characters that are to be
pushed. -/
inductive Phase (unicode : Bool) (s : State) (bytes : List (BitVec 8)) :
    List (Bool × BitVec 8) → Prop
  | idle (state : s.state = 0x0) (ready : s.tready = false) (valid : s.fvalid = false)
      (frame : bytes = []) : Phase unicode s bytes []
  | first (state : s.state = 0x1) (ready : s.tready = true) (valid : s.fvalid = false)
      (last : s.plast = false) (even : bytes.length % 2 = 0) (dash : s.dashQ = dashAfter true bytes) :
      Phase unicode s bytes []
  | second {front : List (BitVec 8)} {lo : BitVec 8} (state : s.state = 0x2)
      (ready : s.tready = true) (valid : s.fvalid = false) (last : s.plast = false)
      (frame : bytes = front ++ [lo]) (even : front.length % 2 = 0)
      (dash : s.dashQ = dashAfter true front) (low : [s.tbyte1, s.tbyte0] = byteText (some lo)) :
      Phase unicode s bytes []
  | sending {left : List (Bool × BitVec 8)} (sends : Sends unicode s s.state left)
      (ended : s.plast = true → bytes = [])
      (goesOn : s.plast = false → bytes.length % 2 = 0 ∧ s.dashQ = dashAfter true bytes) :
      Phase unicode s bytes left
  | waiting (state : s.state = 0xd) (ready : s.tready = false) (valid : s.fvalid = false)
      (frame : bytes = []) : Phase unicode s bytes []

/-- An edge of the FSM: what it pushes was the front of what is left, and the text of what it accepts
goes behind it. -/
structure Edge (unicode : Bool) (s : State) (i : Inputs) (beats : List (Bool × BitVec 8))
    (left text left' : List (Bool × BitVec 8)) : Prop where
  moved : left ++ text = pushed s i ++ left'
  text : dumpText unicode (beats ++ accepted s i) = dumpText unicode beats ++ text
  phase : Phase unicode (step unicode s i) (Packets.frames (beats ++ accepted s i)).frame left'

section Edges

variable {unicode : Bool} {s : State} {i : Inputs} {beats left : List (Bool × BitVec 8)}

/-- An edge at which nothing is accepted. -/
theorem Edge.of_none {left' : List (Bool × BitVec 8)} (hnone : accepted s i = [])
    (hmoved : left = pushed s i ++ left')
    (hphase : Phase unicode (step unicode s i) (Packets.frames beats).frame left') :
    Edge unicode s i beats left [] left' := by
  refine ⟨by simpa using hmoved, ?_, ?_⟩ <;> simp [hnone, hphase]

/-- An edge at which the characters of a word come up. -/
theorem Edge.of_word {text : List (Bool × BitVec 8)} (hvalid : s.fvalid = false)
    (htext : dumpText unicode (beats ++ accepted s i) = dumpText unicode beats ++ text)
    (hphase : Phase unicode (step unicode s i) (Packets.frames (beats ++ accepted s i)).frame text) :
    Edge unicode s i beats [] text text :=
  ⟨by simp [pushed, hvalid], htext, hphase⟩

theorem idle_next (hi : Driven i) (hstate : s.state = 0x0) (hready : s.tready = false)
    (hvalid : s.fvalid = false) (hframe : (Packets.frames beats).frame = []) :
    Edge unicode s i beats [] [] [] := by
  have hnone : accepted s i = [] := by simp [accepted, sTready, hready]
  refine .of_none hnone (by simp [pushed, hvalid]) ?_
  cases hv : i.sTvalid
  · apply Phase.idle <;> simp [step, hi.reset, hstate, hv, hframe]
  · apply Phase.first <;> simp [step, hi.reset, hi.start, hstate, hv, hframe, dashAfter]

theorem waiting_next (hi : Driven i) (hstate : s.state = 0xd) (hready : s.tready = false)
    (hvalid : s.fvalid = false) (hframe : (Packets.frames beats).frame = []) :
    Edge unicode s i beats [] [] [] := by
  have hnone : accepted s i = [] := by simp [accepted, sTready, hready]
  refine .of_none hnone (by simp [pushed, hvalid]) ?_
  cases hlevel : i.levelTop
  · apply Phase.idle <;> simp [step, hi.reset, hstate, hlevel, hready, hvalid, hframe]
  · apply Phase.waiting <;> simp [step, hi.reset, hstate, hlevel, hready, hvalid, hframe]

/-- The first byte of a word is captured, with what stands for the second if the frame ends. -/
theorem first_next (hi : Driven i) (hw : Whole unicode s i) (hstate : s.state = 0x1)
    (hready : s.tready = true) (hvalid : s.fvalid = false) (hlast : s.plast = false)
    (heven : (Packets.frames beats).frame.length % 2 = 0)
    (hdash : s.dashQ = dashAfter true (Packets.frames beats).frame) :
    ∃ text left', Edge unicode s i beats [] text left' := by
  have hpushed : pushed s i = [] := by simp [pushed, hvalid]
  cases hv : i.sTvalid with
  | false =>
      refine ⟨[], [], .of_none (by simp [accepted, hv]) (by simp [hpushed]) ?_⟩
      apply Phase.first <;> simp [step, hi.reset, hstate, hv, hready, hlast, heven, hdash]
  | true =>
      have hkeep := hi.keep hv
      have htaken : accepted s i = [(i.sTlast, i.sTdata)] := by simp [accepted, sTready, hv, hready]
      have hlow : [tbyte1W i, tbyte0W i] = byteText (some i.sTdata) := by
        simp [byteText, tbyte0W, tbyte1W, hexW_eq]
      cases hl : i.sTlast with
      | false =>
          refine ⟨[], [], by simp [hpushed], ?_, ?_⟩
          · rw [htaken, hl, dumpText_first heven, List.append_nil]
          · rw [htaken, hl, Packets.frames_concat]
            have hframe : ((Packets.frames beats).push (false, i.sTdata)).frame =
                (Packets.frames beats).frame ++ [i.sTdata] := rfl
            apply Phase.second _ _ _ _ hframe heven <;>
              simp [step, hi.reset, hstate, hv, hkeep, hready, hl, hlast, hdash, hlow]
      | true =>
          obtain ⟨rfl, hspace⟩ := hw.odd hstate hv hl
          refine ⟨_, _, .of_word hvalid (htaken ▸ hl ▸ dumpText_odd heven i.sTdata) ?_⟩
          have hregs : Registers (step true s i) i.sTdata none true (ascii '\n') := by
            constructor <;>
              simp [step, hi.reset, hstate, hv, hkeep, hready, hl, hlow, hspace, byteText]
          have hthree : (step true s i).state = 0x3 := by
            simp [step, hi.reset, hstate, hv, hkeep, hready, hl]
          rw [htaken, hl, Packets.frames_concat]
          refine Phase.sending ?_ (fun _ => by simp [Packets.Frames.push]) fun hopen => ?_
          · rw [hthree]
            exact hregs.sends
          · simp [hregs.last] at hopen

/-- With the second byte of a word its characters are to be pushed. -/
theorem second_next (hi : Driven i) {front : List (BitVec 8)} {lo : BitVec 8}
    (hstate : s.state = 0x2) (hready : s.tready = true) (hvalid : s.fvalid = false)
    (hlast : s.plast = false) (hframe : (Packets.frames beats).frame = front ++ [lo])
    (heven : front.length % 2 = 0) (hdash : s.dashQ = dashAfter true front)
    (hlow : [s.tbyte1, s.tbyte0] = byteText (some lo)) :
    ∃ text left', Edge unicode s i beats [] text left' := by
  have hpushed : pushed s i = [] := by simp [pushed, hvalid]
  cases hv : i.sTvalid with
  | false =>
      refine ⟨[], [], .of_none (by simp [accepted, hv]) (by simp [hpushed]) ?_⟩
      refine Phase.second ?_ ?_ ?_ ?_ hframe heven ?_ ?_ <;>
        simp [step, hi.reset, hstate, hv, hlast, hdash, hlow]
  | true =>
      have hkeep := hi.keep hv
      have htaken : accepted s i = [(i.sTlast, i.sTdata)] := by simp [accepted, sTready, hv, hready]
      have hhigh : [tbyte1W i, tbyte0W i] = byteText (some i.sTdata) := by
        simp [byteText, tbyte0W, tbyte1W, hexW_eq]
      have hregs : Registers (step unicode s i) lo (some i.sTdata) i.sTlast
          (if i.sTlast then ascii '\n' else separator (dashAfter true front)) := by
        constructor
        · simpa [step, hi.reset, hstate, hv, hready] using hlow
        · simpa [step, hi.reset, hstate, hv, hready, hkeep] using hhigh
        · simp [step, hi.reset, hstate, hv, hready, hlast]
        · cases hd : dashAfter true front <;>
            simp [step, hi.reset, hstate, hv, hready, hdash, hd, separator]
      have hstate' : (step unicode s i).state = if unicode then 0x3 else 0x4 := by
        cases unicode <;> simp [step, hi.reset, hstate, hv, hready, snext]
      refine ⟨_, _, .of_word hvalid (htaken ▸ dumpText_second hframe heven i.sTlast i.sTdata) ?_⟩
      rw [htaken, Packets.frames_concat]
      refine Phase.sending ?_ (fun hend => ?_) fun hopen => ?_
      · rw [hstate']
        exact hregs.sends
      · have hl : i.sTlast = true := hregs.last ▸ hend
        simp [Packets.Frames.push, hl]
      · have hl : i.sTlast = false := hregs.last ▸ hopen
        have hdash' : (step unicode s i).dashQ = !s.dashQ := by
          simp [step, hi.reset, hstate, hv, hready]
        have hmore : ((Packets.frames beats).push (i.sTlast, i.sTdata)).frame =
            front ++ [lo, i.sTdata] := by simp [Packets.Frames.push, hl, hframe]
        rw [hmore, hdash', hdash, dashAfter_concat]
        exact ⟨by simp [heven], rfl⟩

/-- Inside a word the FSM goes on when its character has been pushed. -/
theorem step_inside (hreset : i.reset = false) (hlow : 0x3 ≤ s.state) (hhigh : s.state ≤ 0xb) :
    step unicode s i = { s with
      fvalid := true
      state := if s.fvalid && i.fready then snext unicode s else s.state } := by
  have hidle : s.state ≠ 0x0 := by bv_omega
  have hfirst : s.state ≠ 0x1 := by bv_omega
  have hsecond : s.state ≠ 0x2 := by bv_omega
  rw [step, hreset, if_neg Bool.false_ne_true, if_neg hidle, if_neg hfirst, if_neg hsecond,
    if_pos ⟨hlow, hhigh⟩]

theorem step_space (hreset : i.reset = false) (hstate : s.state = 0xc) :
    step unicode s i =
      if s.fvalid && i.fready then
        { s with tready := !s.plast, state := if s.plast then 0xd else 0x1, fvalid := false }
      else { s with fvalid := true } := by
  simp [step, hreset, hstate]

/-- A character is pushed, or waits. -/
theorem sending_next (hi : Driven i) (hw : Whole unicode s i) (hsends : Sends unicode s s.state left)
    (hended : s.plast = true → (Packets.frames beats).frame = [])
    (hgoesOn : s.plast = false → (Packets.frames beats).frame.length % 2 = 0 ∧
      s.dashQ = dashAfter true (Packets.frames beats).frame) :
    ∃ left', Edge unicode s i beats left [] left' := by
  have hnone : accepted s i = [] := by
    cases hready : s.tready
    · simp [accepted, sTready, hready]
    · simp [accepted, hw.quiet hsends.bounds.1 hready]
  match left with
  | [] => exact absurd hsends id
  | [w] =>
      obtain ⟨hstate, hchar⟩ := hsends
      have hstep : step unicode s i = _ := step_space hi.reset hstate
      cases hpush : s.fvalid && i.fready with
      | false =>
          refine ⟨[w], .of_none hnone (by simp [pushed, hpush]) ?_⟩
          rw [hstep, hpush]
          exact .sending ⟨hstate, hchar⟩ hended hgoesOn
      | true =>
          refine ⟨[], .of_none hnone (by simp [pushed, hpush, hchar]; rfl) ?_⟩
          rw [hstep, hpush]
          cases hlast : s.plast with
          | true => exact .waiting rfl rfl rfl (hended hlast)
          | false => exact .first rfl rfl rfl rfl (hgoesOn hlast).1 (hgoesOn hlast).2
  | w :: w' :: ws =>
      obtain ⟨hlow, hhigh, hchar, hrest⟩ := hsends
      have hstep : step unicode s i = _ := step_inside hi.reset hlow hhigh
      cases hpush : s.fvalid && i.fready with
      | false =>
          refine ⟨w :: w' :: ws, .of_none hnone (by simp [pushed, hpush]) ?_⟩
          rw [hstep, hpush]
          have hword : Sends unicode s s.state (w :: w' :: ws) := ⟨hlow, hhigh, hchar, hrest⟩
          exact .sending (Sends.congr (s := s) rfl hword) hended hgoesOn
      | true =>
          refine ⟨w' :: ws, .of_none hnone (by simp [pushed, hpush, hchar]; rfl) ?_⟩
          rw [hstep, hpush]
          exact .sending (Sends.congr (s := s) rfl hrest) hended hgoesOn

theorem Phase.next (h : Phase unicode s (Packets.frames beats).frame left) (hi : Driven i)
    (hw : Whole unicode s i) : ∃ text left', Edge unicode s i beats left text left' := by
  cases h with
  | idle state ready valid frame => exact ⟨_, _, idle_next hi state ready valid frame⟩
  | first state ready valid last even dash =>
      exact first_next hi hw state ready valid last even dash
  | second state ready valid last frame even dash low =>
      exact second_next hi state ready valid last frame even dash low
  | sending sends ended goesOn => exact ⟨_, sending_next hi hw sends ended goesOn⟩
  | waiting state ready valid frame => exact ⟨_, _, waiting_next hi state ready valid frame⟩

/-- While characters are left, the next one is offered to the FIFO after an edge. -/
theorem Phase.fvalid_step {bytes : List (BitVec 8)} (h : Phase unicode s bytes left)
    (hne : left ≠ []) (hreset : i.reset = false) :
    (step unicode s i).fvalid = true ∨ left.length ≤ (pushed s i).length := by
  cases h with
  | idle | first | second | waiting => exact absurd rfl hne
  | sending sends =>
      match left with
      | [_] =>
          rw [step_space hreset sends.1]
          cases hpush : s.fvalid && i.fready <;> simp [pushed, hpush]
      | _ :: _ :: _ => exact .inl (by rw [step_inside hreset sends.1 sends.2.1])

end Edges

/-! ## The FIFO -/

section Fifo

variable {unicode : Bool} {d : Dumper} {i : Inputs}

theorem fifo_eq (d : Dumper) (i : Inputs) :
    d.fifo = delivered d i ++ d.fifo.drop (delivered d i).length := by
  rw [delivered]
  split
  · cases hq : d.fifo <;> simp
  · simp

theorem fifo_step (hreset : i.reset = false) : (dumperStep unicode d i).fifo =
    d.fifo.drop (delivered d i).length ++ pushed d.fsm i := by
  simp [dumperStep, hreset]

end Fifo

/-! ## The run -/

section Runs

variable {unicode : Bool} {d : Dumper} {i : Inputs} {is : List Inputs}

/-- The condition on an edge. -/
def Ok (unicode : Bool) (d : Dumper) (i : Inputs) : Prop := Driven i ∧ Whole unicode d.fsm i

/-- The text of the bytes accepted is delivered, in the FIFO, or left. -/
def Inv (unicode : Bool) (d : Dumper) (beats text : List (Bool × BitVec 8)) : Prop :=
  ∃ left, text ++ (d.fifo ++ left) = dumpText unicode beats ∧
    Phase unicode d.fsm (Packets.frames beats).frame left

theorem Inv.next {beats text : List (Bool × BitVec 8)} (h : Inv unicode d beats text)
    (hok : Ok unicode d i) :
    Inv unicode (dumperStep unicode d i) (beats ++ accepted d.fsm i) (text ++ delivered d i) := by
  obtain ⟨left, htext, hphase⟩ := h
  obtain ⟨new, left', hedge⟩ := hphase.next hok.1 hok.2
  refine ⟨left', ?_, hedge.phase⟩
  calc text ++ delivered d i ++ ((dumperStep unicode d i).fifo ++ left')
      = text ++ (delivered d i ++ d.fifo.drop (delivered d i).length ++
          (pushed d.fsm i ++ left')) := by simp [fifo_step hok.1.reset]
    _ = text ++ (d.fifo ++ (left ++ new)) := by rw [← fifo_eq, ← hedge.moved]
    _ = dumpText unicode (beats ++ accepted d.fsm i) := by
        rw [hedge.text, ← htext]
        simp

theorem inv_run (h : Inv unicode d [] []) (hok : Along (dumperStep unicode) (Ok unicode) d is) :
    Inv unicode (run (dumperStep unicode) d is) (bytesIn unicode d is) (textOut unicode d is) := by
  have hrun := run_ledger (Inv unicode) (fun _ _ _ _ hinv hi => hinv.next hi) h hok
  simpa [bytesIn, textOut] using hrun

/-- What is still to be delivered of some text, and how often the FIFO has to move for that. -/
def Owes (unicode : Bool) (d : Dumper) (owed : List (Bool × BitVec 8)) (rank : ℕ) : Prop :=
  ∃ beats left, Phase unicode d.fsm (Packets.frames beats).frame left ∧ owed <+: d.fifo ++ left ∧
    owed.length + (owed.length - d.fifo.length) +
      (if d.fsm.fvalid = true ∨ owed.length ≤ d.fifo.length then 0 else 1) ≤ rank

/-- What is delivered is the front of what is owed. -/
theorem delivered_prefix {owed left : List (Bool × BitVec 8)} (howed : owed <+: d.fifo ++ left)
    (hne : owed ≠ []) : delivered d i <+: owed := by
  have hboth : delivered d i <+: d.fifo ++ left := by
    rw [fifo_eq d i, List.append_assoc]
    exact List.prefix_append _ _
  apply List.prefix_of_prefix_length_le hboth howed
  rw [delivered]
  split
  · have hpos := List.length_pos_iff.mpr hne
    rw [List.length_take]
    omega
  · simp

/-- What is still owed behind an edge is in the FIFO or left. -/
theorem Edge.owed {beats owed left new left' : List (Bool × BitVec 8)}
    (hedge : Edge unicode d.fsm i beats left new left') (hreset : i.reset = false)
    (howed : delivered d i ++ owed <+: d.fifo ++ left) :
    owed <+: (dumperStep unicode d i).fifo ++ left' := by
  have hrest : delivered d i ++ owed <+:
      delivered d i ++ (d.fifo.drop (delivered d i).length ++ left) := by
    rwa [← List.append_assoc, ← fifo_eq]
  have hgrown := ((List.prefix_append_right_inj _).mp hrest).trans (List.prefix_append _ new)
  rwa [List.append_assoc, hedge.moved, ← List.append_assoc, ← fifo_step hreset] at hgrown

theorem Owes.next {owed : List (Bool × BitVec 8)} {rank : ℕ} (h : Owes unicode d owed rank)
    (hne : owed ≠ []) (hok : Ok unicode d i) :
    ∃ owed' rank', owed = delivered d i ++ owed' ∧ rank' ≤ rank - (passes i).toNat ∧
      Owes unicode (dumperStep unicode d i) owed' rank' := by
  obtain ⟨beats, left, hphase, howed, hrank⟩ := h
  obtain ⟨new, left', hedge⟩ := hphase.next hok.1 hok.2
  have hfifo : (dumperStep unicode d i).fifo = _ := fifo_step hok.1.reset
  obtain ⟨owed', rfl⟩ : delivered d i <+: owed := delivered_prefix howed hne
  have howed' := hedge.owed hok.1.reset howed
  refine ⟨owed', _, rfl, ?_, _, _, hedge.phase, howed', le_rfl⟩
  have hlen := howed.length_le
  have hgiven := congrArg List.length (fifo_eq d i)
  have hheld := congrArg List.length hfifo
  simp only [List.length_append, List.length_drop] at hlen hgiven hheld hrank ⊢
  -- after an edge the next character is offered, if one of those owed is not in the FIFO yet
  have hoffered : (dumperStep unicode d i).fsm.fvalid = true ∨
      owed'.length ≤ (dumperStep unicode d i).fifo.length := by
    by_cases hleft : left = []
    · rw [hleft, List.length_nil] at hlen
      exact .inr (by omega)
    · exact (hphase.fvalid_step hleft hok.1.reset).imp_right fun hall => by omega
  rw [if_pos hoffered]
  cases hpass : passes i with
  | false =>
      simp only [Bool.toNat_false]
      omega
  | true =>
      simp only [passes, Bool.and_eq_true] at hpass
      have hdelivered : (delivered d i).length = min 1 d.fifo.length := by
        simp [delivered, hpass]
      have hpushed : d.fsm.fvalid = true → (pushed d.fsm i).length = 1 := by
        intro hvalid
        simp [pushed, hvalid, hpass]
      have hpos : 0 < (delivered d i).length + owed'.length := by
        rw [← List.length_append]
        exact List.length_pos_iff.mpr hne
      simp only [Bool.toNat_true]
      by_cases hvalid : d.fsm.fvalid = true
      · have hone := hpushed hvalid
        rw [if_pos (.inl hvalid)] at hrank
        omega
      · by_cases hin : (delivered d i).length + owed'.length ≤ d.fifo.length
        · rw [if_pos (.inr hin)] at hrank
          omega
        · rw [if_neg (not_or.mpr ⟨hvalid, hin⟩)] at hrank
          omega

theorem Owes.eq_nil {owed : List (Bool × BitVec 8)} (h : Owes unicode d owed 0) : owed = [] := by
  obtain ⟨_, _, _, _, hrank⟩ := h
  exact List.eq_nil_of_length_eq_zero (by omega)

/-- What has been accepted is delivered once the FIFO has moved twice for each character. -/
theorem delivered_in_time {beats text : List (Bool × BitVec 8)} (h : Inv unicode d beats text)
    (hok : Along (dumperStep unicode) (Ok unicode) d is)
    (hticks : 2 * ((dumpText unicode beats).length - text.length) + 1 ≤ is.countP passes) :
    dumpText unicode beats <+: text ++ textOut unicode d is := by
  obtain ⟨left, htext, hphase⟩ := h
  have howes : Owes unicode d (d.fifo ++ left)
      (2 * ((dumpText unicode beats).length - text.length) + 1) := by
    refine ⟨beats, left, hphase, List.prefix_rfl, ?_⟩
    simp only [← htext, List.length_append]
    split <;> omega
  rw [← htext]
  exact (List.prefix_append_right_inj _).mpr <|
    prefix_emitted_of_rank (Owes unicode) passes (fun _ _ _ _ h hne hi => h.next hne hi)
      (fun _ _ h => h.eq_nil) howes hok hticks

theorem phase_of_reset (unicode : Bool) (d : Dumper) (hr : i.reset = true) :
    Phase unicode (dumperStep unicode d i).fsm [] [] := by
  apply Phase.idle <;> simp [dumperStep, step, hr]

theorem inv_of_reset (unicode : Bool) (d : Dumper) (hr : i.reset = true) :
    Inv unicode (dumperStep unicode d i) [] [] :=
  ⟨[], by simp [dumperStep, hr, dumpText, openText], phase_of_reset unicode d hr⟩

theorem Inv.dumps (hstart : Inv unicode d [] [])
    (h : Along (dumperStep unicode) (Ok unicode) d is) : Dumps unicode d is := by
  obtain ⟨left, htext, hphase⟩ := inv_run hstart h
  refine ⟨⟨_, htext⟩, fun hempty hstate => ?_, fun pre post hsplit hticks => ?_⟩
  · have hnone : left = [] := by
      cases hphase with
      | idle | first | second | waiting => rfl
      | sending sends =>
          have hbounds := sends.bounds
          simp only [List.mem_cons, List.not_mem_nil, or_false] at hstate
          rcases hstate with hs | hs | hs | hs <;> simp [hs] at hbounds
    rw [← htext, hempty, hnone]
    simp
  · subst hsplit
    obtain ⟨hpre, hpost⟩ := (along_append _ _ _ _ _).mp h
    have hintime := delivered_in_time (inv_run hstart hpre) hpost hticks
    rwa [textOut, textOut, ← emitted_append] at hintime

end Runs

/-- If every frame with an odd number of bytes is a single byte behind a newline, in Unicode, and nothing
is offered while its characters are pushed, then frames are dumped as text. -/
theorem dumps_of_whole (unicode : Bool) (d₀ : Dumper) {r : Inputs} {is : List Inputs}
    (hr : r.reset = true)
    (h : Along (dumperStep unicode) (fun d i => Driven i ∧ Whole unicode d.fsm i)
      (dumperStep unicode d₀ r) is) :
    Dumps unicode (dumperStep unicode d₀ r) is :=
  (inv_of_reset unicode d₀ hr).dumps h

/-! ## Frames of whole words -/

section Even

variable {unicode : Bool} {s : State} {i : Inputs} {bytes : List (BitVec 8)}
  {left : List (Bool × BitVec 8)}

/-- While characters are pushed the source is stopped. -/
def Stops (s : State) : Prop := 0x3 ≤ s.state → s.tready = false

/-- No frame ends with the first byte of a word. -/
theorem Stops.next (h : Stops s) (hphase : Phase unicode s bytes left) (hi : Driven i)
    (heven : s.state = 0x1 → i.sTvalid = true → i.sTlast = false) : Stops (step unicode s i) := by
  intro hlate
  cases hphase with
  | idle state =>
      cases hv : i.sTvalid <;> simp [step, hi.reset, hi.start, state, hv] at hlate
  | first state ready =>
      cases hv : i.sTvalid with
      | false => simp [step, hi.reset, state, hv] at hlate
      | true =>
          have hlast := heven state hv
          simp [step, hi.reset, state, hv, ready, hi.keep hv, hlast] at hlate
  | second state ready =>
      cases hv : i.sTvalid with
      | false => simp [step, hi.reset, state, hv] at hlate
      | true => simp [step, hi.reset, state, hv, ready]
  | waiting state ready => simp [step, hi.reset, state, ready]
  | sending sends =>
      have hready := h sends.bounds.1
      match left with
      | [_] =>
          rw [step_space hi.reset sends.1] at hlate ⊢
          cases hpush : s.fvalid && i.fready <;> cases hlast : s.plast <;> simp_all
      | _ :: _ :: _ => rwa [step_inside hi.reset sends.1 sends.2.1]

/-- The last byte of a frame of whole words is the second of a word. -/
theorem Phase.not_last {beats more : List (Bool × BitVec 8)}
    (hphase : Phase unicode s (Packets.frames beats).frame left) (hstate : s.state = 0x1)
    (hvalid : i.sTvalid = true)
    (heven : ∀ frame ∈ (Packets.frames (beats ++ (accepted s i ++ more))).done,
      frame.length % 2 = 0) : i.sTlast = false := by
  cases hphase with
  | idle state | second state | waiting state => simp [hstate] at state
  | sending sends =>
      have hbounds := sends.bounds
      simp [hstate] at hbounds
  | first _ ready _ _ even =>
      by_contra hlast
      have hend : accepted s i = [(true, i.sTdata)] := by
        simp [accepted, sTready, hvalid, ready, Bool.eq_true_of_not_eq_false hlast]
      have hdone := Packets.done_prefix_frames (beats ++ [(true, i.sTdata)]) more
      rw [hend, ← List.append_assoc] at heven
      have hodd := heven ((Packets.frames beats).frame ++ [i.sTdata]) <| hdone.subset <| by
        simp [Packets.Frames.push]
      rw [List.length_append, List.length_singleton] at hodd
      omega

theorem along_ok {d : Dumper} {is : List Inputs} (beats : List (Bool × BitVec 8))
    (hphase : Phase unicode d.fsm (Packets.frames beats).frame left) (hstops : Stops d.fsm)
    (hdriven : ∀ i ∈ is, Driven i)
    (heven : ∀ frame ∈ (Packets.frames (beats ++ bytesIn unicode d is)).done,
      frame.length % 2 = 0) : Along (dumperStep unicode) (Ok unicode) d is := by
  induction is generalizing d beats left with
  | nil => trivial
  | cons i is ih =>
      have hi := hdriven i (by simp)
      have hlast (hstate : d.fsm.state = 0x1) (hvalid : i.sTvalid = true) : i.sTlast = false :=
        hphase.not_last hstate hvalid heven
      have hw : Whole unicode d.fsm i := by
        refine ⟨fun hstate hvalid htrue => ?_, fun hlate hready => ?_⟩
        · simp [hlast hstate hvalid] at htrue
        · simp [hstops hlate] at hready
      obtain ⟨_, _, hedge⟩ := hphase.next hi hw
      refine ⟨⟨hi, hw⟩, ih _ hedge.phase (hstops.next hphase hi hlast)
        (fun j hj => hdriven j (List.mem_cons_of_mem i hj)) ?_⟩
      rwa [List.append_assoc]

/-- Frames with an even number of bytes are dumped as text, however the ports are stalled. -/
theorem dumps_of_even (unicode : Bool) (d₀ : Dumper) {r : Inputs} {is : List Inputs}
    (hr : r.reset = true) (hdriven : ∀ i ∈ is, Driven i)
    (heven : ∀ frame ∈ (Packets.frames (bytesIn unicode (dumperStep unicode d₀ r) is)).done,
      frame.length % 2 = 0) :
    Dumps unicode (dumperStep unicode d₀ r) is := by
  have hstops : Stops (dumperStep unicode d₀ r).fsm := by simp [Stops, dumperStep, step, hr]
  exact (inv_of_reset unicode d₀ hr).dumps <|
    along_ok [] (phase_of_reset unicode d₀ hr) hstops hdriven heven

end Even

/-! ## Runs -/

instance (i : Inputs) : Decidable (Driven i) :=
  decidable_of_iff (i.reset = false ∧ i.startDumpI = true ∧ (i.sTvalid = true → i.sTkeep = true))
    ⟨fun h => ⟨h.1, h.2.1, h.2.2⟩, fun h => ⟨h.reset, h.start, h.keep⟩⟩

instance (unicode : Bool) (s : State) (i : Inputs) : Decidable (Whole unicode s i) :=
  decidable_of_iff ((s.state = 0x1 → i.sTvalid = true → i.sTlast = true →
      unicode = true ∧ s.wspace = ascii '\n') ∧
        (0x3 ≤ s.state → s.tready = true → i.sTvalid = false))
    ⟨fun h => ⟨h.1, h.2⟩, fun h => ⟨h.odd, h.quiet⟩⟩

/-- The beat that is offered and not accepted. -/
def refused (_ : Option (Bool × BitVec 8)) (d : Dumper) (i : Inputs) : Option (Bool × BitVec 8) :=
  if i.sTvalid && !sTready d.fsm then some (i.sTlast, i.sTdata) else none

/-- What has been refused is offered again. -/
def Holds (waiting : Option (Bool × BitVec 8)) (i : Inputs) : Prop :=
  ∀ beat ∈ waiting, i.sTvalid = true ∧ (i.sTlast, i.sTdata) = beat

instance (waiting : Option (Bool × BitVec 8)) (i : Inputs) : Decidable (Holds waiting i) :=
  inferInstanceAs (Decidable (∀ beat ∈ waiting, _))

/-- Frames are dumped as text in every run that keeps to the rules of the bus. -/
def AlwaysDumps (unicode : Bool) : Prop :=
  ∀ (d₀ : Dumper) (r : Inputs) (is : List Inputs), r.reset = true →
    Along (watched (dumperStep unicode) refused) (fun q i => Driven i ∧ Holds q.2 i)
      (dumperStep unicode d₀ r, none) is →
    Dumps unicode (dumperStep unicode d₀ r) is

/-- A cycle in which the FIFO has room and passes its words on. -/
def cycleInputs (valid last : Bool) (data : BitVec 8) : Inputs where
  reset := false
  startDumpI := true
  sTvalid := valid
  sTlast := last
  sTkeep := valid
  sTdata := data
  fready := true
  levelTop := false
  offers := true
  mTready := true

def resetInputs : Inputs := { cycleInputs false false 0 with reset := true }

/-- A beat is offered for some cycles. -/
def offer (cycles : ℕ) (last : Bool) (data : BitVec 8) : List Inputs :=
  List.replicate cycles (cycleInputs true last data)

def pause (cycles : ℕ) : List Inputs := List.replicate cycles (cycleInputs false false 0)

/-- A frame of two bytes, and a single byte behind it. -/
theorem dumps_of_whole_lines :
    let d := dumperStep true default resetInputs
    let is := offer 2 false 0x12 ++ offer 1 true 0x34 ++ pause 12 ++ offer 2 true 0xab ++ pause 14
    textOut true d is = dumpText true [(false, 0x12), (true, 0x34), (true, 0xab)] ∧
      Dumps true d is :=
  ⟨by decide +kernel, dumps_of_whole true default rfl (by decide +kernel)⟩

/-- Without Unicode a single byte is dumped as zeros; with it, the third byte of a frame is followed by
a dash. -/
theorem not_alwaysDumps : ¬AlwaysDumps false ∧ ¬AlwaysDumps true := by
  constructor
  · intro h
    have hdumps := h default resetInputs (offer 2 true 0x41 ++ pause 14) rfl (by decide +kernel)
    exact absurd hdumps.order (by decide +kernel)
  · intro h
    have hdumps := h default resetInputs
      (offer 2 false 0x12 ++ offer 1 false 0x34 ++ offer 11 true 0x56 ++ pause 14) rfl
      (by decide +kernel)
    exact absurd hdumps.order (by decide +kernel)

end MiscVerilogCores.HexDump
