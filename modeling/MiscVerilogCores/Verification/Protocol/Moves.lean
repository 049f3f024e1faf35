import Mathlib.Tactic.SplitIfs
import MiscVerilogCores.Model.Protocol

/-! # What the transaction layer may do at an edge

The state machine, rule by rule: which condition each move needs, and what it sets. -/

namespace MiscVerilogCores.Protocol

open Usb

/-- What a token leads to, in `ST_IDLE`. -/
inductive Dispatched (p : Params) (s : State) (i : Inputs) : Move → Prop where
  | setup (hpid : i.usbPid = usbpidSetup) (hendp : i.tokEndp = 0) :
      Dispatched p s i ⟨.recv, i.undef, false, true⟩
  | setupElse (hpid : i.usbPid = usbpidSetup) (hendp : i.tokEndp ≠ 0) :
      Dispatched p s i ⟨.wait, i.undef, true, false⟩
  | out (hpid : i.usbPid = usbpidOut) (hrdy : (i.ep0Select || s.outRdyQ) = true) :
      Dispatched p s i ⟨.recv, i.undef, false, true⟩
  | drop (hpid : i.usbPid = usbpidOut) (hrdy : (i.ep0Select || s.outRdyQ) = false)
      (hsel : outSelW p s i = true) : Dispatched p s i ⟨.drop, i.undef, false, false⟩
  | outElse (hpid : i.usbPid = usbpidOut) (hrdy : (i.ep0Select || s.outRdyQ) = false)
      (hsel : outSelW p s i = false) : Dispatched p s i ⟨.wait, i.undef, true, false⟩
  | send (hpid : i.usbPid = usbpidIn) (hrdy : (i.ep0Select || inRdyW p s i) = true) :
      Dispatched p s i ⟨.send, usbpidNak, false, true⟩
  | nak (hpid : i.usbPid = usbpidIn) (hrdy : (i.ep0Select || inRdyW p s i) = false)
      (hsel : inSelW p s i = true) : Dispatched p s i ⟨.resp, usbpidNak, false, true⟩
  | inElse (hpid : i.usbPid = usbpidIn) (hrdy : (i.ep0Select || inRdyW p s i) = false)
      (hsel : inSelW p s i = false) : Dispatched p s i ⟨.wait, usbpidNak, true, false⟩
  | ping (pid : BitVec 4) (hpid : i.usbPid = usbpidPing)
      (hresp : pid = if i.ep0Select || s.outRdyQ then usbpidAck else usbpidNak) :
      Dispatched p s i ⟨.resp, pid, false, true⟩
  | other (tag epg : Bool) : Dispatched p s i ⟨.idle, i.undef, tag, epg⟩

theorem dispatch_rule (p : Params) (s : State) (i : Inputs) :
    Dispatched p s i (dispatch p s i) := by
  rw [dispatch]
  split_ifs with hsetup hendp hout hrdy hsel hin hrdy hsel hping hack
  · exact .setup hsetup hendp
  · exact .setupElse hsetup hendp
  · exact .out hout hrdy
  · exact .drop hout (by simpa using hrdy) hsel
  · exact .outElse hout (by simpa using hrdy) (by simpa using hsel)
  · exact .send hin hrdy
  · exact .nak hin (by simpa using hrdy) hsel
  · exact .inElse hin (by simpa using hrdy) (by simpa using hsel)
  · exact .ping _ hping (if_pos hack).symm
  · exact .ping _ hping (if_neg hack).symm
  · exact .other _ _

/-- What the state machine may do at an edge. -/
inductive Moved (p : Params) (s : State) (i : Inputs) : Move → Prop where
  | rest (hs : s.state = .idle) (htok : tokenW i = false) :
      Moved p s i ⟨.idle, s.pidQ, s.tagQ, s.epgQ⟩
  | token {m : Move} (hs : s.state = .idle) (htok : tokenW i = true) (hm : Dispatched p s i m) :
      Moved p s i m
  | accept (pid : BitVec 4) (hs : s.state = .recv) (husb : i.usbRecv = true)
      (hpar : s.parQ = true) (hpid : pid = usbpidAck ∨ pid = usbpidNyet) :
      Moved p s i ⟨.resp, pid, false, true⟩
  | ignore (pid : BitVec 4) (hs : s.state = .recv) (husb : i.usbRecv = true)
      (hpar : s.parQ = false) : Moved p s i ⟨.idle, pid, false, false⟩
  | abort (pid : BitVec 4) (hs : s.state = .recv) (husb : i.usbRecv = false)
      (herr : (s.timeoutQ || i.crcError) = true) : Moved p s i ⟨.idle, pid, false, false⟩
  | await (pid : BitVec 4) (hs : s.state = .recv) (husb : i.usbRecv = false)
      (herr : (s.timeoutQ || i.crcError) = false) : Moved p s i ⟨.recv, pid, false, s.epgQ⟩
  | sent (pid : BitVec 4) (hs : s.state = .send) (hsent : i.usbSent = true) :
      Moved p s i ⟨.wait, pid, true, false⟩
  | giveUp (pid : BitVec 4) (hs : s.state = .send) (hsent : i.usbSent = false)
      (hto : s.timeoutQ = true) : Moved p s i ⟨.idle, pid, false, false⟩
  | supply (pid : BitVec 4) (hs : s.state = .send) (hsent : i.usbSent = false)
      (hto : s.timeoutQ = false) : Moved p s i ⟨.send, pid, s.tagQ, false⟩
  | answered (hs : s.state = .resp) (hend : (i.hskSent || s.timeoutQ) = true) :
      Moved p s i ⟨.idle, s.pidQ, false, false⟩
  | answer (hs : s.state = .resp) (hend : (i.hskSent || s.timeoutQ) = false) :
      Moved p s i ⟨.resp, s.pidQ, false, false⟩
  | finish (hs : s.state = .wait) (hend : (i.hskRecv || s.timeoutQ) = true) :
      Moved p s i ⟨.idle, i.undef, false, false⟩
  | wait (hs : s.state = .wait) (hend : (i.hskRecv || s.timeoutQ) = false) :
      Moved p s i ⟨.wait, i.undef, false, false⟩
  | refuse (hs : s.state = .drop) (heop : i.eopRecv = true) :
      Moved p s i ⟨.resp, usbpidNak, false, false⟩
  | lapse (hs : s.state = .drop) (heop : i.eopRecv = false) (hto : s.timeoutQ = true) :
      Moved p s i ⟨.idle, usbpidNak, false, false⟩
  | drop (hs : s.state = .drop) (heop : i.eopRecv = false) (hto : s.timeoutQ = false) :
      Moved p s i ⟨.drop, usbpidNak, false, false⟩

theorem moveNext_rule (p : Params) (s : State) (i : Inputs) : Moved p s i (moveNext p s i) := by
  rw [moveNext]
  cases hs : s.state with
  | idle =>
      cases htok : tokenW i
      · exact .rest hs htok
      · exact .token hs htok (dispatch_rule p s i)
  | recv =>
      cases husb : i.usbRecv
      · cases herr : s.timeoutQ || i.crcError
        · simpa [herr] using Moved.await _ hs husb herr
        · simpa [herr] using Moved.abort _ hs husb herr
      · cases hpar : s.parQ
        · simpa using Moved.ignore _ hs husb hpar
        · refine Moved.accept _ hs husb hpar ?_
          split
          · exact Or.inr rfl
          · exact Or.inl rfl
  | send =>
      cases hsent : i.usbSent
      · cases hto : s.timeoutQ
        · exact .supply _ hs hsent hto
        · exact .giveUp _ hs hsent hto
      · exact .sent _ hs hsent
  | resp =>
      cases hend : i.hskSent || s.timeoutQ
      · simpa [hend] using Moved.answer hs hend
      · simpa [hend] using Moved.answered hs hend
  | wait =>
      cases hend : i.hskRecv || s.timeoutQ
      · simpa [hend] using Moved.wait hs hend
      · simpa [hend] using Moved.finish hs hend
  | drop =>
      cases heop : i.eopRecv
      · cases hto : s.timeoutQ
        · exact .drop hs heop hto
        · exact .lapse hs heop hto
      · exact .refuse hs heop

section Registers

variable {p : Params} {s : State} {i : Inputs}

theorem state_step (hr : i.reset = false) : (step p s i).state = (moveNext p s i).state := by
  simp [step, hr]

theorem tagQ_step (hr : i.reset = false) : (step p s i).tagQ = (moveNext p s i).tagQ := by
  simp [step, hr]

theorem epgQ_step (hr : i.reset = false) : (step p s i).epgQ = (moveNext p s i).epgQ := by
  simp [step, hr]

end Registers

end MiscVerilogCores.Protocol
