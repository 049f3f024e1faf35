import MiscVerilogCores.Verification.AxiPath.WriteResponse

/-! # Write addresses reach the chunker

`aready` is a register, set from what was seen a cycle earlier. It is high only while no burst is
cut and the command FIFO has room, so that the chunker takes each request in the cycle of its
handshake. Resets may come at any time of a run. -/

namespace MiscVerilogCores.AxiWrPath

open Clocked

variable {ADDRS WIDTH REQID CBITS : ℕ}

/-- A request on the AW port: address, ID and length. -/
abbrev Request (ADDRS REQID : ℕ) := BitVec ADDRS × BitVec REQID × BitVec 8

/-- The request whose handshake is in this cycle. -/
def handshake (s : State ADDRS WIDTH REQID CBITS) (i : Inputs ADDRS WIDTH REQID) :
    List (Request ADDRS REQID) :=
  if i.axiAwvalidI && s.aready then [(i.axiAwaddrI, i.axiAwidI, i.axiAwlenI)] else []

/-- The request that the chunker takes at this edge. -/
def captured (s : State ADDRS WIDTH REQID CBITS) (i : Inputs ADDRS WIDTH REQID) :
    List (Request ADDRS REQID) :=
  let ci := chunkInputs s i
  if AxiChunks.starts s.chunks ci then [(ci.aaddrI, ci.aidI, ci.alenI)] else []

/-- A ready address port: no burst is cut, and the command FIFO can take a word. -/
structure ReadyForAddress (s : State ADDRS WIDTH REQID CBITS) (i : Inputs ADDRS WIDTH REQID) :
    Prop where
  idle : s.chunks.busyQ = false
  room : xready s = true
  ready : cmdReady s i = true

/-- The first chunk of the burst goes into the command FIFO, and the chunker keeps the others. -/
structure TakenWhole (s : State ADDRS WIDTH REQID CBITS) (i : Inputs ADDRS WIDTH REQID) :
    Prop where
  first : (SyncFifo.accepted s.cmds (cmdFifoInputs s i)).map AxiChunks.Chunk.ofWord =
    [AxiChunks.chunk s.chunks (chunkInputs s i)]
  burst : AxiChunks.chunk s.chunks (chunkInputs s i) :: AxiChunks.remaining (step s i).chunks =
    AxiChunks.burst (chunkInputs s i)

section Step

variable {s : State ADDRS WIDTH REQID CBITS} {i : Inputs ADDRS WIDTH REQID}

theorem CmdInv.readyForAddress (h : CmdInv s) (i : Inputs ADDRS WIDTH REQID)
    (ha : s.aready = true) : ReadyForAddress s i := by
  obtain ⟨hstate, hroom⟩ := h.aready ha
  have hbusy := (h.idle hstate).1
  refine ⟨hbusy, hroom, ?_⟩
  rw [cmdReady, AxiChunks.areadyO, hbusy]
  exact hroom

theorem CmdInv.captured_eq (h : CmdInv s) (i : Inputs ADDRS WIDTH REQID) :
    captured s i = handshake s i := by
  have hstarts : AxiChunks.starts s.chunks (chunkInputs s i) = cmdValid s i := by
    cases ha : s.aready
    · simp [AxiChunks.starts, chunkInputs, cmdValid, ha]
    · have hready := h.readyForAddress i ha
      have hx : (chunkInputs s i).xreadyI = true := hready.room
      rw [AxiChunks.starts, hready.idle, hx]
      simp [chunkInputs]
  rw [captured, hstarts]
  rfl

theorem CmdInv.takenWhole (h : CmdInv s) (hr : i.reset = false) (hc : cmdValid s i = true) :
    TakenWhole s i := by
  have hready := h.readyForAddress i (Bool.and_eq_true_iff.mp hc).2
  have hx : (chunkInputs s i).xreadyI = true := hready.room
  have hv : (chunkInputs s i).avalidI = true := hc
  have hhanded : AxiChunks.handed s.chunks (chunkInputs s i) =
      [AxiChunks.chunk s.chunks (chunkInputs s i)] := by
    simp [AxiChunks.handed, AxiChunks.xvalidO, AxiChunks.busyW, hx, hv]
  have hcut := (h.free i).step hr
  rw [hhanded, AxiChunks.remaining, hready.idle, AxiChunks.accepted, hv] at hcut
  refine ⟨?_, hcut.symm⟩
  rw [(connected s hr).map_accepted, hhanded]

/-- The invariant holds after any edge, with or without a reset. -/
theorem CmdInv.next_or_reset (h : CmdInv s) (i : Inputs ADDRS WIDTH REQID) :
    CmdInv (step s i) := by
  cases hr : i.reset
  · exact h.next hr
  · have hsame : { i with reset := true } = i := by rw [← hr]
    exact hsame ▸ (cmdInv_afterReset s i).1

end Step

/-- In every state that a run from reset reaches, a ready address port finds the chunker idle and
room in the command FIFO; a request is taken whole in the cycle of its handshake, and the chunker
has taken the requests of the handshakes, in order and once each. -/
theorem addresses_taken (s : State ADDRS WIDTH REQID CBITS) (i : Inputs ADDRS WIDTH REQID)
    (is : List (Inputs ADDRS WIDTH REQID)) :
    (∀ j, (run step (afterReset s i) is).aready = true →
      ReadyForAddress (run step (afterReset s i) is) j) ∧
    (∀ j, j.reset = false → cmdValid (run step (afterReset s i) is) j = true →
      TakenWhole (run step (afterReset s i) is) j) ∧
    emitted step captured (afterReset s i) is = emitted step handshake (afterReset s i) is := by
  have hstart := (cmdInv_afterReset s i).1
  have hinv : CmdInv (run step (afterReset s i) is) :=
    run_always CmdInv (fun _ j h => h.next_or_reset j) hstart is
  refine ⟨fun j => hinv.readyForAddress j, fun j => hinv.takenWhole, ?_⟩
  exact emitted_congr CmdInv (fun _ j h => ⟨h.next_or_reset j, h.captured_eq j⟩) hstart is

end MiscVerilogCores.AxiWrPath
