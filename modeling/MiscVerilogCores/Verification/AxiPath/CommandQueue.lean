import MiscVerilogCores.Verification.AxiPath.Chunks
import MiscVerilogCores.Verification.SyncFifo.Plain

/-! # The command queue of a path

Both paths of the AXI interface put the chunks of their bursts into a command FIFO, from which
the memory takes them: the chunks reach the memory in the order of the bursts. -/

namespace MiscVerilogCores.AxiChunks

open SyncFifo (sramWords)

variable {ADDRS REQID CBITS : ℕ}

/-- The chunks of accepted bursts that the memory has not taken. -/
def queued (c : State ADDRS REQID) (f : SyncFifo.State (ADDRS + REQID + 1) CBITS) :
    List (Chunk ADDRS REQID) :=
  (sramWords f).map Chunk.ofWord ++ remaining c

/-- The chunk on the output port of the command FIFO. -/
def offered (f : SyncFifo.State (ADDRS + REQID + 1) CBITS)
    (fi : SyncFifo.Inputs (ADDRS + REQID + 1)) : Chunk ADDRS REQID :=
  Chunk.ofWord (SyncFifo.dataO 0 f fi)

/-- The chunk that leaves the command FIFO in a cycle. -/
def fetched (f : SyncFifo.State (ADDRS + REQID + 1) CBITS)
    (fi : SyncFifo.Inputs (ADDRS + REQID + 1)) : List (Chunk ADDRS REQID) :=
  if SyncFifo.validO 0 f fi && fi.readyI then [offered f fi] else []

/-- The chunker and the command FIFO are connected, and out of reset. -/
structure Connected (c : State ADDRS REQID) (ci : Inputs ADDRS REQID)
    (f : SyncFifo.State (ADDRS + REQID + 1) CBITS) (fi : SyncFifo.Inputs (ADDRS + REQID + 1)) :
    Prop where
  ready : ci.xreadyI = SyncFifo.readyO f
  valid : fi.validI = xvalidO c ci
  data : fi.dataI = (chunk c ci).word
  reset : ci.reset = false ∧ fi.reset = false

variable {c : State ADDRS REQID} {ci : Inputs ADDRS REQID}
  {f : SyncFifo.State (ADDRS + REQID + 1) CBITS} {fi : SyncFifo.Inputs (ADDRS + REQID + 1)}

/-- What goes into the command FIFO are the chunks handed on. -/
theorem Connected.map_accepted (h : Connected c ci f fi) :
    (SyncFifo.accepted f fi).map Chunk.ofWord = handed c ci := by
  rw [SyncFifo.accepted, handed, h.valid, h.ready, h.data]
  split <;> simp

/-- The chunks go through the command queue in order. -/
theorem Connected.queued_step (h : Connected c ci f fi) (hfree : Free c ci)
    (hf : SyncFifo.Inv 0 f) :
    queued c f ++ accepted ci = fetched f fi ++ queued (step c ci) (SyncFifo.step 0 f fi) := by
  have hchunk := hfree.step h.reset.1
  have hwords := (hf.plain_step h.reset.2).2
  have hhead : (sramWords f).map Chunk.ofWord = fetched f fi ++
      (if fi.readyI then (sramWords f).tail else sramWords f).map Chunk.ofWord := by
    by_cases hv : SyncFifo.validO 0 f fi = true
    · have hcons := hf.words_eq_cons hv
      cases hr : fi.readyI
      · simp [fetched, hr]
      · rw [fetched, hv, hr, hcons]
        rfl
    · have hnil : sramWords f = [] := by
        by_contra hne
        exact hv ((hf.validO_iff fi).mpr hne)
      simp [fetched, hv, hnil]
  calc queued c f ++ accepted ci
      = (sramWords f).map Chunk.ofWord ++ (remaining c ++ accepted ci) := by
        rw [queued, List.append_assoc]
    _ = fetched f fi ++ queued (step c ci) (SyncFifo.step 0 f fi) := by
        rw [hchunk, hhead, queued, hwords, List.map_append, h.map_accepted]
        simp only [List.append_assoc]

end MiscVerilogCores.AxiChunks
