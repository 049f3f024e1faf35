import MiscVerilogCores.Model.PacketFifo

/-! # The bytes in a packet FIFO

What the FIFO of an end-point holds, and which edges leave it alone. -/

namespace MiscVerilogCores.PacketFifo

open RingMemory

variable {WIDTH ABITS : ℕ}

/-- The bytes that are queued: those behind the replay pointer, and the one in the holding
register. -/
def queued (s : State 8 ABITS) : List (BitVec 8) :=
  ((List.range (s.waddr - s.rplay).toNat).map fun k =>
      (s.sram (slot (s.rplay + BitVec.ofNat _ k))).2) ++
    if s.xvld then [s.xdat] else []

theorem queued_eq_nil {s : State 8 ABITS} :
    queued s = [] ↔ s.waddr = s.rplay ∧ s.xvld = false := by
  rw [queued, List.append_eq_nil_iff, List.map_eq_nil_iff, List.range_eq_nil]
  have hsub : (s.waddr - s.rplay).toNat = 0 ↔ s.waddr = s.rplay := by
    constructor
    · intro h
      have hzero : s.waddr - s.rplay = 0#_ := BitVec.eq_of_toNat_eq (by simpa using h)
      simpa using (BitVec.sub_eq_iff_eq_add.mp hzero)
    · rintro h
      simp [h]
  rw [hsub]
  cases s.xvld <;> simp

variable {p : Params} {s : State 8 ABITS} {i : Inputs 8}

/-- A reset empties the FIFO. -/
theorem queued_reset (hp : p.lastOnSave = true) (hr : i.reset = true) : queued (step p s i) = [] := by
  rw [queued_eq_nil]
  simp [step, hr, hp]

/-- Without a write an empty FIFO stays empty, unless its packets are given back. -/
theorem queued_nil_step (hp : p.lastOnSave = true) (hnext : p.nextOnLast = false)
    (h : queued s = []) (hv : i.sTvalid = false) (hd : i.dropI = false)
    (hni : i.nextI = false) : queued (step p s i) = [] := by
  obtain ⟨haddr, hx⟩ := queued_eq_nil.mp h
  cases hr : i.reset
  · rw [queued_eq_nil]
    simp [step, hr, hp, rejectA, hd, waddrNext, storeW, hx, haddr, finishA, hnext, hni, captureA,
      hv]
  · exact queued_reset hp hr

/-- Without a write, a save or a read the queue stays as it is. -/
theorem queued_step (hp : p.lastOnSave = true) (hsave : p.saveOnLast = false)
    (hr : i.reset = false) (hv : i.sTvalid = false) (hd : i.dropI = false)
    (hni : i.nextI = false) (hq : s.saveQ = false) (hready : i.mTready = false) :
    queued (step p s i) = queued s := by
  have hstore : storeW p s i = false := by simp [storeW, hp, hv, hq, hsave]
  simp [queued, step, hr, hp, rejectA, hd, waddrNext, hstore, finishA, hready, hni, captureA, hv,
    releaseA, hq, hsave]

end MiscVerilogCores.PacketFifo
