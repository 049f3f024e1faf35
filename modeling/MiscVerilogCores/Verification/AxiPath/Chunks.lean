import MiscVerilogCores.Model.AxiChunks
import Mathlib.Data.BitVec

/-! # The chunks of a burst

A burst is cut into chunks at ascending addresses, of which exactly one, the last, has `seq`
low. The chunks of one burst are handed on before those of the next. -/

namespace MiscVerilogCores.AxiChunks

variable {ADDRS REQID : ℕ}

/-! ## Bursts -/

/-- `k` chunks and a last one. -/
def train (id : BitVec REQID) : BitVec ADDRS → ℕ → List (Chunk ADDRS REQID)
  | addr, 0 => [⟨addr, id, false⟩]
  | addr, k + 1 => ⟨addr, id, true⟩ :: train id (addr + BitVec.ofNat _ chunkSize) k

/-- The chunks of the burst on the input port. -/
def burst (i : Inputs ADDRS REQID) : List (Chunk ADDRS REQID) :=
  if several i then
    ⟨i.aaddrI, i.aidI, true⟩ ::
      train i.aidI (i.aaddrI + BitVec.ofNat _ chunkSize) ((firstCount i).toNat - 1)
  else [⟨i.aaddrI, i.aidI, false⟩]

/-- The chunks still to come of the burst that is being cut. -/
def remaining (s : State ADDRS REQID) : List (Chunk ADDRS REQID) :=
  if s.busyQ then train s.tridQ s.addrQ (s.count.toNat - 1) else []

/-- The chunk handed on in a cycle. -/
def handed (s : State ADDRS REQID) (i : Inputs ADDRS REQID) : List (Chunk ADDRS REQID) :=
  if xvalidO s i && i.xreadyI then [chunk s i] else []

/-- The chunks of the burst accepted in a cycle. -/
def accepted (i : Inputs ADDRS REQID) : List (Chunk ADDRS REQID) :=
  if i.avalidI then burst i else []

/-- The ID of a burst, at its last chunk. -/
def lastId (c : Chunk ADDRS REQID) : Option (BitVec REQID) :=
  if c.seq then none else some c.id

theorem filterMap_train (id : BitVec REQID) (addr : BitVec ADDRS) (k : ℕ) :
    (train id addr k).filterMap lastId = [id] := by
  induction k generalizing addr with
  | zero => rfl
  | succ k ih => exact ih _

theorem filterMap_burst (i : Inputs ADDRS REQID) : (burst i).filterMap lastId = [i.aidI] := by
  rw [burst]
  split
  · exact filterMap_train _ _ _
  · rfl

/-! ## One clock edge -/

section Step

variable {s : State ADDRS REQID} {i : Inputs ADDRS REQID}

/-- A burst is accepted only while no other is cut, and the counter is clear then. -/
structure Free (s : State ADDRS REQID) (i : Inputs ADDRS REQID) : Prop where
  count : s.busyQ = false → s.count = 0
  ready : i.avalidI = true → s.busyQ = false ∧ i.xreadyI = true

/-- The four bits that reach the counter are zero when all six are. -/
theorem firstCount_eq_zero (h : several i = false) : firstCount i = 0 := by
  have hzero : i.alenI.extractLsb' 2 6 = 0 := by simpa [several] using h
  apply BitVec.eq_of_getLsbD_eq
  intro j hj
  have hbit := congrArg (fun v : BitVec 6 => v.getLsbD j) hzero
  simp only [BitVec.getLsbD_extractLsb', hj, decide_true, Bool.true_and] at hbit
  simp [firstCount, hbit]

theorem count_step (h : s.busyQ = false → s.count = 0) (i : Inputs ADDRS REQID) :
    (step s i).busyQ = false → (step s i).count = 0 := by
  unfold step
  split
  · exact fun _ => rfl
  · split
    · exact firstCount_eq_zero
    · split
      · exact fun hb => by simpa using hb
      · exact h

theorem cnext_toNat (s : State ADDRS REQID) : (cnext s).toNat = s.count.toNat - 1 := by
  by_cases hc : s.count = 0
  · simp [cnext, hc]
  · have hpos : 0 < s.count.toNat := by
      rw [Nat.pos_iff_ne_zero]
      exact fun h => hc (BitVec.eq_of_toNat_eq h)
    have hlt := s.count.isLt
    simp only [cnext, bne_iff_ne, ne_eq, hc, not_false_eq_true, if_true]
    rw [BitVec.toNat_sub]
    simp
    omega

/-- A chunk that is handed on leaves the rest of its burst behind. -/
theorem train_cnext (s : State ADDRS REQID) :
    train s.tridQ s.addrQ (s.count.toNat - 1) =
      ⟨s.addrQ, s.tridQ, cnext s != 0⟩ ::
        if cnext s != 0 then
          train s.tridQ (s.addrQ + BitVec.ofNat _ chunkSize) ((cnext s).toNat - 1)
        else [] := by
  have hnext := cnext_toNat s
  rw [← hnext]
  by_cases hn : cnext s = 0
  · rw [hn]
    rfl
  · obtain ⟨k, hk⟩ : ∃ k, (cnext s).toNat = k + 1 :=
      Nat.exists_eq_succ_of_ne_zero fun h => hn (BitVec.eq_of_toNat_eq h)
    have hne : (cnext s != 0) = true := by simpa using hn
    rw [hk, hne, if_pos rfl]
    rfl

/-- The chunks of each burst are handed on in order, behind those of the bursts before it. -/
theorem Free.step (h : Free s i) (hr : i.reset = false) :
    remaining s ++ accepted i = handed s i ++ remaining (AxiChunks.step s i) := by
  cases hv : i.avalidI
  · have hno : starts s i = false := by simp [starts, hv]
    cases hb : s.busyQ
    · simp [remaining, accepted, handed, AxiChunks.step, xvalidO, busyW, hr, hno, hb, hv]
    · cases hx : i.xreadyI
      · simp [remaining, accepted, handed, AxiChunks.step, hr, hno, hb, hv, hx]
      · have hchunk : chunk s i = ⟨s.addrQ, s.tridQ, cnext s != 0⟩ := by
          simp [chunk, addrW, tridW, xseqO, hno, hb]
        simp [remaining, accepted, handed, AxiChunks.step, xvalidO, busyW, hr, hno, hb, hv, hx,
          hchunk, train_cnext s]
  · obtain ⟨hb, hx⟩ := h.ready hv
    have hyes : starts s i = true := by simp [starts, hv, hb, hx]
    have hn : cnext s = 0 := by simp [cnext, h.count hb]
    have hchunk : chunk s i = ⟨i.aaddrI, i.aidI, several i⟩ := by
      simp [chunk, addrW, tridW, xseqO, hyes, hn, hb]
    cases hs : several i <;>
      simp [remaining, accepted, handed, burst, AxiChunks.step, xvalidO, busyW, hr, hyes, hb, hv,
        hx, hs, hchunk]

/-- Nothing is handed on while no burst is cut or accepted. -/
theorem idle_step (hr : i.reset = false) (hb : s.busyQ = false) (hv : i.avalidI = false) :
    xvalidO s i = false ∧ (step s i).busyQ = false := by
  have hno : starts s i = false := by simp [starts, hv]
  simp [xvalidO, busyW, step, hr, hb, hv, hno]

end Step

end MiscVerilogCores.AxiChunks
