import Mathlib.Data.Nat.Notation

/-! # `axi_chunks.v`

Cuts an AXI burst into requests for one memory burst each. The first chunk leaves in the
cycle in which the burst is accepted, the others follow from the registers. -/

namespace MiscVerilogCores.AxiChunks

variable {ADDRS REQID : ℕ}

/-! ## Requests for chunks -/

/-- A request for one chunk: `seq` is high when more chunks of the burst follow. -/
@[ext] structure Chunk (ADDRS REQID : ℕ) where
  addr : BitVec ADDRS
  id : BitVec REQID
  seq : Bool
deriving DecidableEq

/-- `{xaddr, xid, xseq}`, as the command FIFOs store it. -/
def Chunk.word (c : Chunk ADDRS REQID) : BitVec (ADDRS + REQID + 1) :=
  c.addr ++ c.id ++ BitVec.ofBool c.seq

def Chunk.ofWord (w : BitVec (ADDRS + REQID + 1)) : Chunk ADDRS REQID where
  addr := w.extractLsb' (REQID + 1) ADDRS
  id := w.extractLsb' 1 REQID
  seq := w.getLsbD 0

@[simp] theorem Chunk.ofWord_word (c : Chunk ADDRS REQID) : Chunk.ofWord c.word = c := by
  ext1
  · rw [ofWord, word, Nat.add_comm REQID 1, BitVec.extractLsb'_append_eq_of_le (Nat.le_add_right 1 _),
      Nat.add_sub_cancel_left]
    exact BitVec.extractLsb'_append_eq_left
  · rw [ofWord, word, BitVec.extractLsb'_append_eq_of_le (Nat.le_refl 1)]
    exact BitVec.extractLsb'_append_eq_right
  · rw [ofWord, word, BitVec.getLsbD_append]
    simp

/-! ## State and wires -/

structure State (ADDRS REQID : ℕ) where
  busyQ : Bool
  tridQ : BitVec REQID
  addrQ : BitVec ADDRS
  count : BitVec 6
deriving Inhabited

structure Inputs (ADDRS REQID : ℕ) where
  reset : Bool
  avalidI : Bool
  alenI : BitVec 8
  aidI : BitVec REQID
  aaddrI : BitVec ADDRS
  xreadyI : Bool

/-- `CHUNK_SIZE`, for a bus twice as wide as the memory. -/
def chunkSize : ℕ := 8

section Wires

variable (s : State ADDRS REQID) (i : Inputs ADDRS REQID)

def areadyO : Bool := !s.busyQ && i.xreadyI

/-- A burst is accepted in this cycle. -/
def starts : Bool := !s.busyQ && i.avalidI && i.xreadyI

/-- `alen_i[7:CHUNK] != 0`: the burst has more than one chunk. -/
def several : Bool := i.alenI.extractLsb' 2 6 != 0

/-- `alen_i[CSB:CHUNK]`: only four bits of the chunk count reach the counter. -/
def firstCount : BitVec 6 := (i.alenI.extractLsb' 2 4).setWidth 6

def busyW : Bool := i.avalidI && i.xreadyI || s.busyQ

def tridW : BitVec REQID := if s.busyQ then s.tridQ else i.aidI

def addrW : BitVec ADDRS := if s.busyQ then s.addrQ else i.aaddrI

def cnext : BitVec 6 := if s.count != 0 then s.count - 1 else s.count

def xvalidO : Bool := busyW s i

def xseqO : Bool := (starts s i && several i) || cnext s != 0

/-- The request on the output port. -/
def chunk : Chunk ADDRS REQID :=
  ⟨addrW s i, tridW s i, xseqO s i⟩

end Wires

/-- One clock edge. -/
def step (s : State ADDRS REQID) (i : Inputs ADDRS REQID) : State ADDRS REQID :=
  if i.reset then { s with busyQ := false, count := 0 }
  else if starts s i then
    { busyQ := several i
      tridQ := i.aidI
      addrQ := i.aaddrI + BitVec.ofNat _ chunkSize
      count := firstCount i }
  else if s.busyQ && i.xreadyI then
    { busyQ := cnext s != 0
      tridQ := s.tridQ
      addrQ := s.addrQ + BitVec.ofNat _ chunkSize
      count := cnext s }
  else s

end MiscVerilogCores.AxiChunks
