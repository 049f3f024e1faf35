import MiscVerilogCores.Model.AxiChunks
import MiscVerilogCores.Model.SyncFifo

/-! # `axi_rd_path.v` and the read side of `ddr3_axi_ctrl.v`

The read path with `DATA_FIFO_BYPASS = 0` and both control FIFOs in LUT-SRAM
(`CTRL_FIFO_BLOCK = 0`), under the response-ID FIFO of `ddr3_axi_ctrl`. The memory is asked under
ordering IDs; the read-data FIFO is a queue: the surroundings choose when it is ready and when it
offers what it holds. -/

namespace MiscVerilogCores.AxiRdPath

/-- One transfer of read data. -/
structure Beat (WIDTH : ℕ) where
  data : BitVec WIDTH
  last : Bool
deriving DecidableEq

/-- `respIds` is `U_RD_RESP1`, `cmds` is `U_FIFO1` and `beats` is what `U_FIFO3` holds. -/
structure State (ADDRS WIDTH AXI_ID MEM_ID CBITS : ℕ) where
  reqId : BitVec MEM_ID
  chunks : AxiChunks.State ADDRS MEM_ID
  cmds : SyncFifo.State (ADDRS + MEM_ID + 1) CBITS
  respIds : SyncFifo.State AXI_ID CBITS
  beats : List (Beat WIDTH)
deriving Inhabited

/-- `wrAccept` is high when the memory accepts a write command; `rdfReady` is the ready signal of
the read-data FIFO, and `rdfOffers` is low while it keeps back what it holds. -/
structure Inputs (ADDRS WIDTH AXI_ID : ℕ) where
  reset : Bool
  axiArvalidI : Bool
  axiAraddrI : BitVec ADDRS
  axiAridI : BitVec AXI_ID
  axiArlenI : BitVec 8
  axiRreadyI : Bool
  wrAccept : Bool
  memRdackI : Bool
  memValidI : Bool
  memRlastI : Bool
  memRdataI : BitVec WIDTH
  rdfReady : Bool
  rdfOffers : Bool

variable {ADDRS WIDTH AXI_ID MEM_ID CBITS : ℕ}

section Wires

variable (s : State ADDRS WIDTH AXI_ID MEM_ID CBITS) (i : Inputs ADDRS WIDTH AXI_ID)

/-! ## Commands -/

def xready : Bool := SyncFifo.readyO s.cmds

/-- The port connections of `chunker_inst`, with `avalid` on its valid port. -/
def chunkerInputs (avalid : Bool) : AxiChunks.Inputs ADDRS MEM_ID where
  reset := i.reset
  avalidI := avalid
  alenI := i.axiArlenI
  aidI := s.reqId
  aaddrI := i.axiAraddrI
  xreadyI := xready s

/-- The ready output of the chunker does not depend on its valid input. -/
def cmdReady : Bool := AxiChunks.areadyO s.chunks (chunkerInputs s i false)

/-- A read request is accepted. -/
def requests : Bool := i.axiArvalidI && cmdReady s i

def chunkInputs : AxiChunks.Inputs ADDRS MEM_ID := chunkerInputs s i (requests s i)

/-- The port connections of `U_FIFO1`. -/
def cmdFifoInputs : SyncFifo.Inputs (ADDRS + MEM_ID + 1) where
  reset := i.reset
  validI := AxiChunks.xvalidO s.chunks (chunkInputs s i)
  dataI := (AxiChunks.chunk s.chunks (chunkInputs s i)).word
  readyI := i.memRdackI

def memRdreqO : Bool := SyncFifo.validO 0 s.cmds (cmdFifoInputs s i)

/-- The command on the memory port: `{mem_rdadr_o, mem_rdtid_o, rd_seq}`. -/
def memCommand : AxiChunks.Chunk ADDRS MEM_ID :=
  AxiChunks.Chunk.ofWord (SyncFifo.dataO 0 s.cmds (cmdFifoInputs s i))

def rdAccept : Bool := memRdreqO s i && i.memRdackI

def issued : Bool := i.wrAccept || rdAccept s i

/-! ## Read data -/

/-- The beat from the memory. -/
def memBeat : Beat WIDTH := ⟨i.memRdataI, i.memRlastI⟩

/-- The read-data FIFO takes a beat. -/
def stores : Bool := i.memValidI && i.rdfReady

def axiRvalidO : Bool := i.rdfOffers && !s.beats.isEmpty

def axiRlastO : Bool := s.beats.head?.any Beat.last

/-- The master takes a beat. -/
def delivers : Bool := axiRvalidO s i && i.axiRreadyI

def rdFinish : Bool := axiRvalidO s i && i.axiRreadyI && axiRlastO s

/-- The port connections of `U_RD_RESP1`. -/
def respInputs : SyncFifo.Inputs AXI_ID where
  reset := i.reset
  validI := rdAccept s i
  dataI := i.axiAridI
  readyI := rdFinish s i

def axiRidO : BitVec AXI_ID := SyncFifo.dataO 0 s.respIds (respInputs s i)

end Wires

/-- One clock edge. -/
def step (s : State ADDRS WIDTH AXI_ID MEM_ID CBITS) (i : Inputs ADDRS WIDTH AXI_ID) :
    State ADDRS WIDTH AXI_ID MEM_ID CBITS where
  reqId := if i.reset then 0 else if issued s i then s.reqId + 1 else s.reqId
  chunks := AxiChunks.step s.chunks (chunkInputs s i)
  cmds := SyncFifo.step 0 s.cmds (cmdFifoInputs s i)
  respIds := SyncFifo.step 0 s.respIds (respInputs s i)
  beats :=
    if i.reset then []
    else
      (if delivers s i then s.beats.tail else s.beats) ++ if stores i then [memBeat i] else []

/-- The state after a clock edge with `reset` asserted, whatever came before. -/
def afterReset (s : State ADDRS WIDTH AXI_ID MEM_ID CBITS) (i : Inputs ADDRS WIDTH AXI_ID) :
    State ADDRS WIDTH AXI_ID MEM_ID CBITS :=
  step s { i with reset := true }

end MiscVerilogCores.AxiRdPath
