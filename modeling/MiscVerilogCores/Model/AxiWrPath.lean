import MiscVerilogCores.Model.AxiChunks
import MiscVerilogCores.Model.SyncFifo

/-! # `axi_wr_path.v`

The write path of the AXI interface, with `DATA_FIFO_BYPASS = 0` and the command FIFO in
LUT-SRAM (`CTRL_FIFO_BLOCK = 0`). The write-data FIFO is a queue: the surroundings choose
when it is ready and when it offers what it holds. -/

namespace MiscVerilogCores.AxiWrPath

/-! ## State and inputs -/

/-- States for capturing write requests. -/
inductive Phase where
  | idle | fill | busy
deriving DecidableEq, Inhabited

/-- One transfer of write data. -/
structure Beat (WIDTH : ℕ) where
  data : BitVec WIDTH
  strb : BitVec (WIDTH / 8)
  last : Bool
deriving DecidableEq

structure State (ADDRS WIDTH REQID CBITS : ℕ) where
  state : Phase
  aready : Bool
  wready : Bool
  bvalid : Bool
  bresp : BitVec 2
  bwrid : BitVec REQID
  chunks : AxiChunks.State ADDRS REQID
  cmds : SyncFifo.State (ADDRS + REQID + 1) CBITS
  beats : List (Beat WIDTH)
deriving Inhabited

/-- `wdfReady` is the ready signal of the write-data FIFO; `wdfOffers` is low while it keeps
back what it holds. -/
structure Inputs (ADDRS WIDTH REQID : ℕ) where
  reset : Bool
  axiAwvalidI : Bool
  axiAwaddrI : BitVec ADDRS
  axiAwidI : BitVec REQID
  axiAwlenI : BitVec 8
  axiWvalidI : Bool
  axiWdataI : BitVec WIDTH
  axiWstrbI : BitVec (WIDTH / 8)
  axiWlastI : Bool
  axiBreadyI : Bool
  memAcceptI : Bool
  memReadyI : Bool
  wdfReady : Bool
  wdfOffers : Bool
deriving Inhabited, DecidableEq

variable {ADDRS WIDTH REQID CBITS : ℕ}

section Wires

variable (s : State ADDRS WIDTH REQID CBITS) (i : Inputs ADDRS WIDTH REQID)

/-! ## Commands -/

def cmdValid : Bool := i.axiAwvalidI && s.aready

def xready : Bool := SyncFifo.readyO s.cmds

/-- The port connections of `U_CHUNK1`. -/
def chunkInputs : AxiChunks.Inputs ADDRS REQID where
  reset := i.reset
  avalidI := cmdValid s i
  alenI := i.axiAwlenI
  aidI := i.axiAwidI
  aaddrI := i.axiAwaddrI
  xreadyI := xready s

def cmdReady : Bool := AxiChunks.areadyO s.chunks (chunkInputs s i)

/-- The port connections of `U_FIFO1`. -/
def cmdFifoInputs : SyncFifo.Inputs (ADDRS + REQID + 1) where
  reset := i.reset
  validI := AxiChunks.xvalidO s.chunks (chunkInputs s i)
  dataI := (AxiChunks.chunk s.chunks (chunkInputs s i)).word
  readyI := i.memAcceptI

def memStoreO : Bool := SyncFifo.validO 0 s.cmds (cmdFifoInputs s i)

/-- The command on the memory port: `{mem_addr_o, mem_wrid_o, mem_wseq_o}`. -/
def memCommand : AxiChunks.Chunk ADDRS REQID :=
  AxiChunks.Chunk.ofWord (SyncFifo.dataO 0 s.cmds (cmdFifoInputs s i))

def memWseqO : Bool := (memCommand s i).seq

def memWridO : BitVec REQID := (memCommand s i).id

/-! ## Write data -/

/-- The beat on the AXI port. -/
def axiBeat : Beat WIDTH := ⟨i.axiWdataI, i.axiWstrbI, i.axiWlastI⟩

/-- A beat is transferred on the AXI port. -/
def transfers : Bool := i.axiWvalidI && s.wready

/-- The write-data FIFO takes a beat. -/
def stores : Bool := i.axiWvalidI && s.wready && i.wdfReady

/-- The write-data FIFO offers a beat once it holds a whole frame. -/
def memValidO : Bool := i.wdfOffers && s.beats.any Beat.last

def memLastO : Bool := s.beats.head?.any Beat.last

/-- The memory takes a beat. -/
def drains : Bool := memValidO s i && i.memReadyI

/-- The memory takes the last beat of a burst. -/
def finishes : Bool := i.memReadyI && memValidO s i && memLastO s

end Wires

/-! ## One clock edge -/

section Step

variable (s : State ADDRS WIDTH REQID CBITS) (i : Inputs ADDRS WIDTH REQID)

/-- The state machine that captures requests and data: state, `aready` and `wready`. -/
def capture : Phase × Bool × Bool :=
  if i.reset then (.idle, false, false)
  else
    match s.state with
    | .idle => if cmdValid s i then (.fill, false, true) else (.idle, true, false)
    | .fill =>
        if i.axiWvalidI && s.wready && i.axiWlastI then
          (if !cmdReady s i || !i.wdfReady then .busy else .idle, false, false)
        else (.fill, false, true)
    | .busy =>
        if cmdReady s i && i.wdfReady then (.idle, true, false) else (.busy, false, false)

/-- The write-response register: `bvalid`. -/
def bvalidNext : Bool :=
  if i.reset then false
  else if finishes s i then true
  else if s.bvalid && i.axiBreadyI then false
  else s.bvalid

/-- The ID of the response is that of the last command taken whole. -/
def bwridNext : BitVec REQID :=
  if !i.reset && i.memAcceptI && !memWseqO s i then memWridO s i else s.bwrid

def step : State ADDRS WIDTH REQID CBITS where
  state := (capture s i).1
  aready := (capture s i).2.1
  wready := (capture s i).2.2
  bvalid := bvalidNext s i
  bresp := 0
  bwrid := bwridNext s i
  chunks := AxiChunks.step s.chunks (chunkInputs s i)
  cmds := SyncFifo.step 0 s.cmds (cmdFifoInputs s i)
  beats :=
    if i.reset then []
    else
      (if drains s i then s.beats.tail else s.beats) ++ if stores s i then [axiBeat i] else []

end Step

/-- The state after a clock edge with `reset` asserted, whatever came before. -/
def afterReset (s : State ADDRS WIDTH REQID CBITS) (i : Inputs ADDRS WIDTH REQID) :
    State ADDRS WIDTH REQID CBITS :=
  step s { i with reset := true }

end MiscVerilogCores.AxiWrPath
